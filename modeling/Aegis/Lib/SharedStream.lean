import Aegis.Lib.Fields
import Mathlib.Logic.Function.Basic

/-! Threads that insert into one output stream. There is one mutex, which a thread
may or may not take, and the scheduler picks who does the next operation. -/
namespace SharedStream

inductive Op where
  | lock
  | insert (s : Bytes)
  | flush
  | unlock
  deriving DecidableEq

/-- What the threads have yet to do, the owner of the mutex, the thread that inserted
last, the stream, and how often each thread has given the mutex back. -/
structure Config (κ : Type) where
  rest : κ → List Op
  owner : Option κ := none
  last : Option κ := none
  stream : Bytes := []
  released : κ → ℕ := fun _ => 0

variable {κ : Type} [DecidableEq κ]

/-- The next operation of a thread; none if it has finished or has to wait. -/
def step (t : κ) (c : Config κ) : Option (Config κ) :=
  match c.rest t with
  | [] => none
  | .lock :: ops =>
    if c.owner = none then some { c with rest := Function.update c.rest t ops, owner := some t }
    else none
  | .insert s :: ops =>
    some { c with rest := Function.update c.rest t ops, last := some t, stream := c.stream ++ s }
  | .flush :: ops => some { c with rest := Function.update c.rest t ops }
  | .unlock :: ops =>
    if c.owner = some t then
      some { c with
        rest := Function.update c.rest t ops, owner := none,
        released := Function.update c.released t (c.released t + 1) }
    else none

def run : List κ → Config κ → Option (Config κ)
  | [], c => some c
  | t :: ts, c => (step t c).bind (run ts)

def completeLines (s : Bytes) : List Bytes := (s.splitOn 10).dropLast

def AtLineStart (s : Bytes) : Prop := (s.splitOn 10).getLast? = some []

instance (s : Bytes) : Decidable (AtLineStart s) := inferInstanceAs (Decidable (_ = _))

def Op.isInsert : Op → Bool
  | .insert _ => true
  | _ => false

/-- A thread inserts at the start of a line or goes on where it inserted itself. -/
def Orderly (t : κ) (c : Config κ) : Prop :=
  (c.rest t).head?.any Op.isInsert = true → AtLineStart c.stream ∨ c.last = some t

instance (t : κ) (c : Config κ) : Decidable (Orderly t c) := inferInstanceAs (Decidable (_ → _))

def OrderlyRun : List κ → Config κ → Prop
  | [], _ => True
  | t :: ts, c => Orderly t c ∧ ∀ c' ∈ step t c, OrderlyRun ts c'

instance decidableOrderlyRun : ∀ (ts : List κ) (c : Config κ), Decidable (OrderlyRun ts c)
  | [], _ => isTrue trivial
  | t :: ts, c =>
    have := decidableOrderlyRun ts
    inferInstanceAs (Decidable (Orderly t c ∧ ∀ c' ∈ step t c, OrderlyRun ts c'))

/-! Lines of a growing stream. -/

theorem splitOn_append (s t : Bytes) : ∃ p ps, t.splitOn 10 = p :: ps ∧ ∃ l,
    (s.splitOn 10).getLast? = some l ∧
      (s ++ t).splitOn 10 = (s.splitOn 10).dropLast ++ (l ++ p) :: ps := by
  obtain ⟨p, ps, hp⟩ := List.exists_cons_of_ne_nil (List.splitOn_ne_nil (10 : UInt8) t)
  refine ⟨p, ps, hp, ?_⟩
  induction s with
  | nil => exact ⟨[], rfl, hp⟩
  | cons b s ih =>
    obtain ⟨l, hlast, happ⟩ := ih
    obtain ⟨q, qs, hq⟩ := List.exists_cons_of_ne_nil (List.splitOn_ne_nil (10 : UInt8) s)
    rw [List.cons_append, List.splitOn_cons_eq_if_modifyHead, List.splitOn_cons_eq_if_modifyHead,
      happ, hq]
    rw [hq] at hlast
    split_ifs with hb
    · refine ⟨l, ?_, rfl⟩
      rw [List.getLast?_cons_cons]
      exact hlast
    · cases qs with
      | nil =>
        rw [List.getLast?_singleton, Option.some.injEq] at hlast
        subst hlast
        exact ⟨b :: q, rfl, rfl⟩
      | cons r qs =>
        refine ⟨l, ?_, rfl⟩
        rw [List.modifyHead_cons, List.getLast?_cons_cons]
        rw [List.getLast?_cons_cons] at hlast
        exact hlast

/-- What is inserted later ends no line anew. -/
theorem completeLines_mono (s t : Bytes) : completeLines s <+: completeLines (s ++ t) := by
  obtain ⟨p, ps, -, l, -, happ⟩ := splitOn_append s t
  unfold completeLines
  rw [happ, List.dropLast_append_of_ne_nil (List.cons_ne_nil _ _)]
  exact List.prefix_append _ _

/-! What a step does. -/

/-- What some operations insert. -/
def text (ops : List Op) : Bytes :=
  ops.flatMap fun op => match op with
    | .insert s => s
    | _ => []

theorem text_append (ops ops' : List Op) : text (ops ++ ops') = text ops ++ text ops' :=
  List.flatMap_append

theorem text_inserts (ss : List Bytes) : text (ss.map Op.insert) = ss.flatten := by
  induction ss with
  | nil => rfl
  | cons s ss ih => exact congrArg (s ++ ·) ih

/-- A step of `u` does its next operation, which it then has no more to do. -/
structure Does (u : κ) (op : Op) (c c' : Config κ) : Prop where
  rest : c.rest u = op :: c'.rest u
  others : ∀ t, t ≠ u → c'.rest t = c.rest t
  stream : c'.stream = c.stream ++ text [op]
  last : c'.last = if op.isInsert then some u else c.last
  released : ∀ t, c'.released t = c.released t + if t = u then [op].count .unlock else 0

theorem step_spec {u : κ} {c c' : Config κ} (h : step u c = some c') : ∃ op, Does u op c c' := by
  unfold step at h
  cases hrest : c.rest u with
  | nil =>
    rw [hrest] at h
    cases h
  | cons op ops =>
    rw [hrest] at h
    have hself : op :: ops = op :: Function.update c.rest u ops u := by rw [Function.update_self]
    have hothers : ∀ t, t ≠ u → Function.update c.rest u ops t = c.rest t :=
      fun t hne => Function.update_of_ne hne _ _
    have hnone : ∀ t, c.released t = c.released t + if t = u then 0 else 0 := by
      intro t
      rw [ite_self, Nat.add_zero]
    cases op with
    | lock =>
      dsimp only at h
      split_ifs at h
      cases h
      exact ⟨.lock, hrest.trans hself, hothers, (List.append_nil _).symm, rfl, hnone⟩
    | insert s =>
      cases h
      exact ⟨.insert s, hrest.trans hself, hothers,
        congrArg (c.stream ++ ·) (List.append_nil s).symm, rfl, hnone⟩
    | flush =>
      cases h
      exact ⟨.flush, hrest.trans hself, hothers, (List.append_nil _).symm, rfl, hnone⟩
    | unlock =>
      dsimp only at h
      split_ifs at h
      cases h
      refine ⟨.unlock, hrest.trans hself, hothers, (List.append_nil _).symm, rfl, fun t => ?_⟩
      by_cases ht : t = u
      · subst ht
        rw [if_pos rfl]
        exact Function.update_self _ _ _
      · rw [if_neg ht]
        exact Function.update_of_ne ht _ _

/-- The operations of a thread are done one by one, and it has given the mutex back as often
as it has done an `unlock`. -/
theorem done_run (t : κ) {schedule : List κ} {c c' : Config κ} (h : run schedule c = some c') :
    ∃ did, c.rest t = did ++ c'.rest t ∧ c'.released t = c.released t + did.count .unlock := by
  induction schedule generalizing c with
  | nil =>
    cases h
    exact ⟨[], rfl, rfl⟩
  | cons u schedule ih =>
    obtain ⟨c₁, hstep, hrun⟩ := Option.bind_eq_some_iff.mp h
    obtain ⟨did, hrest, hreleased⟩ := ih hrun
    obtain ⟨op, hdoes⟩ := step_spec hstep
    have hfirst := hdoes.released t
    by_cases ht : t = u
    · subst ht
      rw [if_pos rfl] at hfirst
      refine ⟨op :: did, by rw [hdoes.rest, hrest]; rfl, ?_⟩
      rw [hreleased, hfirst, Nat.add_assoc, ← List.count_append]
      rfl
    · rw [if_neg ht] at hfirst
      exact ⟨did, hdoes.others t ht ▸ hrest, by rw [hreleased, hfirst]; rfl⟩

end SharedStream
