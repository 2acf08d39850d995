import Mathlib.Logic.Basic
import Mathlib.Data.List.Basic
import Mathlib.Data.List.Induction
import Mathlib.Data.List.ReduceOption

/-! Deterministic machines that answer every input, their runs, invariants of
runs, and simulation between two machines under an assumption on the inputs. -/

/-- A state, a start and one answer for each input. -/
structure Transducer (σ ι ο : Type*) where
  init : σ
  step : σ → ι → σ × ο

namespace Transducer

variable {σ ι ο : Type*} (M : Transducer σ ι ο)

/-- The state a run from `s` ends in. -/
def after (s : σ) (is : List ι) : σ := is.foldl (fun s i => (M.step s i).1) s

/-- The answers of a run from `s`, in the order of the inputs. -/
def outputs : σ → List ι → List ο
  | _, [] => []
  | s, i :: is => (M.step s i).2 :: outputs (M.step s i).1 is

/-- The state a whole run ends in. -/
def run (is : List ι) : σ := M.after M.init is

/-- The answers of a whole run. -/
def answers (is : List ι) : List ο := M.outputs M.init is

@[simp] theorem after_nil (s : σ) : M.after s [] = s := rfl

@[simp] theorem after_cons (s : σ) (i : ι) (is : List ι) :
    M.after s (i :: is) = M.after (M.step s i).1 is := rfl

theorem after_append (s : σ) (is js : List ι) :
    M.after s (is ++ js) = M.after (M.after s is) js := List.foldl_append

@[simp] theorem outputs_nil (s : σ) : M.outputs s [] = [] := rfl

@[simp] theorem outputs_cons (s : σ) (i : ι) (is : List ι) :
    M.outputs s (i :: is) = (M.step s i).2 :: M.outputs (M.step s i).1 is := rfl

theorem outputs_append (s : σ) (is js : List ι) :
    M.outputs s (is ++ js) = M.outputs s is ++ M.outputs (M.after s is) js := by
  induction is generalizing s with
  | nil => rfl
  | cons i is ih => simp only [List.cons_append, outputs_cons, after_cons, ih]

@[simp] theorem length_outputs (s : σ) (is : List ι) :
    (M.outputs s is).length = is.length := by
  induction is generalizing s with
  | nil => rfl
  | cons i is ih => simp only [outputs_cons, List.length_cons, ih]

theorem run_append (is js : List ι) : M.run (is ++ js) = M.after (M.run is) js :=
  M.after_append _ _ _

theorem run_concat (is : List ι) (i : ι) :
    M.run (is ++ [i]) = (M.step (M.run is) i).1 := M.run_append is [i]

theorem answers_append (is js : List ι) :
    M.answers (is ++ js) = M.answers is ++ M.outputs (M.run is) js :=
  M.outputs_append _ _ _

theorem answers_concat (is : List ι) (i : ι) :
    M.answers (is ++ [i]) = M.answers is ++ [(M.step (M.run is) i).2] :=
  M.answers_append is [i]

@[simp] theorem length_answers (is : List ι) : (M.answers is).length = is.length :=
  M.length_outputs _ _

theorem answers_getElem? (pre post : List ι) (i : ι) :
    (M.answers (pre ++ i :: post))[pre.length]? = some (M.step (M.run pre) i).2 := by
  rw [answers_append, List.getElem?_append_right (by simp), length_answers, Nat.sub_self]
  rfl

theorem mem_answers_iff {is : List ι} {o : ο} :
    o ∈ M.answers is ↔
      ∃ pre i post, is = pre ++ i :: post ∧ o = (M.step (M.run pre) i).2 := by
  constructor
  · intro ho
    obtain ⟨n, hn, hget⟩ := List.getElem_of_mem ho
    rw [length_answers] at hn
    refine ⟨is.take n, is[n], is.drop (n + 1), by simp, ?_⟩
    have hpos := M.answers_getElem? (is.take n) (is.drop (n + 1)) is[n]
    have hsplit : is.take n ++ is[n] :: is.drop (n + 1) = is := by simp
    rw [hsplit, List.length_take_of_le (Nat.le_of_lt hn), List.getElem?_eq_getElem (by simpa using hn),
      hget] at hpos
    exact Option.some.inj hpos
  · intro h
    obtain ⟨pre, i, post, hsplit, ho⟩ := h
    rw [hsplit, ho]
    exact List.mem_of_getElem? (M.answers_getElem? pre post i)

/-- What holds of each input after those before it, when one more input comes. -/
theorem forall_history_concat {P : List ι → ι → Prop} (is : List ι) (j : ι) :
    (∀ pre i post, is ++ [j] = pre ++ i :: post → P pre i) ↔
      (∀ pre i post, is = pre ++ i :: post → P pre i) ∧ P is j := by
  constructor
  · intro h
    refine ⟨fun pre i post his => h pre i (post ++ [j]) ?_, h is j [] rfl⟩
    rw [his, List.append_assoc]
    rfl
  · intro h pre i post heq
    rcases List.eq_nil_or_concat post with rfl | ⟨post, last, rfl⟩
    · obtain ⟨hpre, hi⟩ := List.append_inj' heq rfl
      rw [← hpre, ← (List.cons.inj hi).1]
      exact h.2
    · rw [List.concat_eq_append, ← List.cons_append, ← List.append_assoc] at heq
      exact h.1 pre i post (List.append_inj' heq rfl).1

section Invariants
variable {M} {P : σ → Prop}

/-- What every step preserves, every run preserves. -/
theorem after_preserves (hstep : ∀ s i, P s → P (M.step s i).1) {s : σ} (hs : P s)
    (is : List ι) : P (M.after s is) := by
  induction is generalizing s with
  | nil => exact hs
  | cons i is ih => exact ih (hstep s i hs)

theorem run_preserves (hinit : P M.init) (hstep : ∀ s i, P s → P (M.step s i).1)
    (is : List ι) : P (M.run is) := after_preserves hstep hinit is

/-- What every step from an invariant state guarantees of its answer, all answers have. -/
theorem answers_forall {Q : ο → Prop} (hinit : P M.init)
    (hstep : ∀ s i, P s → P (M.step s i).1) (hout : ∀ s i, P s → Q (M.step s i).2)
    (is : List ι) : ∀ o ∈ M.answers is, Q o := by
  induction is using List.reverseRecOn with
  | nil => simp [answers]
  | append_singleton is i ih =>
    intro o ho
    rw [answers_concat, List.mem_append, List.mem_singleton] at ho
    rcases ho with ho | rfl
    · exact ih o ho
    · exact hout _ i (run_preserves hinit hstep is)

/-- Inputs with a property, from states with an invariant, get answers that suit them. -/
theorem forall₂_outputs {A : ι → Prop} {Q : ι → ο → Prop}
    (hstep : ∀ s i, P s → A i → P (M.step s i).1 ∧ Q i (M.step s i).2) {s : σ} (hs : P s)
    {is : List ι} (his : ∀ i ∈ is, A i) :
    P (M.after s is) ∧ List.Forall₂ Q is (M.outputs s is) := by
  induction is generalizing s with
  | nil => exact ⟨hs, .nil⟩
  | cons i is ih =>
    obtain ⟨hi, hrest⟩ := List.forall_mem_cons.mp his
    obtain ⟨hP, hQ⟩ := hstep s i hs hi
    obtain ⟨hafter, houtputs⟩ := ih hP hrest
    exact ⟨hafter, .cons hQ houtputs⟩

end Invariants

/-! Simulation. The inputs may be restricted by what has been read before, as a
clock restricts the next reading. -/

/-- An assumption on input sequences: which input may follow. -/
structure Environment (γ ι : Type*) where
  allowed : γ → ι → Prop
  advance : γ → ι → γ

namespace Environment
variable {γ : Type*}

/-- The sequences whose every input is allowed when it is read. -/
def Admissible (E : Environment γ ι) : γ → List ι → Prop
  | _, [] => True
  | g, i :: is => E.allowed g i ∧ E.Admissible (E.advance g i) is

def free (ι : Type*) : Environment Unit ι := ⟨fun _ _ => True, fun g _ => g⟩

theorem free_admissible (g : Unit) (is : List ι) : (free ι).Admissible g is := by
  induction is with
  | nil => trivial
  | cons i is ih => exact ⟨trivial, ih⟩

end Environment

section Simulation
variable {τ ι' ο' γ : Type*}

/-- `N` follows `M` step by step: it reads the image of every input and gives the
image of every answer, as long as the inputs are allowed. -/
structure Simulation (M : Transducer σ ι ο) (N : Transducer τ ι' ο') (a : ι → ι') (b : ο → ο')
    (E : Environment γ ι) (g₀ : γ) (R : γ → σ → τ → Prop) : Prop where
  init : R g₀ M.init N.init
  step : ∀ {g s t i}, E.allowed g i → R g s t →
    R (E.advance g i) (M.step s i).1 (N.step t (a i)).1 ∧ (N.step t (a i)).2 = b (M.step s i).2

variable {M : Transducer σ ι ο} {N : Transducer τ ι' ο'} {a : ι → ι'} {b : ο → ο'}
  {E : Environment γ ι} {g₀ : γ} {R : γ → σ → τ → Prop}

theorem Simulation.outputs_eq (h : Simulation M N a b E g₀ R) {g : γ} {s : σ} {t : τ}
    (hst : R g s t) {is : List ι} (hadm : E.Admissible g is) :
    N.outputs t (is.map a) = (M.outputs s is).map b := by
  induction is generalizing g s t with
  | nil => rfl
  | cons i is ih =>
    obtain ⟨hR, ho⟩ := h.step hadm.1 hst
    simp only [List.map_cons, outputs_cons, ho, ih hR hadm.2]

theorem Simulation.after_related (h : Simulation M N a b E g₀ R) {g : γ} {s : σ} {t : τ}
    (hst : R g s t) {is : List ι} (hadm : E.Admissible g is) :
    ∃ g', R g' (M.after s is) (N.after t (is.map a)) := by
  induction is generalizing g s t with
  | nil => exact ⟨g, hst⟩
  | cons i is ih => exact ih (h.step hadm.1 hst).1 hadm.2

theorem Simulation.answers_eq (h : Simulation M N a b E g₀ R) {is : List ι}
    (hadm : E.Admissible g₀ is) : N.answers (is.map a) = (M.answers is).map b :=
  h.outputs_eq h.init hadm

theorem Simulation.run_related (h : Simulation M N a b E g₀ R) {is : List ι}
    (hadm : E.Admissible g₀ is) : ∃ g', R g' (M.run is) (N.run (is.map a)) :=
  h.after_related h.init hadm

end Simulation

section Observers
variable {υ τ κ : Type*}

/-- The machine, with something else said about each step. -/
def observe (f : σ → ι → υ) : Transducer σ ι υ :=
  ⟨M.init, fun s i => ((M.step s i).1, f s i)⟩

/-- A fact that some steps decide and the others leave as it is stands as it was decided last. -/
theorem run_iff_last {M : Transducer σ ι ο} (P : σ → Prop) (verdict : σ → ι → Option Bool)
    (hinit : ¬ P M.init) (hstep : ∀ s i, P (M.step s i).1 ↔ (verdict s i).elim (P s) (· = true))
    (is : List ι) :
    P (M.run is) ↔ ((M.observe verdict).answers is).reduceOption.getLast? = some true := by
  induction is using List.reverseRecOn with
  | nil => exact iff_of_false hinit (by simp [answers, outputs])
  | append_singleton is i ih =>
    rw [run_concat, hstep, answers_concat, List.reduceOption_append]
    show _ ↔ (_ ++ [verdict (M.run is) i].reduceOption).getLast? = some true
    cases verdict (M.run is) i with
    | none =>
      rw [List.reduceOption_singleton, Option.toList_none, List.append_nil]
      exact ih
    | some b =>
      rw [List.reduceOption_singleton, Option.toList_some, List.getLast?_concat, Option.some.injEq]
      rfl

/-- A machine inside another, fed with what the outer one answers. -/
theorem run_inner {M : Transducer σ ι (List κ)} {N : Transducer τ κ υ} (inner : σ → τ)
    (hinit : inner M.init = N.init)
    (hstep : ∀ s i, inner (M.step s i).1 = N.after (inner s) (M.step s i).2) (is : List ι) :
    inner (M.run is) = N.run (M.answers is).flatten := by
  induction is using List.reverseRecOn with
  | nil => exact hinit
  | append_singleton is i ih =>
    rw [run_concat, hstep, ih, answers_concat, List.flatten_append, run_append]
    simp only [List.flatten_cons, List.flatten_nil, List.append_nil]

end Observers

end Transducer
