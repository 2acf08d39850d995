import Aegis.Lib.Keyed
import Aegis.Lib.Table
import Aegis.Lib.Text
import Mathlib.Algebra.Order.Ring.Rat
import Mathlib.Tactic.Linarith

/-! Alert deduplication, `AlertDedup` of `multi_agent_soc.py`. Calls are taken in
the order in which they hold the lock; a clock reading is the rational it denotes
and differences are exact. -/
namespace Aegis.Soc

structure AlertDedup where
  window : ℚ
  seen : Table Text ℚ := ∅

/-- A call of `should_process` with the clock it has read. -/
@[ext] structure Call where
  ip : Text
  now : ℚ
  deriving DecidableEq

namespace AlertDedup

def shouldProcess (d : AlertDedup) (c : Call) : AlertDedup × Bool :=
  let last := (d.seen.lookup c.ip).getD 0
  if c.now - last < d.window then (d, false)
  else
    let seen := d.seen.insert c.ip c.now
    -- entries past ten windows are dropped on the way
    let cutoff := c.now - d.window * 10
    ({ d with seen := Table.keepIf (fun _ v => cutoff < v) seen }, true)

/-- The same without dropping anything. -/
def shouldProcessKeepingAll (d : AlertDedup) (c : Call) : AlertDedup × Bool :=
  if c.now - (d.seen.lookup c.ip).getD 0 < d.window then (d, false)
  else ({ d with seen := d.seen.insert c.ip c.now }, true)

def machine (should : AlertDedup → Call → AlertDedup × Bool) (w : ℚ) :
    Transducer AlertDedup Call Bool := ⟨{ window := w }, should⟩

end AlertDedup

/-! The purpose: for each address a window that remembers every accepted reading
and accepts a new one when none of them is closer than the window. -/

def acceptWindow (w : ℚ) : Keyed.Component (List ℚ) ℚ Empty Bool where
  init := []
  input accepted now :=
    if ∀ r ∈ accepted, ¬ now - r < w then (now :: accepted, true) else (accepted, false)
  broadcast accepted _ := accepted

def Call.event (c : Call) : Keyed.Event Text ℚ Empty := .at c.ip c.now

def monotoneClock : Transducer.Environment ℚ Call := ⟨fun last c => last ≤ c.now, fun _ c => c.now⟩

theorem monotoneClock_admissible_iff {calls : List Call} {g : ℚ} :
    monotoneClock.Admissible g calls ↔
      calls.Pairwise (fun a b => a.now ≤ b.now) ∧ ∀ c ∈ calls, g ≤ c.now := by
  induction calls generalizing g with
  | nil => simp [Transducer.Environment.Admissible]
  | cons c calls ih =>
    rw [Transducer.Environment.Admissible, ih, List.pairwise_cons, List.forall_mem_cons]
    constructor
    · rintro ⟨hhead, htail, hge⟩
      exact ⟨⟨hge, htail⟩, hhead, fun c' hc' => le_trans hhead (hge c' hc')⟩
    · rintro ⟨⟨hge, htail⟩, hhead, -⟩
      exact ⟨hhead, htail, hge⟩

theorem monotoneClock_sublist {calls calls' : List Call} {g : ℚ}
    (hadm : monotoneClock.Admissible g calls) (hsub : calls'.Sublist calls) :
    monotoneClock.Admissible g calls' := by
  rw [monotoneClock_admissible_iff] at hadm ⊢
  exact ⟨hadm.1.sublist hsub, fun c hc => hadm.2 c (hsub.subset hc)⟩

/-- The table against the accepted readings at clock `clock`: an entry is the last
accepted reading, and where there is none all readings are out of the window. -/
structure Remembers (w clock : ℚ) (d : AlertDedup) (f : Text → List ℚ) : Prop where
  window : d.window = w
  reached : w ≤ clock
  entry : ∀ ip r, d.seen.lookup ip = some r → r ∈ f ip ∧ ∀ r' ∈ f ip, r' ≤ r
  missing : ∀ ip, d.seen.lookup ip = none → ∀ r ∈ f ip, r ≤ clock - w
  past : ∀ ip, ∀ r ∈ f ip, r ≤ clock

theorem remembers_init (w : ℚ) : Remembers w w { window := w } (fun _ => []) where
  window := rfl
  reached := le_rfl
  entry _ _ hlook := absurd hlook (by simp)
  missing _ _ _ hr := absurd hr List.not_mem_nil
  past _ _ hr := absurd hr List.not_mem_nil

theorem Remembers.decision {w clock : ℚ} {d : AlertDedup} {f : Text → List ℚ}
    (h : Remembers w clock d f) {c : Call} (hc : clock ≤ c.now) :
    c.now - (d.seen.lookup c.ip).getD 0 < d.window ↔ ¬ ∀ r ∈ f c.ip, ¬ c.now - r < w := by
  rw [h.window]
  cases hlook : d.seen.lookup c.ip with
  | none =>
    have hold : ∀ r ∈ f c.ip, ¬ c.now - r < w := by
      intro r hr
      have hout := h.missing c.ip hlook r hr
      linarith
    have hreached : ¬ c.now - 0 < w := by
      have hclock := h.reached
      linarith
    exact iff_of_false hreached (not_not.mpr hold)
  | some r =>
    obtain ⟨hmem, hmax⟩ := h.entry c.ip r hlook
    rw [Option.getD_some, not_forall]
    constructor
    · exact fun hlt => ⟨r, by simpa using ⟨hmem, hlt⟩⟩
    · rintro ⟨r', hr'⟩
      obtain ⟨hmem', hlt⟩ : r' ∈ f c.ip ∧ c.now - r' < w := by simpa using hr'
      have hle := hmax r' hmem'
      linarith

theorem Remembers.reject {w clock : ℚ} {d : AlertDedup} {f : Text → List ℚ}
    (h : Remembers w clock d f) {now : ℚ} (hc : clock ≤ now) : Remembers w now d f where
  window := h.window
  reached := h.reached.trans hc
  entry := h.entry
  missing ip hlook r hr := by
    have hout := h.missing ip hlook r hr
    linarith
  past ip r hr := (h.past ip r hr).trans hc

theorem Remembers.accept {w clock : ℚ} (hw : 0 < w) {d : AlertDedup} {f : Text → List ℚ}
    (h : Remembers w clock d f) {c : Call} (hc : clock ≤ c.now)
    {seen : Table Text ℚ}
    (hkept : ∀ ip r, seen.lookup ip = some r → (d.seen.insert c.ip c.now).lookup ip = some r)
    (hgone : ∀ ip r, (d.seen.insert c.ip c.now).lookup ip = some r → seen.lookup ip = none →
      r ≤ c.now - w) :
    Remembers w c.now { d with seen := seen }
      (Function.update f c.ip (c.now :: f c.ip)) where
  window := h.window
  reached := h.reached.trans hc
  entry ip r hlook := by
    have hins := hkept ip r hlook
    by_cases hip : ip = c.ip
    · subst hip
      rw [AList.lookup_insert] at hins
      cases hins
      rw [Function.update_self]
      refine ⟨List.mem_cons_self, fun r' hr' => ?_⟩
      rcases List.mem_cons.mp hr' with rfl | hr'
      · exact le_rfl
      · exact (h.past _ r' hr').trans hc
    · rw [AList.lookup_insert_ne hip] at hins
      rw [Function.update_of_ne hip]
      exact h.entry ip r hins
  missing ip hlook r hr := by
    by_cases hip : ip = c.ip
    · subst hip
      have hout := hgone c.ip c.now (AList.lookup_insert _) hlook
      linarith
    · rw [Function.update_of_ne hip] at hr
      cases hold : d.seen.lookup ip with
      | none =>
        have hout := h.missing ip hold r hr
        linarith
      | some r₀ =>
        have hout := hgone ip r₀ (by rw [AList.lookup_insert_ne hip, hold]) hlook
        exact ((h.entry ip r₀ hold).2 r hr).trans hout
  past ip r hr := by
    by_cases hip : ip = c.ip
    · subst hip
      rw [Function.update_self] at hr
      rcases List.mem_cons.mp hr with rfl | hr
      · exact le_rfl
      · exact (h.past _ r hr).trans hc
    · rw [Function.update_of_ne hip] at hr
      exact (h.past ip r hr).trans hc

namespace AlertDedup

/-- A machine whose calls agree with the windows and keep the relation gives the
answers of the windows. -/
def Agrees (w : ℚ) (should : AlertDedup → Call → AlertDedup × Bool) : Prop :=
  ∀ clock d f c, clock ≤ c.now → Remembers w clock d f →
    Remembers w c.now (should d c).1 (Function.update f c.ip ((acceptWindow w).input (f c.ip) c.now).1) ∧
      ((acceptWindow w).input (f c.ip) c.now).2 = (should d c).2

/-- Which entries are dropped makes no difference as long as they are out of the window. -/
theorem agrees_of_seen {w : ℚ} (hw : 0 < w) {should : AlertDedup → Call → AlertDedup × Bool}
    (seen : AlertDedup → Call → Table Text ℚ)
    (hshould : ∀ d c, should d c =
      if c.now - (d.seen.lookup c.ip).getD 0 < d.window then (d, false)
      else ({ d with seen := seen d c }, true))
    (hkept : ∀ d c ip r, (seen d c).lookup ip = some r →
      (d.seen.insert c.ip c.now).lookup ip = some r)
    (hgone : ∀ d c ip r, d.window = w → (d.seen.insert c.ip c.now).lookup ip = some r →
      (seen d c).lookup ip = none → r ≤ c.now - w) :
    Agrees w should := by
  intro clock d f c hc h
  have hdec := h.decision hc
  rw [hshould]
  by_cases hall : ∀ r ∈ f c.ip, ¬ c.now - r < w
  · have hgo : ¬ c.now - (d.seen.lookup c.ip).getD 0 < d.window := fun hlt => hdec.mp hlt hall
    simp only [if_neg hgo, acceptWindow, if_pos hall, and_true]
    exact h.accept hw hc (hkept d c) (fun ip r => hgone d c ip r h.window)
  · have hstop := hdec.mpr hall
    simp only [if_pos hstop, acceptWindow, if_neg hall, and_true, Function.update_eq_self]
    exact h.reject hc

theorem shouldProcess_agrees {w : ℚ} (hw : 0 < w) : Agrees w shouldProcess := by
  apply agrees_of_seen hw (fun d c =>
    Table.keepIf (fun _ v => c.now - d.window * 10 < v) (d.seen.insert c.ip c.now))
  · exact fun _ _ => rfl
  · intro d c ip r hlook
    rw [Table.lookup_keepIf, Option.filter_eq_some_iff] at hlook
    exact hlook.1
  · intro d c ip r hwindow hins hlook
    rw [Table.lookup_keepIf, hins, Option.filter_some] at hlook
    have hcut : r ≤ c.now - d.window * 10 := by
      by_contra hlt
      simp [not_le.mp hlt] at hlook
    rw [hwindow] at hcut
    linarith

theorem shouldProcessKeepingAll_agrees {w : ℚ} (hw : 0 < w) :
    Agrees w shouldProcessKeepingAll := by
  apply agrees_of_seen hw (fun d c => d.seen.insert c.ip c.now)
  · exact fun _ _ => rfl
  · exact fun _ _ _ _ hlook => hlook
  · intro d c ip r _ hins hlook
    rw [hins] at hlook
    cases hlook

theorem agrees_simulation {w : ℚ} {should : AlertDedup → Call → AlertDedup × Bool}
    (h : Agrees w should) :
    Transducer.Simulation (machine should w) ((acceptWindow w).family Text)
      Call.event some monotoneClock w (Remembers w) where
  init := remembers_init w
  step := by
    intro clock d f c hc hrel
    obtain ⟨hrel', hout⟩ := h _ _ _ _ hc hrel
    exact ⟨hrel', congrArg some hout⟩

/-- A machine that agrees with the windows, on calls its clock allows. -/
theorem answers_eq_windows {w : ℚ} {should : AlertDedup → Call → AlertDedup × Bool}
    (h : Agrees w should) {calls : List Call} (hadm : monotoneClock.Admissible w calls) :
    ((acceptWindow w).family Text).answers (calls.map Call.event) =
      ((machine should w).answers calls).map some :=
  (agrees_simulation h).answers_eq hadm

end AlertDedup

/-! Windows and the history of a run. -/

theorem mem_window_iff (w : ℚ) (calls : List Call) (ip : Text) (r : ℚ) :
    r ∈ ((acceptWindow w).family Text).run (calls.map Call.event) ip ↔
      (⟨ip, r⟩, some true) ∈
        calls.zip (((acceptWindow w).family Text).answers (calls.map Call.event)) := by
  induction calls using List.reverseRecOn with
  | nil => exact iff_of_false List.not_mem_nil List.not_mem_nil
  | append_singleton calls c ih =>
    rw [List.map_append, List.map_singleton, Transducer.run_concat, Transducer.answers_concat,
      List.zip_append (by simp), List.mem_append, ← ih]
    simp only [Call.event, Keyed.family_step_at, List.zip_cons_cons, List.zip_nil_left,
      List.mem_singleton, Prod.mk.injEq, Option.some.injEq]
    by_cases hip : ip = c.ip
    · subst hip
      rw [Function.update_self]
      simp only [acceptWindow]
      split_ifs with hall
      · have hcall : (⟨c.ip, r⟩ : Call) = c ↔ r = c.now := by
          rw [Call.ext_iff]
          exact and_iff_right rfl
        simp [hcall, or_comm]
      · simp
    · have hcall : (⟨ip, r⟩ : Call) ≠ c := fun heq => hip (congrArg Call.ip heq)
      simp [Function.update_of_ne hip, hcall]

/-- The answers that the calls for one address received. -/
def answersFor (ip : Text) (calls : List Call) (os : List Bool) : List Bool :=
  ((calls.zip os).filter (fun p => p.1.ip = ip)).map Prod.snd

theorem answersAt_event (ip : Text) (calls : List Call) (os : List Bool) :
    Keyed.answersAt ip (calls.map Call.event) (os.map some) = answersFor ip calls os := by
  induction calls generalizing os with
  | nil => rfl
  | cons c calls ih =>
    cases os with
    | nil => rfl
    | cons o os =>
      simp only [List.map_cons, Call.event, Keyed.answersAt_at, ih, answersFor, List.zip_cons_cons]
      by_cases hip : c.ip = ip <;> simp [hip]

theorem project_event_filter (ip : Text) (calls : List Call) :
    Keyed.project ip ((calls.filter (fun c => c.ip = ip)).map Call.event) =
      Keyed.project ip (calls.map Call.event) := by
  induction calls with
  | nil => rfl
  | cons c calls ih =>
    by_cases hip : c.ip = ip
    · simp [hip, ih, Call.event]
    · simp [hip, ih, Call.event]

theorem answersFor_own {ip : Text} {calls : List Call} (hown : ∀ c ∈ calls, c.ip = ip)
    {os : List Bool} (hlen : os.length = calls.length) : answersFor ip calls os = os := by
  have hall : (calls.zip os).filter (fun p => p.1.ip = ip) = calls.zip os := by
    rw [List.filter_eq_self]
    intro p hp
    exact decide_eq_true (hown p.1 (List.of_mem_zip hp).1)
  rw [answersFor, hall, List.map_snd_zip hlen.le]

section Answers
variable {w : ℚ} {should : AlertDedup → Call → AlertDedup × Bool}

/-- A call is accepted exactly when no accepted call for its address is within the window. -/
theorem step_true_iff (h : AlertDedup.Agrees w should) {pre : List Call} {c : Call}
    (hadm : monotoneClock.Admissible w (pre ++ [c])) :
    ((AlertDedup.machine should w).step ((AlertDedup.machine should w).run pre) c).2 = true ↔
      ∀ r, (⟨c.ip, r⟩, true) ∈ pre.zip ((AlertDedup.machine should w).answers pre) →
        ¬ c.now - r < w := by
  set M := AlertDedup.machine should w
  set N := (acceptWindow w).family Text
  have hpre : N.answers (pre.map Call.event) = (M.answers pre).map some :=
    AlertDedup.answers_eq_windows h
      (monotoneClock_sublist hadm (List.sublist_append_left pre [c]))
  have hlast : (N.step (N.run (pre.map Call.event)) c.event).2 = some (M.step (M.run pre) c).2 := by
    have hall := AlertDedup.answers_eq_windows h hadm
    rw [List.map_append, List.map_singleton, Transducer.answers_concat, Transducer.answers_concat,
      List.map_append, hpre, List.map_singleton] at hall
    exact List.singleton_inj.mp (List.append_cancel_left hall)
  have hmem : ∀ r, r ∈ N.run (pre.map Call.event) c.ip ↔
      (⟨c.ip, r⟩, true) ∈ pre.zip (M.answers pre) := by
    intro r
    rw [mem_window_iff, hpre, List.zip_map_right, List.mem_map]
    constructor
    · rintro ⟨⟨c', b⟩, hb, heq⟩
      cases heq
      exact hb
    · exact fun hb => ⟨_, hb, rfl⟩
  rw [Call.event, Keyed.family_step_at, Option.some.injEq] at hlast
  simp only [← hlast, ← hmem, acceptWindow]
  split_ifs with hall
  · exact iff_of_true rfl hall
  · exact iff_of_false not_false hall

/-- Any two accepted calls for one address are at least the window apart. -/
theorem accepted_apart (h : AlertDedup.Agrees w should) {calls : List Call}
    (hadm : monotoneClock.Admissible w calls) (ip : Text) :
    ((calls.zip ((AlertDedup.machine should w).answers calls)).filter
      (fun p => p.1.ip = ip && p.2)).Pairwise (fun a b => w ≤ b.1.now - a.1.now) := by
  induction calls using List.reverseRecOn with
  | nil => exact List.Pairwise.nil
  | append_singleton pre c ih =>
    have hiff := step_true_iff h hadm
    have hrest := ih (monotoneClock_sublist hadm (List.sublist_append_left pre [c]))
    rw [Transducer.answers_concat, List.zip_append (by simp), List.filter_append,
      List.pairwise_append]
    refine ⟨hrest, ?_, ?_⟩
    · exact (List.pairwise_singleton _ _).sublist List.filter_sublist
    · rintro ⟨a, o⟩ ha ⟨b, o'⟩ hb
      simp only [List.mem_filter, Bool.and_eq_true, decide_eq_true_eq] at ha
      simp only [List.zip_cons_cons, List.zip_nil_left, List.mem_filter, List.mem_singleton,
        Prod.mk.injEq, Bool.and_eq_true, decide_eq_true_eq] at hb
      obtain ⟨hmem, hip, rfl⟩ := ha
      obtain ⟨⟨rfl, rfl⟩, hip', hacc⟩ := hb
      have ha' : (⟨b.ip, a.now⟩ : Call) = a := by rw [hip', ← hip]
      exact not_lt.mp (hiff.mp hacc a.now (ha'.symm ▸ hmem))

/-- The answers for one address are those of a run on its own calls alone. -/
theorem answersFor_eq_own (h : AlertDedup.Agrees w should) {calls : List Call}
    (hadm : monotoneClock.Admissible w calls) (ip : Text) :
    answersFor ip calls ((AlertDedup.machine should w).answers calls) =
      (AlertDedup.machine should w).answers (calls.filter (fun c => c.ip = ip)) := by
  set own := calls.filter (fun c => c.ip = ip)
  have hown : ∀ c ∈ own, c.ip = ip := fun c hc => of_decide_eq_true (List.mem_filter.mp hc).2
  have hproject : ∀ cs, monotoneClock.Admissible w cs →
      answersFor ip cs ((AlertDedup.machine should w).answers cs) =
        ((acceptWindow w).machine.answers (Keyed.project ip (cs.map Call.event))).reduceOption := by
    intro cs hcs
    rw [← answersAt_event, ← AlertDedup.answers_eq_windows h hcs]
    exact Keyed.family_outputs _ ip _ _
  calc answersFor ip calls ((AlertDedup.machine should w).answers calls)
      = ((acceptWindow w).machine.answers
          (Keyed.project ip (calls.map Call.event))).reduceOption := hproject calls hadm
    _ = answersFor ip own ((AlertDedup.machine should w).answers own) := by
        rw [hproject own (monotoneClock_sublist hadm List.filter_sublist), project_event_filter]
    _ = (AlertDedup.machine should w).answers own := answersFor_own hown (by simp)

end Answers

/-- `should_process` on a monotone clock that reads at least one window: a call
returns True exactly when no earlier True for its address is within the window,
so the accepted ones are a window apart, other addresses have no influence and the
pruning changes no answer. -/
theorem shouldProcess_spec {w : ℚ} (hw : 0 < w) {calls : List Call}
    (hmono : calls.Pairwise (fun a b => a.now ≤ b.now)) (hge : ∀ c ∈ calls, w ≤ c.now) :
    (∀ pre c post, calls = pre ++ c :: post →
      (((AlertDedup.machine AlertDedup.shouldProcess w).answers calls)[pre.length]? = some true ↔
        ∀ r, (⟨c.ip, r⟩, true) ∈
          pre.zip ((AlertDedup.machine AlertDedup.shouldProcess w).answers pre) →
            ¬ c.now - r < w)) ∧
    (∀ ip, ((calls.zip ((AlertDedup.machine AlertDedup.shouldProcess w).answers calls)).filter
      (fun p => p.1.ip = ip && p.2)).Pairwise (fun a b => w ≤ b.1.now - a.1.now)) ∧
    (∀ ip, answersFor ip calls ((AlertDedup.machine AlertDedup.shouldProcess w).answers calls) =
      (AlertDedup.machine AlertDedup.shouldProcess w).answers
        (calls.filter (fun c => c.ip = ip))) ∧
    (AlertDedup.machine AlertDedup.shouldProcess w).answers calls =
      (AlertDedup.machine AlertDedup.shouldProcessKeepingAll w).answers calls := by
  have hadm : monotoneClock.Admissible w calls := monotoneClock_admissible_iff.mpr ⟨hmono, hge⟩
  have hagree := AlertDedup.shouldProcess_agrees hw
  refine ⟨?_, accepted_apart hagree hadm, answersFor_eq_own hagree hadm, ?_⟩
  · rintro pre c post rfl
    have hpre : (pre ++ [c]).Sublist (pre ++ c :: post) := by simp
    rw [Transducer.answers_getElem?, Option.some.injEq]
    exact step_true_iff hagree (monotoneClock_sublist hadm hpre)
  · have hsome := (AlertDedup.answers_eq_windows hagree hadm).symm.trans
      (AlertDedup.answers_eq_windows (AlertDedup.shouldProcessKeepingAll_agrees hw) hadm)
    exact List.map_injective_iff.mpr (Option.some_injective _) hsome

/-- Two addresses, a suppressed call and a call after the window has passed. -/
theorem shouldProcess_spec_sample :
    (AlertDedup.machine AlertDedup.shouldProcessKeepingAll 60).answers
      [⟨['a'], 100⟩, ⟨['b'], 120⟩, ⟨['a'], 130⟩, ⟨['a'], 170⟩] = [true, true, false, true] := by
  have h := @shouldProcess_spec 60 (by norm_num)
    [⟨['a'], 100⟩, ⟨['b'], 120⟩, ⟨['a'], 130⟩, ⟨['a'], 170⟩] (by decide) (by decide)
  rw [← h.2.2.2]
  decide +kernel

end Aegis.Soc
