import Mathlib.Data.Fintype.Card
import Mathlib.Logic.Function.Basic

/-! Data behind a mutex with one condition variable. A thread gives to the data and
notifies, or waits until it can take from the data. A step is a lock, wait, notify or
unlock of one thread; what the thread does to the data while it holds the mutex is
seen by nobody else and belongs to the step that follows. -/

structure Monitor (σ ι ο : Type*) where
  init : σ
  give : σ → ι → σ
  take : σ → Option (ο × σ)

namespace Monitor

/-- Where a thread stands. `giving`, `leaving` and `checking` hold the mutex. The flag
says that the thread was woken by a notification and has not looked at the data since. -/
inductive Phase (ι : Type*) where
  | outside
  | giving (i : ι)
  | leaving
  | checking (notified : Bool)
  | asleep
  | woken (notified : Bool)

namespace Phase
variable {ι : Type*}

def Holds : Phase ι → Prop
  | giving _ | leaving | checking _ => True
  | _ => False

def Notified : Phase ι → Prop
  | checking n | woken n => n = true
  | _ => False

instance : DecidablePred (Notified (ι := ι))
  | outside | giving _ | leaving | asleep => isFalse id
  | checking n | woken n => inferInstanceAs (Decidable (n = true))

end Phase

/-- The threads, the owner of the mutex, the data, and what was given and taken so far. -/
structure Config (κ σ ι ο : Type*) where
  phase : κ → Phase ι
  owner : Option κ
  data : σ
  given : List ι
  taken : List ο

variable {κ σ ι ο : Type*} [DecidableEq κ] (M : Monitor σ ι ο)

def start : Config κ σ ι ο := ⟨fun _ => .outside, none, M.init, [], []⟩

open Function in
inductive Step (s : Config κ σ ι ο) : Config κ σ ι ο → Prop
  | lockGive (t : κ) (i : ι) (ht : s.phase t = .outside) (hfree : s.owner = none) :
      Step s { s with phase := update s.phase t (.giving i), owner := some t }
  | lockTake (t : κ) (ht : s.phase t = .outside) (hfree : s.owner = none) :
      Step s { s with phase := update s.phase t (.checking false), owner := some t }
  | notifyOne (t u : κ) (i : ι) (ht : s.phase t = .giving i) (hu : s.phase u = .asleep) :
      Step s { s with
        phase := update (update s.phase t .leaving) u (.woken true)
        data := M.give s.data i, given := s.given ++ [i] }
  | notifyNobody (t : κ) (i : ι) (ht : s.phase t = .giving i) (hnone : ∀ u, s.phase u ≠ .asleep) :
      Step s { s with
        phase := update s.phase t .leaving, data := M.give s.data i, given := s.given ++ [i] }
  | unlock (t : κ) (ht : s.phase t = .leaving) :
      Step s { s with phase := update s.phase t .outside, owner := none }
  | wait (t : κ) (n : Bool) (ht : s.phase t = .checking n) (hempty : M.take s.data = none) :
      Step s { s with phase := update s.phase t .asleep, owner := none }
  | unlockTaken (t : κ) (n : Bool) (o : ο) (d : σ) (ht : s.phase t = .checking n)
      (htake : M.take s.data = some (o, d)) :
      Step s { s with
        phase := update s.phase t .outside, owner := none, data := d, taken := s.taken ++ [o] }
  | spurious (t : κ) (ht : s.phase t = .asleep) :
      Step s { s with phase := update s.phase t (.woken false) }
  | relock (t : κ) (n : Bool) (ht : s.phase t = .woken n) (hfree : s.owner = none) :
      Step s { s with phase := update s.phase t (.checking n), owner := some t }

inductive Reachable : Config κ σ ι ο → Prop
  | start : Reachable M.start
  | step {s s' : Config κ σ ι ο} (hs : Reachable s) (h : Step M s s') : Reachable s'

variable {M}

omit [DecidableEq κ] in
private theorem ne_of_asleep_of_giving {f : κ → Phase ι} {t u : κ} {i : ι} (hu : f u = .asleep)
    (ht : f t = .giving i) : u ≠ t := by
  rintro rfl
  rw [ht] at hu
  cases hu

/-- What every step preserves holds in every reachable configuration. -/
theorem Reachable.invariant {P : Config κ σ ι ο → Prop} (hstart : P M.start)
    (hstep : ∀ s s', P s → Step M s s' → P s') {s : Config κ σ ι ο} (hs : Reachable M s) : P s := by
  induction hs with
  | start => exact hstart
  | step _ h ih => exact hstep _ _ ih h

/-- What the two operations preserve holds of the data and its history. -/
theorem Reachable.history {P : σ → List ι → List ο → Prop} (hinit : P M.init [] [])
    (hgive : ∀ d gs os i, P d gs os → P (M.give d i) (gs ++ [i]) os)
    (htake : ∀ d d' gs os o, P d gs os → M.take d = some (o, d') → P d' gs (os ++ [o]))
    {s : Config κ σ ι ο} (hs : Reachable M s) : P s.data s.given s.taken := by
  refine hs.invariant (P := fun s => P s.data s.given s.taken) hinit ?_
  intro s s' hP h
  cases h with
  | notifyOne t u i => exact hgive _ _ _ i hP
  | notifyNobody t i => exact hgive _ _ _ i hP
  | unlockTaken t n o d _ htaken => exact htake _ _ _ _ o hP htaken
  | _ => exact hP

/-! Mutual exclusion. -/

/-- The owner of the mutex is the one thread whose phase holds it. -/
def OwnerHolds (s : Config κ σ ι ο) : Prop := ∀ t, (s.phase t).Holds ↔ s.owner = some t

private theorem ownerHolds_acquire {s : Config κ σ ι ο} (h : OwnerHolds s) (hfree : s.owner = none)
    (t : κ) {p : Phase ι} (hp : p.Holds) (v : κ) :
    (Function.update s.phase t p v).Holds ↔ some t = some v := by
  by_cases hv : v = t
  · subst hv
    rw [Function.update_self]
    exact iff_of_true hp rfl
  · rw [Function.update_of_ne hv, h v, hfree]
    exact iff_of_false (by simp) (fun he => hv (Option.some.inj he).symm)

private theorem ownerHolds_release {s : Config κ σ ι ο} (h : OwnerHolds s) {t : κ}
    (ht : (s.phase t).Holds) {p : Phase ι} (hp : ¬ p.Holds) (v : κ) :
    (Function.update s.phase t p v).Holds ↔ none = some v := by
  by_cases hv : v = t
  · subst hv
    rw [Function.update_self]
    exact iff_of_false hp (by simp)
  · rw [Function.update_of_ne hv, h v, (h t).mp ht]
    exact iff_of_false (fun he => hv (Option.some.inj he).symm) (by simp)

private theorem ownerHolds_stay {f : κ → Phase ι} {o : Option κ} (h : ∀ v, (f v).Holds ↔ o = some v)
    {t : κ} {p : Phase ι} (hp : p.Holds ↔ (f t).Holds) (v : κ) :
    (Function.update f t p v).Holds ↔ o = some v := by
  by_cases hv : v = t
  · subst hv
    rw [Function.update_self, hp, h v]
  · rw [Function.update_of_ne hv, h v]

theorem Reachable.ownerHolds {s : Config κ σ ι ο} (hs : Reachable M s) : OwnerHolds s := by
  refine hs.invariant (fun t => iff_of_false id (Option.some_ne_none t).symm) ?_
  intro s s' hP h
  cases h with
  | lockGive t i _ hfree => exact ownerHolds_acquire hP hfree t trivial
  | lockTake t _ hfree => exact ownerHolds_acquire hP hfree t trivial
  | relock t n _ hfree => exact ownerHolds_acquire hP hfree t trivial
  | unlock t ht => exact ownerHolds_release hP (by rw [ht]; trivial) id
  | wait t n ht => exact ownerHolds_release hP (by rw [ht]; trivial) id
  | unlockTaken t n o d ht => exact ownerHolds_release hP (by rw [ht]; trivial) id
  | spurious t ht =>
    have hsame : (Phase.woken false : Phase ι).Holds ↔ (s.phase t).Holds := by rw [ht]; exact Iff.rfl
    exact ownerHolds_stay hP hsame
  | notifyNobody t i ht =>
    have hsame : (Phase.leaving : Phase ι).Holds ↔ (s.phase t).Holds := by rw [ht]; exact Iff.rfl
    exact ownerHolds_stay hP hsame
  | notifyOne t u i ht hu =>
    have hsame : (Phase.leaving : Phase ι).Holds ↔ (s.phase t).Holds := by rw [ht]; exact Iff.rfl
    have hwoken : (Phase.woken true : Phase ι).Holds ↔
        (Function.update s.phase t .leaving u).Holds := by
      rw [Function.update_of_ne (ne_of_asleep_of_giving hu ht), hu]
      exact Iff.rfl
    exact ownerHolds_stay (ownerHolds_stay hP hsame) hwoken

/-- No two threads hold the mutex at once. -/
theorem Reachable.exclusive {s : Config κ σ ι ο} (hs : Reachable M s) {t u : κ}
    (ht : (s.phase t).Holds) (hu : (s.phase u).Holds) : t = u :=
  Option.some.inj (((hs.ownerHolds t).mp ht).symm.trans ((hs.ownerHolds u).mp hu))

/-- A step that changes the data is one of the thread that owns the mutex. -/
theorem Step.owner_of_data_ne {s s' : Config κ σ ι ο} (h : Step M s s') (hown : OwnerHolds s)
    (hne : s'.data ≠ s.data) : ∃ t, s.owner = some t := by
  cases h with
  | notifyOne t u i ht => exact ⟨t, (hown t).mp (by rw [ht]; trivial)⟩
  | notifyNobody t i ht => exact ⟨t, (hown t).mp (by rw [ht]; trivial)⟩
  | unlockTaken t n o d ht => exact ⟨t, (hown t).mp (by rw [ht]; trivial)⟩
  | _ => exact absurd rfl hne

/-! Lost wake-ups. -/

section Counting
variable [Fintype κ]

def notified (f : κ → Phase ι) : Finset κ := {t | (f t).Notified}

omit [DecidableEq κ] in
theorem mem_notified {f : κ → Phase ι} {t : κ} : t ∈ notified f ↔ (f t).Notified := by
  simp [notified]

theorem notified_update (f : κ → Phase ι) (t : κ) (p : Phase ι) :
    notified (Function.update f t p) =
      if p.Notified then insert t (notified f) else (notified f).erase t := by
  ext v
  rw [mem_notified]
  by_cases hv : v = t
  · subst hv
    rw [Function.update_self]
    split_ifs with hp <;> simp [hp]
  · rw [Function.update_of_ne hv]
    split_ifs with hp <;> simp [hv, mem_notified]

theorem card_notified_same {f : κ → Phase ι} {t : κ} {p : Phase ι}
    (h : p.Notified ↔ (f t).Notified) :
    (notified (Function.update f t p)).card = (notified f).card := by
  rw [notified_update]
  split_ifs with hp
  · rw [Finset.insert_eq_of_mem (mem_notified.mpr (h.mp hp))]
  · rw [Finset.erase_eq_of_notMem (fun hmem => hp (h.mpr (mem_notified.mp hmem)))]

theorem card_notified_wake {f : κ → Phase ι} {t : κ} {p : Phase ι} (hp : p.Notified)
    (ht : ¬ (f t).Notified) : (notified (Function.update f t p)).card = (notified f).card + 1 := by
  rw [notified_update, if_pos hp, Finset.card_insert_of_notMem (fun hmem => ht (mem_notified.mp hmem))]

theorem le_card_notified_clear (f : κ → Phase ι) (t : κ) {p : Phase ι} (hp : ¬ p.Notified) :
    (notified f).card ≤ (notified (Function.update f t p)).card + 1 := by
  rw [notified_update, if_neg hp]
  have herase := Finset.pred_card_le_card_erase (s := notified f) (a := t)
  omega

def SomeAsleep (f : κ → Phase ι) : Prop := ∃ t, f t = .asleep

omit [Fintype κ] in
theorem SomeAsleep.of_update {f : κ → Phase ι} {t : κ} {p : Phase ι} (hp : p ≠ .asleep)
    (h : SomeAsleep (Function.update f t p)) : SomeAsleep f := by
  obtain ⟨v, hv⟩ := h
  by_cases hvt : v = t
  · subst hvt
    rw [Function.update_self] at hv
    exact absurd hv hp
  · rw [Function.update_of_ne hvt] at hv
    exact ⟨v, hv⟩

section Size
variable (size : σ → ℕ) (hgive : ∀ d i, size (M.give d i) = size d + 1)
  (hnone : ∀ d, M.take d = none → size d = 0)
  (htake : ∀ d o d', M.take d = some (o, d') → size d = size d' + 1)
include hgive hnone htake

/-- A thread falls asleep only where there is nothing to take, and from then on every
gift wakes a sleeper, so the notified threads stay as many as the gifts while one sleeps. -/
theorem Step.size_le_notified {s s' : Config κ σ ι ο} (h : Step M s s')
    (hle : SomeAsleep s.phase → size s.data ≤ (notified s.phase).card)
    (hasleep : SomeAsleep s'.phase) : size s'.data ≤ (notified s'.phase).card := by
  cases h with
  | lockGive t i ht =>
    rw [card_notified_same (by rw [ht]; exact Iff.rfl)]
    exact hle (hasleep.of_update (by simp))
  | lockTake t ht =>
    rw [card_notified_same (by rw [ht]; exact iff_of_false Bool.noConfusion id)]
    exact hle (hasleep.of_update (by simp))
  | notifyOne t u i ht hu =>
    have hsleep : ¬ (Function.update s.phase t .leaving u).Notified := by
      rw [Function.update_of_ne (ne_of_asleep_of_giving hu ht), hu]
      exact id
    have hwake := card_notified_wake (p := .woken true) rfl hsleep
    have hleave : (notified (Function.update s.phase t .leaving)).card = (notified s.phase).card :=
      card_notified_same (by rw [ht]; exact Iff.rfl)
    have hbefore := hle ⟨u, hu⟩
    show size (M.give s.data i) ≤ _
    rw [hgive, hwake, hleave]
    omega
  | notifyNobody t i ht hnobody =>
    obtain ⟨v, hv⟩ := hasleep.of_update (by simp)
    exact absurd hv (hnobody v)
  | unlock t ht =>
    rw [card_notified_same (by rw [ht]; exact Iff.rfl)]
    exact hle (hasleep.of_update (by simp))
  | wait t n ht hempty =>
    show size s.data ≤ _
    rw [hnone _ hempty]
    exact Nat.zero_le _
  | unlockTaken t n o d ht htaken =>
    have hbefore := hle (hasleep.of_update (by simp))
    have hsize := htake _ _ _ htaken
    have hclear := le_card_notified_clear s.phase t (p := .outside) id
    show size d ≤ (notified (Function.update s.phase t .outside)).card
    omega
  | spurious t ht =>
    rw [card_notified_same (by rw [ht]; exact iff_of_false Bool.noConfusion id)]
    exact hle ⟨t, ht⟩
  | relock t n ht =>
    rw [card_notified_same (by rw [ht]; exact Iff.rfl)]
    exact hle (hasleep.of_update (by simp))

/-- While a thread sleeps, there is a notified thread for everything that can be taken. -/
theorem Reachable.size_le_notified {s : Config κ σ ι ο} (hs : Reachable M s)
    (hasleep : SomeAsleep s.phase) : size s.data ≤ (notified s.phase).card := by
  refine hs.invariant (P := fun s => SomeAsleep s.phase → size s.data ≤ (notified s.phase).card)
    ?_ ?_ hasleep
  · intro h
    obtain ⟨t, ht⟩ := h
    cases ht
  · exact fun s s' hP h => h.size_le_notified size hgive hnone htake hP

end Size

end Counting

end Monitor
