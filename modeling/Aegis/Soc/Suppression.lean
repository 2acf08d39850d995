import Aegis.Lib.Transducer
import Aegis.Soc.AlertDedup
import Mathlib.Tactic.NormNum

/-! Which suppressions the window justifies when the clock readings come in any order. -/
namespace Aegis.Soc

abbrev deduplication (w : ℚ) : Transducer AlertDedup Call Bool :=
  AlertDedup.machine AlertDedup.shouldProcess w

/-- One of the calls so far was for the address at the reading, and was accepted. -/
def AcceptedAt (w : ℚ) (pre : List Call) (ip : Text) (r : ℚ) : Prop :=
  (⟨ip, r⟩, true) ∈ pre.zip ((deduplication w).answers pre)

/-- The reading lies in the window of an accepted one. -/
def InWindow (w : ℚ) (pre : List Call) (c : Call) : Prop :=
  ∃ r, AcceptedAt w pre c.ip r ∧ 0 ≤ c.now - r ∧ c.now - r < w

/-- Every call that returns False reads a clock in the window of an accepted call. -/
def SuppressionJustified (w : ℚ) (calls : List Call) : Prop :=
  ∀ pre c post, calls = pre ++ c :: post →
    ((deduplication w).step ((deduplication w).run pre) c).2 = false → InWindow w pre c

/-- Where the readings for an address begin to be in order: at the reading in the table,
and at one window where the default stands for it. -/
def AlertDedup.since (d : AlertDedup) (ip : Text) : ℚ :=
  (d.seen.lookup ip).elim d.window fun last => min last (last + d.window)

/-- No reading lies before the one in the table for its address. -/
def ReadingsInOrder (w : ℚ) (calls : List Call) : Prop :=
  ∀ pre c post, calls = pre ++ c :: post → ((deduplication w).run pre).since c.ip ≤ c.now

theorem shouldProcess_window (d : AlertDedup) (c : Call) :
    (d.shouldProcess c).1.window = d.window := by
  unfold AlertDedup.shouldProcess
  dsimp only
  split_ifs <;> rfl

theorem window_run (w : ℚ) (calls : List Call) : ((deduplication w).run calls).window = w :=
  (deduplication w).run_preserves (P := fun d => d.window = w) rfl
    (fun d c h => (shouldProcess_window d c).trans h) calls

theorem acceptedAt_concat {w : ℚ} {pre : List Call} {c : Call} {ip : Text} {r : ℚ} :
    AcceptedAt w (pre ++ [c]) ip r ↔ AcceptedAt w pre ip r ∨
      (⟨ip, r⟩ = c ∧ ((deduplication w).step ((deduplication w).run pre) c).2 = true) := by
  unfold AcceptedAt
  rw [Transducer.answers_concat, List.zip_append (by simp), List.mem_append]
  simp only [List.zip_cons_cons, List.zip_nil_left, List.mem_singleton, Prod.mk.injEq]
  rw [eq_comm (a := true)]

/-- What a call leaves in the table was there before, or is its own reading, accepted. -/
theorem shouldProcess_lookup {d : AlertDedup} {c : Call} {ip : Text} {r : ℚ}
    (h : (d.shouldProcess c).1.seen.lookup ip = some r) :
    d.seen.lookup ip = some r ∨ (⟨ip, r⟩ = c ∧ (d.shouldProcess c).2 = true) := by
  unfold AlertDedup.shouldProcess at h ⊢
  dsimp only at h ⊢
  split_ifs at h ⊢ with hlt
  · exact Or.inl h
  · rw [Table.lookup_keepIf, Option.filter_eq_some_iff] at h
    by_cases hip : ip = c.ip
    · subst hip
      have hlook := h.1
      rw [AList.lookup_insert, Option.some.injEq] at hlook
      exact Or.inr ⟨Call.ext rfl hlook.symm, rfl⟩
    · rw [AList.lookup_insert_ne hip] at h
      exact Or.inl h.1

/-- The table holds accepted readings only, in whatever order the clock was read. -/
theorem acceptedAt_of_lookup {w : ℚ} {calls : List Call} {ip : Text} {r : ℚ}
    (h : ((deduplication w).run calls).seen.lookup ip = some r) : AcceptedAt w calls ip r := by
  induction calls using List.reverseRecOn generalizing r with
  | nil =>
    have hempty : (∅ : Table Text ℚ).lookup ip = some r := h
    simp at hempty
  | append_singleton calls c ih =>
    rw [Transducer.run_concat] at h
    rw [acceptedAt_concat]
    rcases shouldProcess_lookup h with hold | hnew
    · exact Or.inl (ih hold)
    · exact Or.inr hnew

theorem answer_eq_false_iff (w : ℚ) (pre : List Call) (c : Call) :
    ((deduplication w).step ((deduplication w).run pre) c).2 = false ↔
      c.now - (((deduplication w).run pre).seen.lookup c.ip).getD 0 < w := by
  show (AlertDedup.shouldProcess ((deduplication w).run pre) c).2 = false ↔ _
  unfold AlertDedup.shouldProcess
  dsimp only
  rw [window_run]
  by_cases hlt : c.now - (((deduplication w).run pre).seen.lookup c.ip).getD 0 < w
  · rw [if_pos hlt]
    exact iff_of_true rfl hlt
  · rw [if_neg hlt]
    exact iff_of_false (by simp) hlt

/-- A reading in order that is suppressed lies in the window of the reading in the table. -/
theorem inWindow_of_since {w : ℚ} {pre : List Call} {c : Call}
    (hsince : ((deduplication w).run pre).since c.ip ≤ c.now)
    (hanswer : ((deduplication w).step ((deduplication w).run pre) c).2 = false) :
    InWindow w pre c := by
  have hlt := (answer_eq_false_iff w pre c).mp hanswer
  unfold AlertDedup.since at hsince
  rw [window_run] at hsince
  cases hlook : ((deduplication w).run pre).seen.lookup c.ip with
  | none =>
    rw [hlook, Option.getD_none, sub_zero] at hlt
    rw [hlook, Option.elim_none] at hsince
    exact absurd hlt (not_lt.mpr hsince)
  | some last =>
    rw [hlook, Option.getD_some] at hlt
    rw [hlook, Option.elim_some, min_le_iff] at hsince
    rcases hsince with hlast | hwindow
    · exact ⟨last, acceptedAt_of_lookup hlook, by linarith, hlt⟩
    · exact absurd hlt (by linarith)

/-- A reading out of order is suppressed, and not by the window of the one in the table. -/
theorem suppressed_of_lt_since {w : ℚ} {pre : List Call} {c : Call}
    (h : c.now < ((deduplication w).run pre).since c.ip) :
    ((deduplication w).step ((deduplication w).run pre) c).2 = false ∧
      ∀ last, ((deduplication w).run pre).seen.lookup c.ip = some last → c.now < last := by
  rw [answer_eq_false_iff]
  unfold AlertDedup.since at h
  rw [window_run] at h
  cases hlook : ((deduplication w).run pre).seen.lookup c.ip with
  | none =>
    rw [hlook, Option.elim_none] at h
    rw [Option.getD_none, sub_zero]
    exact ⟨h, fun _ hlast => nomatch hlast⟩
  | some last =>
    rw [hlook, Option.elim_some, lt_min_iff] at h
    rw [Option.getD_some]
    refine ⟨by linarith [h.2], fun last' hlast => ?_⟩
    rw [← Option.some.inj hlast]
    exact h.1

/-- In a run whose readings are in order every suppression is justified. -/
theorem suppressionJustified_of_inOrder {w : ℚ} {calls : List Call}
    (h : ReadingsInOrder w calls) : SuppressionJustified w calls :=
  fun pre c post hcalls hanswer => inWindow_of_since (h pre c post hcalls) hanswer

/-- The order of the readings can be checked call by call. -/
theorem readingsInOrder_iff (w : ℚ) (calls : List Call) :
    ReadingsInOrder w calls ↔ ∀ i (hi : i < calls.length),
      ((deduplication w).run (calls.take i)).since calls[i].ip ≤ calls[i].now := by
  constructor
  · intro h i hi
    apply h (calls.take i) calls[i] (calls.drop (i + 1))
    rw [← List.drop_eq_getElem_cons hi, List.take_append_drop]
  · rintro h pre c post rfl
    simpa using h pre.length (by simp)

instance (w : ℚ) (calls : List Call) : Decidable (ReadingsInOrder w calls) :=
  decidable_of_iff' _ (readingsInOrder_iff w calls)

theorem suppressionJustified_ordered :
    SuppressionJustified 60 [⟨['a'], 100⟩, ⟨['b'], 120⟩, ⟨['a'], 130⟩, ⟨['a'], 170⟩] :=
  suppressionJustified_of_inOrder (by decide +kernel)

/-- Out of order, a call may still lie in the window of a reading that the table has
replaced: 920 after 900 and 1000. -/
example : ((deduplication 60).run [⟨['a'], 900⟩, ⟨['a'], 1000⟩]).since ['a'] = 1000 ∧
    ((deduplication 60).answers [⟨['a'], 900⟩, ⟨['a'], 1000⟩, ⟨['a'], 920⟩]) =
      [true, true, false] := by decide +kernel

/-- The clock steps back by 100 seconds, and an alert is suppressed that no window covers. -/
theorem suppressed_after_step_back : ¬ SuppressionJustified 60 [⟨['a'], 1000⟩, ⟨['a'], 900⟩] := by
  intro h
  have hanswer : ((deduplication 60).step ((deduplication 60).run [⟨['a'], 1000⟩]) ⟨['a'], 900⟩).2 =
      false := by decide +kernel
  obtain ⟨r, hr, hpos, -⟩ := h [⟨['a'], 1000⟩] ⟨['a'], 900⟩ [] rfl hanswer
  unfold AcceptedAt at hr
  have hzip : ([⟨['a'], 1000⟩] : List Call).zip ((deduplication 60).answers [⟨['a'], 1000⟩]) =
      [(⟨['a'], 1000⟩, true)] := by decide +kernel
  rw [hzip, List.mem_singleton, Prod.mk.injEq, Call.mk.injEq] at hr
  rw [hr.1.2] at hpos
  norm_num at hpos

end Aegis.Soc
