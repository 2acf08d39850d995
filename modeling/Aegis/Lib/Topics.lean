import Aegis.Lib.Table

/-! Members under topics, each once; a topic that has lost its last member is not kept. -/

structure Topics (τ σ : Type*) [DecidableEq τ] where
  table : Table τ (List σ)
  kept : ∀ topic members, table.lookup topic = some members → members ≠ [] ∧ members.Nodup

namespace Topics
variable {τ σ : Type*} [DecidableEq τ]

def empty : Topics τ σ := ⟨∅, fun topic _ h => by rw [AList.lookup_empty] at h; cases h⟩

def members (t : Topics τ σ) (topic : τ) : List σ := (t.table.lookup topic).getD []

theorem nodup_members (t : Topics τ σ) (topic : τ) : (t.members topic).Nodup := by
  unfold members
  cases h : t.table.lookup topic with
  | none => exact List.nodup_nil
  | some xs => exact (t.kept topic xs h).2

def setMembers (t : Topics τ σ) (topic : τ) (xs : List σ) (h : xs.Nodup) : Topics τ σ where
  table := if xs = [] then t.table.erase topic else t.table.insert topic xs
  kept topic' ys hys := by
    split_ifs at hys with hxs
    · by_cases heq : topic' = topic
      · rw [heq, AList.lookup_erase] at hys
        cases hys
      · rw [AList.lookup_erase_ne heq] at hys
        exact t.kept topic' ys hys
    · by_cases heq : topic' = topic
      · rw [heq, AList.lookup_insert] at hys
        rw [← Option.some.inj hys]
        exact ⟨hxs, h⟩
      · rw [AList.lookup_insert_ne heq] at hys
        exact t.kept topic' ys hys

theorem members_setMembers (t : Topics τ σ) (topic topic' : τ) {xs : List σ} (h : xs.Nodup) :
    (t.setMembers topic xs h).members topic' = if topic' = topic then xs else t.members topic' := by
  unfold members setMembers
  dsimp only
  by_cases hxs : xs = [] <;> by_cases heq : topic' = topic
  · rw [if_pos hxs, if_pos heq, heq, AList.lookup_erase, hxs]
    rfl
  · rw [if_pos hxs, if_neg heq, AList.lookup_erase_ne heq]
  · rw [if_neg hxs, if_pos heq, heq, AList.lookup_insert]
    rfl
  · rw [if_neg hxs, if_neg heq, AList.lookup_insert_ne heq]

variable [DecidableEq σ]

def add (t : Topics τ σ) (topic : τ) (x : σ) : Topics τ σ :=
  t.setMembers topic ((t.members topic).insert x) ((t.nodup_members topic).insert)

def remove (t : Topics τ σ) (topic : τ) (x : σ) : Topics τ σ :=
  t.setMembers topic ((t.members topic).erase x) ((t.nodup_members topic).erase x)

/-- Take a member out of every topic. -/
def removeAll (t : Topics τ σ) (x : σ) : Topics τ σ :=
  t.table.keys.foldl (fun t topic => t.remove topic x) t

theorem mem_add {t : Topics τ σ} {topic topic' : τ} {x y : σ} :
    y ∈ (t.add topic x).members topic' ↔ (topic' = topic ∧ y = x) ∨ y ∈ t.members topic' := by
  unfold add
  rw [members_setMembers]
  by_cases heq : topic' = topic
  · rw [if_pos heq, List.mem_insert_iff, heq]
    simp only [true_and]
  · rw [if_neg heq]
    simp only [heq, false_and, false_or]

theorem mem_remove {t : Topics τ σ} {topic topic' : τ} {x y : σ} :
    y ∈ (t.remove topic x).members topic' ↔ y ∈ t.members topic' ∧ ¬ (topic' = topic ∧ y = x) := by
  unfold remove
  rw [members_setMembers]
  by_cases heq : topic' = topic
  · rw [if_pos heq, (t.nodup_members topic).mem_erase_iff, heq, and_comm]
    simp only [true_and, ne_eq]
  · rw [if_neg heq]
    simp only [heq, false_and, not_false_iff, and_true]

/-- Taken out of the given topics. -/
theorem mem_foldl_remove {topics : List τ} {t : Topics τ σ} {topic : τ} {x y : σ} :
    y ∈ (topics.foldl (fun t topic => t.remove topic x) t).members topic ↔
      y ∈ t.members topic ∧ ¬ (topic ∈ topics ∧ y = x) := by
  induction topics generalizing t with
  | nil => simp only [List.foldl_nil, List.not_mem_nil, false_and, not_false_iff, and_true]
  | cons first topics ih =>
    rw [List.foldl_cons, ih, mem_remove, List.mem_cons, or_and_right, not_or, and_assoc]

theorem mem_removeAll {t : Topics τ σ} {topic : τ} {x y : σ} :
    y ∈ (t.removeAll x).members topic ↔ y ∈ t.members topic ∧ y ≠ x := by
  unfold removeAll
  rw [mem_foldl_remove]
  refine and_congr_right fun hy => not_congr (and_iff_right ?_)
  rw [← AList.mem_keys, ← AList.lookup_isSome]
  unfold members at hy
  cases h : t.table.lookup topic with
  | none =>
    rw [h] at hy
    cases hy
  | some xs => rfl

/-- What each of some members gets, as one of them sees it. -/
theorem filterMap_eq_of_nodup {μ : Type*} {xs : List σ} (h : xs.Nodup) (x : σ) (m : μ) :
    xs.filterMap (fun y => if x = y then some m else none) = if x ∈ xs then [m] else [] := by
  induction xs with
  | nil => rfl
  | cons y xs ih =>
    obtain ⟨hy, hxs⟩ := List.nodup_cons.mp h
    rw [List.filterMap_cons, ih hxs]
    by_cases hx : x = y
    · rw [if_pos hx, if_neg (hx ▸ hy), if_pos (List.mem_cons.mpr (Or.inl hx))]
    · rw [if_neg hx]
      simp only [List.mem_cons, hx, false_or]

end Topics
