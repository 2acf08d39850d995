import Mathlib.Data.List.Nodup

/-! Dictionaries built from a list of pairs in which names may repeat. What becomes of
a repeated name is a parameter; nothing is lost exactly when no name repeats. -/
namespace MultiMap

variable {κ υ : Type*} [DecidableEq κ] (merge : υ → υ → υ)

/-- `d[k] = v`, or the old and the new value merged; a new name goes to the end. -/
def insert (k : κ) (v : υ) : List (κ × υ) → List (κ × υ)
  | [] => [(k, v)]
  | (k', old) :: rest => if k' = k then (k', merge old v) :: rest else (k', old) :: insert k v rest

/-- The dictionary of the pairs, in the order in which the names first appear. -/
def dict (pairs : List (κ × υ)) : List (κ × υ) :=
  pairs.foldl (fun d e => insert merge e.1 e.2 d) []

theorem insert_of_notMem {k : κ} (v : υ) {d : List (κ × υ)} (h : k ∉ d.map Prod.fst) :
    insert merge k v d = d ++ [(k, v)] := by
  induction d with
  | nil => rfl
  | cons e d ih =>
    rw [List.map_cons, List.mem_cons, not_or] at h
    have hne : e.1 ≠ k := Ne.symm h.1
    simp only [insert, hne, if_false, ih h.2, List.cons_append]

theorem map_fst_insert_of_mem {k : κ} (v : υ) {d : List (κ × υ)} (h : k ∈ d.map Prod.fst) :
    (insert merge k v d).map Prod.fst = d.map Prod.fst := by
  induction d with
  | nil => exact absurd h List.not_mem_nil
  | cons e d ih =>
    by_cases hk : e.1 = k
    · simp [insert, hk]
    · have hrest : k ∈ d.map Prod.fst := by
        rcases List.mem_cons.mp h with heq | hmem
        · exact absurd heq.symm hk
        · exact hmem
      simp [insert, hk, ih hrest]

theorem nodup_insert (k : κ) (v : υ) {d : List (κ × υ)} (h : (d.map Prod.fst).Nodup) :
    ((insert merge k v d).map Prod.fst).Nodup := by
  by_cases hk : k ∈ d.map Prod.fst
  · rw [map_fst_insert_of_mem merge v hk]
    exact h
  · rw [insert_of_notMem merge v hk, List.map_append, List.nodup_append]
    refine ⟨h, List.nodup_singleton k, ?_⟩
    intro a ha b hb hab
    rw [hab, List.mem_singleton.mp hb] at ha
    exact hk ha

theorem nodup_foldl (pairs : List (κ × υ)) {d : List (κ × υ)} (h : (d.map Prod.fst).Nodup) :
    ((pairs.foldl (fun d e => insert merge e.1 e.2 d) d).map Prod.fst).Nodup := by
  induction pairs generalizing d with
  | nil => exact h
  | cons e pairs ih => exact ih (nodup_insert merge e.1 e.2 h)

theorem foldl_of_nodup (pairs : List (κ × υ)) {d : List (κ × υ)}
    (h : ((d ++ pairs).map Prod.fst).Nodup) :
    pairs.foldl (fun d e => insert merge e.1 e.2 d) d = d ++ pairs := by
  induction pairs generalizing d with
  | nil => rw [List.foldl_nil, List.append_nil]
  | cons e pairs ih =>
    have hsplit : d ++ e :: pairs = (d ++ [e]) ++ pairs := by simp
    have hnew : e.1 ∉ d.map Prod.fst := by
      rw [List.map_append, List.map_cons] at h
      have hdisjoint := List.disjoint_of_nodup_append h
      exact fun hmem => hdisjoint hmem List.mem_cons_self
    rw [List.foldl_cons, insert_of_notMem merge e.2 hnew, hsplit]
    apply ih
    rwa [← hsplit]

/-- A dictionary is the list it was built from exactly if no name repeats. -/
theorem dict_eq_self_iff (pairs : List (κ × υ)) :
    dict merge pairs = pairs ↔ (pairs.map Prod.fst).Nodup := by
  constructor
  · intro h
    rw [← h]
    exact nodup_foldl merge pairs List.nodup_nil
  · intro h
    exact foldl_of_nodup merge pairs h

/-- Leaving out some names commutes with building the dictionary. -/
theorem filter_dict (keep : κ → Bool) (pairs : List (κ × υ)) :
    (dict merge pairs).filter (fun e => keep e.1) =
      dict merge (pairs.filter (fun e => keep e.1)) := by
  have hinsert : ∀ (k : κ) (v : υ) (d : List (κ × υ)),
      (insert merge k v d).filter (fun e => keep e.1) =
        if keep k then insert merge k v (d.filter (fun e => keep e.1))
        else d.filter (fun e => keep e.1) := by
    intro k v d
    induction d with
    | nil => cases hk : keep k <;> simp [insert, hk]
    | cons e d ih =>
      by_cases heq : e.1 = k
      · subst heq
        cases hk : keep e.1 <;> simp [insert, hk]
      · cases hk : keep k <;> cases he : keep e.1 <;> simp [insert, heq, he, ih, hk]
  have hfold : ∀ d : List (κ × υ),
      (pairs.foldl (fun d e => insert merge e.1 e.2 d) d).filter (fun e => keep e.1) =
        (pairs.filter (fun e => keep e.1)).foldl (fun d e => insert merge e.1 e.2 d)
          (d.filter (fun e => keep e.1)) := by
    induction pairs with
    | nil => exact fun d => rfl
    | cons e pairs ih =>
      intro d
      rw [List.foldl_cons, ih, hinsert]
      cases he : keep e.1 <;> simp [he]
  exact hfold []

end MultiMap
