import Mathlib.Data.List.AList

/-! Finite tables with one value for each key, and the two ways of removing many
entries at once: erasing while iterating, and rebuilding with a filter. -/

/-- A finite map; the order of its entries is the iteration order. -/
abbrev Table (κ υ : Type*) := AList (fun _ : κ => υ)

namespace Table

variable {κ υ : Type*} [DecidableEq κ]

/-- Iterate over the given entries and erase those with the property. -/
def eraseFrom (p : κ → υ → Bool) : List (Sigma fun _ : κ => υ) → Table κ υ → Table κ υ
  | [], m => m
  | ⟨k, v⟩ :: rest, m => eraseFrom p rest (if p k v then m.erase k else m)

/-- Iterate over a table and erase the entries with the property on the way. -/
def eraseIf (p : κ → υ → Bool) (m : Table κ υ) : Table κ υ := eraseFrom p m.entries m

omit [DecidableEq κ] in
/-- The comprehension `{k: v for k, v in m.items() if p(k, v)}`. -/
def keepIf (p : κ → υ → Bool) (m : Table κ υ) : Table κ υ :=
  ⟨m.entries.filter (fun e => p e.1 e.2),
    m.nodupKeys.sublist List.filter_sublist⟩

theorem lookup_eraseFrom (p : κ → υ → Bool) (es : List (Sigma fun _ : κ => υ)) (m : Table κ υ)
    (k : κ) : (eraseFrom p es m).lookup k =
      if es.any (fun e => e.1 = k && p e.1 e.2) then none else m.lookup k := by
  induction es generalizing m with
  | nil => rfl
  | cons e es ih =>
    obtain ⟨k', v⟩ := e
    rw [eraseFrom, ih, List.any_cons]
    by_cases hp : p k' v
    · by_cases hk : k' = k
      · subst hk
        simp [hp]
      · rw [if_pos hp, AList.lookup_erase_ne (Ne.symm hk)]
        rw [decide_eq_false hk, Bool.false_and, Bool.false_or]
    · rw [if_neg hp, (Bool.not_eq_true _).mp hp, Bool.and_false, Bool.false_or]

omit [DecidableEq κ] in
theorem mem_entries_iff [DecidableEq κ] (m : Table κ υ) (k : κ) (v : υ) :
    (⟨k, v⟩ : Sigma fun _ : κ => υ) ∈ m.entries ↔ m.lookup k = some v :=
  (List.mem_dlookup_iff m.nodupKeys).symm

theorem lookup_eraseIf (p : κ → υ → Bool) (m : Table κ υ) (k : κ) :
    (eraseIf p m).lookup k = (m.lookup k).filter (fun v => !p k v) := by
  rw [eraseIf, lookup_eraseFrom]
  cases hm : m.lookup k with
  | none => simp
  | some v =>
    have hany : m.entries.any (fun e => e.1 = k && p e.1 e.2) = p k v := by
      rw [Bool.eq_iff_iff, List.any_eq_true]
      constructor
      · rintro ⟨⟨k', v'⟩, he, hp⟩
        simp only [Bool.and_eq_true, decide_eq_true_eq] at hp
        obtain ⟨rfl, hp⟩ := hp
        have hv := (mem_entries_iff m k' v').mp he
        rw [hm] at hv
        cases hv
        exact hp
      · exact fun hp => ⟨⟨k, v⟩, (mem_entries_iff m k v).mpr hm, by simp [hp]⟩
    rw [hany, Option.filter_some]
    cases p k v <;> rfl

theorem lookup_keepIf (p : κ → υ → Bool) (m : Table κ υ) (k : κ) :
    (keepIf p m).lookup k = (m.lookup k).filter (p k) := by
  ext v
  rw [← mem_entries_iff, keepIf, List.mem_filter, mem_entries_iff, Option.filter_eq_some_iff]

end Table
