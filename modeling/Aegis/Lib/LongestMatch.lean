import Mathlib.Data.List.Infix
import Mathlib.Data.Nat.Find

/-! Cutting a list into accepted pieces, each the longest that is accepted where it
stands. What is accepted may differ between the first piece and the others. -/
namespace LongestMatch

variable {α : Type*}

/-- The greedy cut of a list; the flag tells whether the first piece is yet to come. -/
inductive Cut (accepts : Bool → List α → Prop) : Bool → List α → List (List α) → Prop where
  | nil (first : Bool) : Cut accepts first [] []
  | cons {first : Bool} {piece rest : List α} {pieces : List (List α)} (hne : piece ≠ [])
      (haccepts : accepts first piece)
      (hlongest : ∀ more, more ≠ [] → more <+: rest → ¬ accepts first (piece ++ more))
      (hrest : Cut accepts false rest pieces) : Cut accepts first (piece ++ rest) (piece :: pieces)

variable {accepts : Bool → List α → Prop} {first : Bool} {s : List α} {pieces : List (List α)}

theorem Cut.flatten (h : Cut accepts first s pieces) : pieces.flatten = s := by
  induction h with
  | nil => rfl
  | cons hne haccepts hlongest hrest ih => rw [List.flatten_cons, ih]

theorem Cut.length_le (h : Cut accepts first s pieces) : pieces.length ≤ s.length := by
  induction h with
  | nil => exact le_rfl
  | cons hne haccepts hlongest hrest ih =>
    have hpos := List.length_pos_of_ne_nil hne
    rw [List.length_cons, List.length_append]
    omega

/-- Of two longest pieces of one list neither goes on after the other. -/
theorem longest_unique {p q r t : List α} (happ : p ++ r = q ++ t) (hp : accepts first p)
    (hq : accepts first q)
    (hpmax : ∀ more, more ≠ [] → more <+: r → ¬ accepts first (p ++ more))
    (hqmax : ∀ more, more ≠ [] → more <+: t → ¬ accepts first (q ++ more)) : p = q := by
  rcases List.append_eq_append_iff.mp happ with ⟨more, hq', hr⟩ | ⟨more, hp', ht⟩
  · by_contra hne
    have hmore : more ≠ [] := by
      rintro rfl
      exact hne (by rw [hq', List.append_nil])
    exact hpmax more hmore (hr ▸ List.prefix_append _ _) (hq' ▸ hq)
  · by_contra hne
    have hmore : more ≠ [] := by
      rintro rfl
      exact hne (by rw [hp', List.append_nil])
    exact hqmax more hmore (ht ▸ List.prefix_append _ _) (hp' ▸ hp)

/-- A list whose longest accepted beginning is known. -/
theorem cut_append_iff {piece rest : List α} (hne : piece ≠ []) (haccepts : accepts first piece)
    (hlongest : ∀ more, more ≠ [] → more <+: rest → ¬ accepts first (piece ++ more)) :
    Cut accepts first (piece ++ rest) pieces ↔
      ∃ later, pieces = piece :: later ∧ Cut accepts false rest later := by
  constructor
  · intro h
    generalize hs : piece ++ rest = s at h
    cases h with
    | nil => exact absurd (List.append_eq_nil_iff.mp hs).1 hne
    | @cons _ other rest' later hne' haccepts' hlongest' hrest' =>
      have hpiece : piece = other := longest_unique hs haccepts haccepts' hlongest hlongest'
      subst hpiece
      rw [List.append_cancel_left hs]
      exact ⟨later, rfl, hrest'⟩
  · intro h
    obtain ⟨later, rfl, hrest⟩ := h
    exact .cons hne haccepts hlongest hrest

/-- A list no beginning of which is accepted. -/
theorem not_cut (hs : s ≠ []) (hnone : ∀ piece, piece ≠ [] → piece <+: s → ¬ accepts first piece) :
    ¬ Cut accepts first s pieces := by
  intro h
  cases h with
  | nil => exact hs rfl
  | cons hne haccepts hlongest hrest => exact hnone _ hne (List.prefix_append _ _) haccepts

theorem Cut.unique {others : List (List α)} (h : Cut accepts first s pieces)
    (h' : Cut accepts first s others) : pieces = others := by
  induction h generalizing others with
  | nil first =>
    generalize hs : ([] : List α) = s at h'
    cases h' with
    | nil => rfl
    | cons hne => exact absurd (List.append_eq_nil_iff.mp hs.symm).1 hne
  | cons hne haccepts hlongest hrest ih =>
    obtain ⟨later, rfl, hlater⟩ := (cut_append_iff hne haccepts hlongest).mp h'
    rw [ih hlater]

/-- If single elements are accepted everywhere, there is a cut. -/
theorem exists_cut (h : ∀ x ∈ s, ∀ first, accepts first [x]) (first : Bool) :
    ∃ pieces, Cut accepts first s pieces := by
  classical
  induction hlen : s.length using Nat.strong_induction_on generalizing s first with
  | _ n ih =>
    cases s with
    | nil => exact ⟨[], .nil first⟩
    | cons x s =>
      let longest := Nat.findGreatest (fun k => accepts first ((x :: s).take k)) n
      have hone : accepts first ((x :: s).take 1) := h x List.mem_cons_self first
      have hpos : 1 ≤ longest := Nat.le_findGreatest (by rw [← hlen]; simp) hone
      have hle : longest ≤ n := Nat.findGreatest_le n
      have haccepts : accepts first ((x :: s).take longest) :=
        Nat.findGreatest_spec (P := fun k => accepts first ((x :: s).take k)) (by rw [← hlen]; simp) hone
      have hshort : ((x :: s).drop longest).length < n := by
        rw [List.length_drop, hlen]
        omega
      obtain ⟨pieces, hpieces⟩ := ih _ hshort
        (fun y hy => h y (List.mem_of_mem_drop hy)) false rfl
      have hne : (x :: s).take longest ≠ [] := by
        intro hnil
        rw [List.take_eq_nil_iff] at hnil
        rcases hnil with hzero | hempty
        · omega
        · cases hempty
      have hlongest : ∀ more, more ≠ [] → more <+: (x :: s).drop longest →
          ¬ accepts first ((x :: s).take longest ++ more) := by
        intro more hmore hprefix hmore'
        obtain ⟨after, hafter⟩ := hprefix
        have htake : (x :: s).take longest ++ more = (x :: s).take (longest + more.length) := by
          rw [List.take_add, ← hafter, List.take_left]
        have hmorelen := List.length_pos_of_ne_nil hmore
        have hbound : longest + more.length ≤ n := by
          have hlens := congrArg List.length hafter
          rw [List.length_append, List.length_drop, hlen] at hlens
          omega
        rw [htake] at hmore'
        have hgreatest := Nat.findGreatest_is_greatest
          (P := fun k => accepts first ((x :: s).take k)) (by show longest < _; omega) hbound
        exact hgreatest hmore'
      have hcut := Cut.cons hne haccepts hlongest hpieces
      rw [List.take_append_drop] at hcut
      exact ⟨_, hcut⟩

end LongestMatch
