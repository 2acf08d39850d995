import Mathlib.Data.List.Infix

/-! A sequence cut into pieces: greedy grouping up to a length, and where a pattern can
lie in the whole. -/
namespace Pieces

variable {α : Type*}

/-- Pieces are added to a group until it has the given length; then a new group begins.
A last group that stays short is not listed. -/
def groups (size : ℕ) : List (List α) → List (List α) → List (List (List α))
  | _, [] => []
  | group, piece :: rest =>
    if size ≤ (group ++ [piece]).flatten.length then (group ++ [piece]) :: groups size [] rest
    else groups size (group ++ [piece]) rest

theorem mem_of_mem_groups {size : ℕ} {group pieces g : List (List α)}
    (hg : g ∈ groups size group pieces) {piece : List α} (h : piece ∈ g) :
    piece ∈ group ++ pieces := by
  induction pieces generalizing group with
  | nil => exact absurd hg List.not_mem_nil
  | cons p rest ih =>
    have hassoc : group ++ p :: rest = (group ++ [p]) ++ rest := by simp
    rw [groups] at hg
    split_ifs at hg
    · rcases List.mem_cons.mp hg with heq | hrest
      · rw [heq] at h
        rw [hassoc]
        exact List.mem_append_left _ h
      · have hmem := ih hrest
        rw [List.nil_append] at hmem
        exact List.mem_append_right _ (List.mem_cons_of_mem _ hmem)
    · rw [hassoc]
      exact ih hg

/-- The pattern lies inside a piece, or inside two pieces that follow each other. -/
def Within (pattern : List α) (pieces : List (List α)) : Prop :=
  (∃ piece ∈ pieces, pattern <:+: piece) ∨
    ∃ left right, [left, right] <:+: pieces ∧ pattern <:+: left ++ right

theorem Within.infix_flatten {pattern : List α} {pieces : List (List α)}
    (h : Within pattern pieces) : pattern <:+: pieces.flatten := by
  rcases h with ⟨piece, hmem, hin⟩ | ⟨left, right, ⟨pre, post, hpieces⟩, hin⟩
  · exact hin.trans (List.infix_of_mem_flatten hmem)
  · have hflatten : pieces.flatten = pre.flatten ++ (left ++ right) ++ post.flatten := by
      rw [← hpieces]
      simp
    rw [hflatten]
    exact hin.trans (List.infix_append _ _ _)

theorem Within.cons {pattern piece : List α} {pieces : List (List α)} (h : Within pattern pieces) :
    Within pattern (piece :: pieces) := by
  rcases h with ⟨q, hq, hin⟩ | ⟨left, right, hpair, hin⟩
  · exact Or.inl ⟨q, List.mem_cons_of_mem _ hq, hin⟩
  · exact Or.inr ⟨left, right, List.infix_cons hpair, hin⟩

/-- A pattern that is no longer than any piece touches two pieces at most. -/
theorem within_of_infix_flatten {pattern : List α} (hne : pattern ≠ []) {pieces : List (List α)}
    (hlong : ∀ piece ∈ pieces, pattern.length ≤ piece.length)
    (h : pattern <:+: pieces.flatten) : Within pattern pieces := by
  induction pieces with
  | nil => exact absurd (List.eq_nil_of_infix_nil h) hne
  | cons piece rest ih =>
    obtain ⟨-, hrest⟩ := List.forall_mem_cons.mp hlong
    rw [List.flatten_cons, List.infix_append_iff] at h
    rcases h with hfirst | hlater | ⟨head, tail, hsplit, hhead, htail⟩
    · exact Or.inl ⟨piece, List.mem_cons_self, hfirst⟩
    · exact (ih hrest hlater).cons
    · cases rest with
      | nil =>
        have hempty : tail = [] := List.prefix_nil.mp htail
        rw [hsplit, hempty, List.append_nil]
        exact Or.inl ⟨piece, List.mem_cons_self, hhead.isInfix⟩
      | cons next rest =>
        -- the pattern is too short to reach past the next piece
        have hnext : tail.length ≤ next.length := by
          have hle := hrest next List.mem_cons_self
          rw [hsplit, List.length_append] at hle
          omega
        have htail' : tail <+: next :=
          List.prefix_of_prefix_length_le htail (List.prefix_append next _) hnext
        refine Or.inr ⟨piece, next, ⟨[], rest, rfl⟩, ?_⟩
        rw [List.infix_append_iff]
        exact Or.inr (Or.inr ⟨head, tail, hsplit, hhead, htail'⟩)

theorem infix_flatten_iff {pattern : List α} (hne : pattern ≠ []) {pieces : List (List α)}
    (hlong : ∀ piece ∈ pieces, pattern.length ≤ piece.length) :
    pattern <:+: pieces.flatten ↔ Within pattern pieces :=
  ⟨within_of_infix_flatten hne hlong, Within.infix_flatten⟩

end Pieces
