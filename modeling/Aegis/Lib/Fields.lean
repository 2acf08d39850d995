import Aegis.Lib.Text

/-! Byte strings cut into lines, into words, and at a separator. -/
namespace Fields

/-- The lines `std::getline` reads: a last piece without a newline counts if it is
not empty. -/
def lines (s : Bytes) : List Bytes :=
  if (s.splitOn 10).getLast? = some [] then (s.splitOn 10).dropLast else s.splitOn 10

/-- Lines as they stand in a file. -/
def unlines (ls : List Bytes) : Bytes := ls.flatMap (· ++ [10])

theorem splitOn_unlines {ls : List Bytes} (h : ∀ l ∈ ls, 10 ∉ l) :
    (unlines ls).splitOn 10 = ls ++ [[]] := by
  induction ls with
  | nil => rfl
  | cons l ls ih =>
    obtain ⟨hl, hls⟩ := List.forall_mem_cons.mp h
    have hcons : unlines (l :: ls) = l ++ 10 :: unlines ls := by
      unfold unlines
      rw [List.flatMap_cons, List.append_assoc]
      rfl
    rw [hcons, List.splitOn_append_cons_self_of_not_mem hl, ih hls]
    rfl

theorem lines_unlines {ls : List Bytes} (h : ∀ l ∈ ls, 10 ∉ l) : lines (unlines ls) = ls := by
  unfold lines
  rw [splitOn_unlines h, List.getLast?_concat, if_pos rfl, List.dropLast_concat]

/-- `isspace` in the C locale. -/
def isSpace (b : UInt8) : Bool := b = 32 || (9 ≤ b && b ≤ 13)

/-- The words that `iss >> word` reads one after the other. -/
def words (s : Bytes) : List Bytes := (s.splitOnP isSpace).filter (fun w => !w.isEmpty)

theorem words_append (s t : Bytes) {b : UInt8} (hb : isSpace b) :
    words (s ++ b :: t) = words s ++ words t := by
  unfold words
  rw [List.splitOnP_append_cons _ _ hb, List.filter_append]

theorem words_nil : words [] = [] := rfl

theorem words_token {w : Bytes} (hw : w ≠ []) (h : ∀ b ∈ w, isSpace b = false) : words w = [w] := by
  unfold words
  have hkeep : (!w.isEmpty) = true := by simpa using hw
  rw [List.splitOnP_eq_singleton h, List.filter_singleton, hkeep, cond_true]

theorem words_visible {w : Bytes} (hw : w ≠ []) (h : ∀ b ∈ w, 32 < b) : words w = [w] := by
  have hspace : ∀ b : UInt8, 32 < b → isSpace b = false := forall_byte (by decide +kernel)
  exact words_token hw (fun b hb => hspace b (h b hb))

theorem words_blanks (n : ℕ) (s : Bytes) : words (List.replicate n 32 ++ s) = words s := by
  induction n with
  | zero => rfl
  | succ n ih =>
    have h := words_append [] (List.replicate n 32 ++ s) (b := 32) (by decide)
    rw [List.nil_append, words_nil, List.nil_append, ih] at h
    exact h

theorem words_intercalate (fs : List Bytes) : words ([32].intercalate fs) = fs.flatMap words := by
  induction fs with
  | nil => rfl
  | cons f fs ih =>
    cases fs with
    | nil => rw [List.intercalate_singleton, List.flatMap_singleton]
    | cons g fs =>
      rw [List.intercalate_cons_cons, List.append_assoc, List.singleton_append,
        words_append _ _ (by decide), ih]
      rfl

theorem words_append_blanks (s : Bytes) (n : ℕ) : words (s ++ List.replicate n 32) = words s := by
  cases n with
  | zero => rw [List.replicate_zero, List.append_nil]
  | succ n =>
    have hblank := words_blanks n []
    rw [List.append_nil, words_nil] at hblank
    rw [List.replicate_succ, words_append _ _ (by decide), hblank, List.append_nil]

theorem not_mem_intercalate {α : Type*} {c x : α} (hx : x ≠ c) {segs : List (List α)}
    (h : ∀ s ∈ segs, x ∉ s) : x ∉ [c].intercalate segs := by
  induction segs with
  | nil => exact List.not_mem_nil
  | cons s segs ih =>
    obtain ⟨hs, hsegs⟩ := List.forall_mem_cons.mp h
    cases segs with
    | nil =>
      rw [List.intercalate_singleton]
      exact hs
    | cons t segs =>
      rw [List.intercalate_cons_cons, List.mem_append, List.mem_append, List.mem_singleton]
      exact not_or.mpr ⟨not_or.mpr ⟨hs, hx⟩, ih hsegs⟩

section Separator
variable {α : Type*} [BEq α] [LawfulBEq α] {c : α}

theorem splitOn_append_of_not_mem {p : List α} (hp : c ∉ p) (s : List α) :
    (p ++ s).splitOn c = (s.splitOn c).modifyHead (p ++ ·) := by
  induction p with
  | nil =>
    rw [List.nil_append]
    cases s.splitOn c <;> rfl
  | cons x p ih =>
    rw [List.mem_cons, not_or] at hp
    obtain ⟨hx, hp⟩ := hp
    rw [List.cons_append, List.splitOn_cons_eq_if_modifyHead, if_neg (by simpa using Ne.symm hx),
      ih hp, List.modifyHead_modifyHead]
    rfl

theorem of_mem_splitOn {s p : List α} (h : p ∈ s.splitOn c) : c ∉ p ∧ ∀ x ∈ p, x ∈ s := by
  induction s generalizing p with
  | nil =>
    rw [List.splitOn_nil, List.mem_singleton] at h
    simp [h]
  | cons a s ih =>
    have hlater : ∀ q ∈ s.splitOn c, c ∉ q ∧ ∀ x ∈ q, x ∈ a :: s :=
      fun q hq => ⟨(ih hq).1, fun x hx => List.mem_cons_of_mem a ((ih hq).2 x hx)⟩
    obtain ⟨head, rest, hsplit⟩ := List.exists_cons_of_ne_nil (List.splitOn_ne_nil c s)
    rw [List.splitOn_cons_eq_if_modifyHead, hsplit] at h
    rw [hsplit, List.forall_mem_cons] at hlater
    split_ifs at h with ha
    · rcases List.mem_cons.mp h with rfl | h
      · simp
      · rcases List.mem_cons.mp h with rfl | h
        · exact hlater.1
        · exact hlater.2 p h
    · rw [List.modifyHead_cons] at h
      rcases List.mem_cons.mp h with rfl | h
      · have hne : c ≠ a := by
          rintro rfl
          simp at ha
        refine ⟨?_, List.forall_mem_cons.mpr ⟨List.mem_cons_self, hlater.1.2⟩⟩
        rw [List.mem_cons, not_or]
        exact ⟨hne, hlater.1.1⟩
      · exact hlater.2 p h

theorem splitOn_of_length_le_one {s : List α} (h : (s.splitOn c).length ≤ 1) : s.splitOn c = [s] := by
  obtain ⟨head, rest, hsplit⟩ := List.exists_cons_of_ne_nil (List.splitOn_ne_nil c s)
  have hjoin := @List.intercalate_splitOn _ s _ _ c
  rw [hsplit, List.length_cons] at h
  have hrest : rest = [] := List.eq_nil_of_length_eq_zero (by omega)
  rw [hsplit, hrest, List.intercalate_singleton] at hjoin
  rw [hsplit, hrest, hjoin]

omit [BEq α] [LawfulBEq α] in
theorem cons_infix_intercalate {segs : List (List α)} {seg : List α} (h : seg ∈ segs.tail) :
    c :: seg <:+: [c].intercalate segs := by
  induction segs with
  | nil => exact absurd h List.not_mem_nil
  | cons s segs ih =>
    rw [List.tail_cons] at h
    cases segs with
    | nil => exact absurd h List.not_mem_nil
    | cons t segs =>
      rw [List.intercalate_cons_cons]
      rcases List.mem_cons.mp h with heq | htail
      · subst heq
        rw [List.append_assoc]
        refine List.IsInfix.trans ?_ (List.suffix_append s _).isInfix
        refine List.IsPrefix.isInfix ?_
        cases segs with
        | nil =>
          rw [List.intercalate_singleton]
          exact List.prefix_rfl
        | cons u segs =>
          rw [List.intercalate_cons_cons, List.singleton_append, List.append_assoc]
          exact (List.prefix_cons_inj c).mpr (List.prefix_append _ _)
      · refine (ih htail).trans ?_
        rw [List.append_assoc]
        exact (List.suffix_append _ _).isInfix.trans (List.suffix_append s _).isInfix

/-- A separator followed by a pattern without separators occurs exactly where a field
after the first begins with the pattern. -/
theorem cons_infix_iff {p : List α} (hp : c ∉ p) (s : List α) :
    c :: p <:+: s ↔ ∃ seg ∈ (s.splitOn c).tail, p <+: seg := by
  constructor
  · intro h
    obtain ⟨a, b, rfl⟩ := h
    have hsplit : (a ++ c :: p ++ b).splitOn c =
        a.splitOn c ++ (b.splitOn c).modifyHead (p ++ ·) := by
      rw [List.append_assoc, List.cons_append, List.splitOn_append_cons_self,
        splitOn_append_of_not_mem hp]
    rw [hsplit, List.tail_append_of_ne_nil (List.splitOn_ne_nil c a)]
    obtain ⟨t, ts, hts⟩ := List.exists_cons_of_ne_nil (List.splitOn_ne_nil c b)
    rw [hts, List.modifyHead_cons]
    exact ⟨p ++ t, List.mem_append_right _ List.mem_cons_self, List.prefix_append p t⟩
  · intro h
    obtain ⟨seg, hseg, hstart⟩ := h
    have hin := cons_infix_intercalate (c := c) hseg
    rw [List.intercalate_splitOn] at hin
    exact ((List.prefix_cons_inj c).mpr hstart).isInfix.trans hin

end Separator

end Fields
