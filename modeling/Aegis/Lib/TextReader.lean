import Aegis.Lib.Fields
import Mathlib.Data.List.Forall2

/-! Reading a byte stream line by line as text: the bytes are decoded strictly, and all
three kinds of line ends are `\n` to the reader. -/
namespace Text

/-- The lines of the bytes are the lines of the text. -/
theorem Utf8.splitOn {bs : Bytes} {t : Text} (h : Utf8 bs t) {b : UInt8} (hb : b < 0x80) (hpos : 0 < b) :
    List.Forall₂ Utf8 (bs.splitOn b) (t.splitOn (Char.ofNat b.toNat)) := by
  induction h with
  | nil => exact .cons .nil .nil
  | @cons s rest c t hs hrest ih =>
    rcases hs.eq_of_ascii hb hpos with ⟨rfl, rfl⟩ | ⟨hnot, hne⟩
    · rw [List.singleton_append, List.splitOn_cons_eq_if_modifyHead, if_pos (beq_self_eq_true _),
        List.splitOn_cons_eq_if_modifyHead, if_pos (beq_self_eq_true _)]
      exact .cons .nil ih
    · rw [Fields.splitOn_append_of_not_mem hnot, List.splitOn_cons_eq_if_modifyHead,
        if_neg (by simpa using hne)]
      cases hr : rest.splitOn b with
      | nil => exact absurd hr (List.splitOn_ne_nil _ _)
      | cons p ps =>
        rw [hr] at ih
        cases ht : t.splitOn (Char.ofNat b.toNat) with
        | nil => exact absurd ht (List.splitOn_ne_nil _ _)
        | cons q qs =>
          rw [ht] at ih
          obtain ⟨hp, hps⟩ := List.forall₂_cons.mp ih
          exact .cons (.cons hs hp) hps

/-- Universal newlines: `\r\n` and `\r` end a line as `\n` does. A `\r` at the end has to
wait for what comes next. -/
def translateNewlines : Text → Text
  | [] => []
  | ['\r'] => []
  | '\r' :: '\n' :: t => '\n' :: translateNewlines t
  | '\r' :: c :: t => '\n' :: translateNewlines (c :: t)
  | c :: t => c :: translateNewlines t

/-- The lines that can be read from a stream so far. There are none to tell when it is not
UTF-8: the read that meets the bad byte raises, after as many lines as the buffers gave. -/
def readLines (stream : Bytes) : Option (List Text) :=
  if isUtf8 stream then
    some (((translateNewlines (decodeIgnore stream)).splitOn '\n').dropLast.map (· ++ ['\n']))
  else none

example : readLines (ascii "a\rb\r\nc") = some ["a\n".toList, "b\n".toList] := by decide +kernel

theorem translateNewlines_eq_self {t : Text} (h : '\r' ∉ t) : translateNewlines t = t := by
  induction t with
  | nil => rfl
  | cons c t ih =>
    rw [List.mem_cons, not_or] at h
    obtain ⟨hc, ht⟩ := h
    rw [translateNewlines, ih ht]
    all_goals
      intros
      exact absurd (Eq.symm ‹c = '\r'›) hc

/-- UTF-8 without carriage returns: what is read as it stands. -/
def Readable (s : Bytes) : Prop := isUtf8 s ∧ 13 ∉ s

instance (s : Bytes) : Decidable (Readable s) := inferInstanceAs (Decidable (_ ∧ _))

theorem Readable.append (a b : Bytes) (ha : Readable a) (hb : Readable b) : Readable (a ++ b) := by
  refine ⟨?_, ?_⟩
  · rw [isUtf8_append ha.1]
    exact hb.1
  · rw [List.mem_append, not_or]
    exact ⟨ha.2, hb.2⟩

theorem readable_of_printable {s : Bytes} (h : ∀ b ∈ s, 0x20 ≤ b ∧ b < 0x80) : Readable s :=
  ⟨isUtf8_of_ascii fun b hb => (h b hb).2, fun hmem => absurd (h 13 hmem).1 (by decide)⟩

/-- A line of the stream as it is read. -/
def lineText (line : Bytes) : Text := decodeIgnore line ++ ['\n']

/-- Without carriage returns the lines are those of the bytes. -/
theorem readLines_eq {stream : Bytes} (h : Readable stream) :
    readLines stream = some ((stream.splitOn 10).dropLast.map lineText) := by
  obtain ⟨hutf8, hcr⟩ := h
  have htext := utf8_of_isUtf8 hutf8
  have hsame : translateNewlines (decodeIgnore stream) = decodeIgnore stream :=
    translateNewlines_eq_self (htext.ascii_notMem (b := 13) (by decide) (by decide) hcr)
  have hlines : (decodeIgnore stream).splitOn '\n' = (stream.splitOn 10).map decodeIgnore := by
    have h := htext.splitOn (b := 10) (by decide) (by decide)
    rw [← List.forall₂_eq_eq_eq, List.forall₂_map_right_iff]
    exact h.flip.imp fun _ _ hline => hline.decodeIgnore_eq.symm
  unfold readLines
  rw [if_pos hutf8, hsame, hlines, ← List.map_dropLast, List.map_map]
  rfl

/-- Stripping leaves a beginning without spaces in place. -/
theorem strip_cons_cons {a b : Char} (ha : isSpace a = false) (hb : isSpace b = false) (t : Text) :
    ∃ t', strip (a :: b :: t) = a :: b :: t' := by
  have hlead : (a :: b :: t).dropWhile isSpace = a :: b :: t := List.dropWhile_cons_of_neg (by simp [ha])
  have hend : [b, a].dropWhile isSpace = [b, a] := List.dropWhile_cons_of_neg (by simp [hb])
  have hreverse : (a :: b :: t).reverse = t.reverse ++ [b, a] := by simp
  unfold strip
  rw [hlead, hreverse, List.dropWhile_append, hend]
  split_ifs
  · exact ⟨[], rfl⟩
  · exact ⟨(t.reverse.dropWhile isSpace).reverse, by simp⟩

/-- A line that begins with two ASCII characters that are no spaces, as it is read. -/
theorem strip_lineText {x y : UInt8} (hx : x < 0x80) (hy : y < 0x80)
    (hxs : isSpace (Char.ofNat x.toNat) = false) (hys : isSpace (Char.ofNat y.toNat) = false)
    (line : Bytes) : ∃ t, strip (lineText (x :: y :: line)) =
      Char.ofNat x.toNat :: Char.ofNat y.toNat :: t := by
  have hline : decodeIgnore (x :: y :: line) =
      Char.ofNat x.toNat :: Char.ofNat y.toNat :: decodeIgnore line := by
    have h := (Sequence.ascii x hx).decodeIgnore_append (y :: line)
    rw [List.singleton_append] at h
    have h' := (Sequence.ascii y hy).decodeIgnore_append line
    rw [List.singleton_append] at h'
    rw [h, h']
  unfold lineText
  rw [hline]
  exact strip_cons_cons hxs hys _

end Text
