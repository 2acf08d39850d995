import Mathlib.Data.List.Infix

/-! Byte strings and Unicode text: UTF-8, lenient decoding and lower-casing. -/

/-- A byte string of the C++ side. -/
abbrev Bytes := List UInt8

/-- A property of bytes that is checked on all 256 of them. -/
theorem forall_byte {P : UInt8 → Prop} (h : ∀ n < 256, P (UInt8.ofNat n)) (b : UInt8) : P b := by
  have hb := h b.toNat b.toNat_lt
  rwa [UInt8.ofNat_toNat] at hb

/-- A text of the Python side, as its scalar values. -/
abbrev Text := List Char

/-- The bytes of an ASCII literal. -/
def ascii (s : String) : Bytes := s.toList.map (fun c => UInt8.ofNat c.toNat)

namespace Text

/-- `str.encode("utf-8")`. A text without surrogates always has an encoding. -/
def encode (t : Text) : Bytes := t.flatMap String.utf8EncodeChar

private def isContinuation (b : UInt8) : Bool := 0x80 ≤ b && b ≤ 0xBF

private def payload (b : UInt8) : ℕ := b.toNat % 0x40

/-- The well-formed sequence a byte string starts with, if it does: its scalar
value and the number of bytes after the first. The bounds on the second byte
exclude overlong forms, surrogates and values past U+10FFFF. -/
def decodeHead : Bytes → Option (Char × ℕ)
  | [] => none
  | b0 :: rest =>
    if b0 < 0x80 then some (Char.ofNat b0.toNat, 0)
    else if 0xC2 ≤ b0 ∧ b0 ≤ 0xDF then
      match rest with
      | b1 :: _ =>
        if isContinuation b1 then some (Char.ofNat (b0.toNat % 0x20 * 64 + payload b1), 1) else none
      | [] => none
    else if 0xE0 ≤ b0 ∧ b0 ≤ 0xEF then
      match rest with
      | b1 :: b2 :: _ =>
        if isContinuation b1 ∧ isContinuation b2 ∧ (b0 = 0xE0 → 0xA0 ≤ b1) ∧ (b0 = 0xED → b1 ≤ 0x9F)
        then some (Char.ofNat (b0.toNat % 0x10 * 4096 + payload b1 * 64 + payload b2), 2)
        else none
      | _ => none
    else if 0xF0 ≤ b0 ∧ b0 ≤ 0xF4 then
      match rest with
      | b1 :: b2 :: b3 :: _ =>
        if isContinuation b1 ∧ isContinuation b2 ∧ isContinuation b3 ∧ (b0 = 0xF0 → 0x90 ≤ b1) ∧
          (b0 = 0xF4 → b1 ≤ 0x8F)
        then some (Char.ofNat (b0.toNat % 0x08 * 262144 + payload b1 * 4096 + payload b2 * 64 +
          payload b3), 3)
        else none
      | _ => none
    else none

private def decodeFrom : ℕ → Bytes → Text
  | _, [] => []
  | skip + 1, _ :: rest => decodeFrom skip rest
  | 0, b :: rest =>
    match decodeHead (b :: rest) with
    | some (c, n) => c :: decodeFrom n rest
    | none => decodeFrom 0 rest

/-- `bytes.decode(errors="ignore")`: what is not UTF-8 is left out. Dropping an
ill-formed start byte by byte is the same as dropping it whole, because a
continuation byte starts no sequence. -/
def decodeIgnore (bs : Bytes) : Text := decodeFrom 0 bs

private def utf8From : ℕ → Bytes → Bool
  | _, [] => true
  | skip + 1, _ :: rest => utf8From skip rest
  | 0, b :: rest =>
    match decodeHead (b :: rest) with
    | some (_, n) => utf8From n rest
    | none => false

def isUtf8 (bs : Bytes) : Bool := utf8From 0 bs

private theorem decodeHead_append {a : Bytes} {r : Char × ℕ} (h : decodeHead a = some r) (b : Bytes) :
    decodeHead (a ++ b) = some r ∧ r.2 < a.length := by
  match a with
  | [] => cases h
  | [b0] =>
    simp only [decodeHead] at h
    split_ifs at h with hlow
    simp only [List.cons_append, List.nil_append, decodeHead, if_pos hlow, h, true_and]
    rw [← Option.some.inj h]
    exact Nat.zero_lt_one
  | [b0, b1] =>
    simp only [List.cons_append, List.nil_append, decodeHead] at h ⊢
    split_ifs at h ⊢ <;> simp_all [← Option.some.inj h]
  | [b0, b1, b2] =>
    simp only [List.cons_append, List.nil_append, decodeHead] at h ⊢
    split_ifs at h ⊢ <;> simp_all [← Option.some.inj h]
  | b0 :: b1 :: b2 :: b3 :: rest =>
    simp only [List.cons_append, decodeHead] at h ⊢
    split_ifs at h ⊢ <;> simp_all [← Option.some.inj h]

private theorem utf8From_append {skip : ℕ} {a : Bytes} (hskip : skip ≤ a.length)
    (h : utf8From skip a = true) (b : Bytes) : utf8From skip (a ++ b) = utf8From 0 b := by
  induction a generalizing skip with
  | nil =>
    rw [Nat.le_zero.mp hskip]
    rfl
  | cons c a ih =>
    cases skip with
    | succ skip => exact ih (Nat.le_of_succ_le_succ hskip) h
    | zero =>
      rw [utf8From] at h
      cases hhead : decodeHead (c :: a) with
      | none =>
        rw [hhead] at h
        cases h
      | some r =>
        rw [hhead] at h
        obtain ⟨happ, hlen⟩ := decodeHead_append hhead b
        rw [List.cons_append] at happ ⊢
        rw [utf8From, happ]
        exact ih (Nat.le_of_lt_succ hlen) h

/-- After a UTF-8 text, only what follows decides. -/
theorem isUtf8_append {a : Bytes} (ha : isUtf8 a) (b : Bytes) : isUtf8 (a ++ b) = isUtf8 b :=
  utf8From_append (Nat.zero_le _) ha b

theorem isUtf8_of_ascii {s : Bytes} (h : ∀ b ∈ s, b < 0x80) : isUtf8 s := by
  induction s with
  | nil => rfl
  | cons b s ih =>
    obtain ⟨hb, hs⟩ := List.forall_mem_cons.mp h
    have hhead : isUtf8 [b] := by
      unfold isUtf8
      rw [utf8From, decodeHead, if_pos hb]
      rfl
    have happend := isUtf8_append hhead s
    rw [List.singleton_append] at happend
    rw [happend]
    exact ih hs

/-- One encoded character: an ASCII byte, or several bytes none of which is ASCII. -/
inductive Sequence : Bytes → Char → Prop where
  | ascii (b : UInt8) (h : b < 0x80) : Sequence [b] (Char.ofNat b.toNat)
  | wide (s : Bytes) (c : Char) (hhead : decodeHead s = some (c, s.length - 1))
      (hs : ∀ b ∈ s, ¬ b < 0x80) (hc : c.toNat = 0 ∨ 0x80 ≤ c.toNat) : Sequence s c

/-- A text and its bytes, character by character. -/
inductive Utf8 : Bytes → Text → Prop where
  | nil : Utf8 [] []
  | cons {s rest : Bytes} {c : Char} {t : Text} (hs : Sequence s c) (hrest : Utf8 rest t) :
      Utf8 (s ++ rest) (c :: t)

theorem Sequence.decodeHead_eq {s : Bytes} {c : Char} (h : Sequence s c) :
    decodeHead s = some (c, s.length - 1) := by
  cases h with
  | ascii b hb => exact if_pos hb
  | wide s c hhead => exact hhead

theorem Sequence.ne_nil {s : Bytes} {c : Char} (h : Sequence s c) : s ≠ [] := by
  rintro rfl
  cases h.decodeHead_eq

private theorem toNat_ofNat (n : ℕ) : (Char.ofNat n).toNat = n ∨ (Char.ofNat n).toNat = 0 := by
  by_cases h : n.isValidChar
  · refine Or.inl ?_
    rw [Char.ofNat, dif_pos h]
    rfl
  · refine Or.inr ?_
    rw [Char.ofNat, dif_neg h]
    rfl

private theorem continuation_bounds {b : UInt8} (h : isContinuation b = true) :
    ¬ b < 0x80 ∧ 0x80 ≤ b.toNat ∧ b.toNat ≤ 0xBF := by
  unfold isContinuation at h
  rw [Bool.and_eq_true, decide_eq_true_iff, decide_eq_true_iff] at h
  exact ⟨UInt8.not_lt.mpr h.1, UInt8.le_iff_toNat_le.mp h.1, UInt8.le_iff_toNat_le.mp h.2⟩

/-! Longer sequences are no ASCII: overlong forms are excluded. -/

private theorem wide_of_le {m : ℕ} (hm : 0x80 ≤ m) :
    (Char.ofNat m).toNat = 0 ∨ 0x80 ≤ (Char.ofNat m).toNat := by
  rcases toNat_ofNat m with heq | heq
  · exact Or.inr (hm.trans_eq heq.symm)
  · exact Or.inl heq

private theorem le_scalar_two {b0 : UInt8} (h : 0xC2 ≤ b0 ∧ b0 ≤ 0xDF) (b1 : UInt8) :
    0x80 ≤ b0.toNat % 0x20 * 64 + payload b1 := by
  have hlow : 0xC2 ≤ b0.toNat := UInt8.le_iff_toNat_le.mp h.1
  have hhigh : b0.toNat ≤ 0xDF := UInt8.le_iff_toNat_le.mp h.2
  omega

private theorem le_scalar_three {b0 b1 : UInt8} (h : 0xE0 ≤ b0 ∧ b0 ≤ 0xEF)
    (hb1 : isContinuation b1 = true) (hlong : b0 = 0xE0 → 0xA0 ≤ b1) (b2 : UInt8) :
    0x80 ≤ b0.toNat % 0x10 * 4096 + payload b1 * 64 + payload b2 := by
  have hlow : 0xE0 ≤ b0.toNat := UInt8.le_iff_toNat_le.mp h.1
  have hhigh : b0.toNat ≤ 0xEF := UInt8.le_iff_toNat_le.mp h.2
  by_cases hfirst : b0 = 0xE0
  · have hsecond : 0xA0 ≤ b1.toNat := UInt8.le_iff_toNat_le.mp (hlong hfirst)
    have hbounds := continuation_bounds hb1
    unfold payload
    omega
  · have hne : b0.toNat ≠ 0xE0 := fun h => hfirst (UInt8.toNat_inj.mp h)
    omega

private theorem le_scalar_four {b0 b1 : UInt8} (h : 0xF0 ≤ b0 ∧ b0 ≤ 0xF4)
    (hb1 : isContinuation b1 = true) (hlong : b0 = 0xF0 → 0x90 ≤ b1) (b2 b3 : UInt8) :
    0x80 ≤ b0.toNat % 0x08 * 262144 + payload b1 * 4096 + payload b2 * 64 + payload b3 := by
  have hlow : 0xF0 ≤ b0.toNat := UInt8.le_iff_toNat_le.mp h.1
  have hhigh : b0.toNat ≤ 0xF4 := UInt8.le_iff_toNat_le.mp h.2
  by_cases hfirst : b0 = 0xF0
  · have hsecond : 0x90 ≤ b1.toNat := UInt8.le_iff_toNat_le.mp (hlong hfirst)
    have hbounds := continuation_bounds hb1
    unfold payload
    omega
  · have hne : b0.toNat ≠ 0xF0 := fun h => hfirst (UInt8.toNat_inj.mp h)
    omega

/-- The first character of a byte string that starts with one. -/
private theorem exists_sequence {bs : Bytes} {c : Char} {n : ℕ} (h : decodeHead bs = some (c, n)) :
    ∃ s rest, bs = s ++ rest ∧ s.length = n + 1 ∧ Sequence s c := by
  match bs with
  | [] => cases h
  | b0 :: rest =>
    by_cases h0 : b0 < 0x80
    · simp only [decodeHead, if_pos h0] at h
      cases h
      exact ⟨[b0], rest, rfl, rfl, .ascii b0 h0⟩
    · simp only [decodeHead, if_neg h0] at h
      split_ifs at h with h2 h3 h4
      · match rest with
        | [] => cases h
        | b1 :: r =>
          dsimp only at h
          split_ifs at h with hb1
          cases h
          refine ⟨[b0, b1], r, rfl, rfl, .wide _ _ ?_ ?_ (wide_of_le (le_scalar_two h2 b1))⟩
          · simp only [decodeHead, if_neg h0, if_pos h2, if_pos hb1]
            rfl
          · simp only [List.forall_mem_cons]
            exact ⟨h0, (continuation_bounds hb1).1, List.forall_mem_nil _⟩
      · match rest with
        | [] | [b1] => cases h
        | b1 :: b2 :: r =>
          dsimp only at h
          split_ifs at h with hb
          cases h
          refine ⟨[b0, b1, b2], r, rfl, rfl,
            .wide _ _ ?_ ?_ (wide_of_le (le_scalar_three h3 hb.1 hb.2.2.1 b2))⟩
          · simp only [decodeHead, if_neg h0, if_neg h2, if_pos h3, if_pos hb]
            rfl
          · simp only [List.forall_mem_cons]
            exact ⟨h0, (continuation_bounds hb.1).1, (continuation_bounds hb.2.1).1, List.forall_mem_nil _⟩
      · match rest with
        | [] | [b1] | [b1, b2] => cases h
        | b1 :: b2 :: b3 :: r =>
          dsimp only at h
          split_ifs at h with hb
          cases h
          refine ⟨[b0, b1, b2, b3], r, rfl, rfl,
            .wide _ _ ?_ ?_ (wide_of_le (le_scalar_four h4 hb.1 hb.2.2.2.1 b2 b3))⟩
          · simp only [decodeHead, if_neg h0, if_neg h2, if_neg h3, if_pos h4, if_pos hb]
            rfl
          · simp only [List.forall_mem_cons]
            exact ⟨h0, (continuation_bounds hb.1).1, (continuation_bounds hb.2.1).1,
              (continuation_bounds hb.2.2.1).1, List.forall_mem_nil _⟩

private theorem decodeFrom_skip (s rest : Bytes) : decodeFrom s.length (s ++ rest) = decodeFrom 0 rest := by
  induction s with
  | nil => rfl
  | cons b s ih => exact ih

private theorem utf8From_skip (s rest : Bytes) : utf8From s.length (s ++ rest) = utf8From 0 rest := by
  induction s with
  | nil => rfl
  | cons b s ih => exact ih

theorem Sequence.decodeIgnore_append {s : Bytes} {c : Char} (h : Sequence s c) (rest : Bytes) :
    decodeIgnore (s ++ rest) = c :: decodeIgnore rest := by
  obtain ⟨b, s, rfl⟩ := List.exists_cons_of_ne_nil h.ne_nil
  have hhead := (decodeHead_append h.decodeHead_eq rest).1
  rw [List.cons_append] at hhead ⊢
  rw [decodeIgnore, decodeFrom, hhead]
  exact congrArg (c :: ·) (decodeFrom_skip s rest)

theorem Sequence.isUtf8_append {s : Bytes} {c : Char} (h : Sequence s c) (rest : Bytes) :
    isUtf8 (s ++ rest) = isUtf8 rest := by
  obtain ⟨b, s, rfl⟩ := List.exists_cons_of_ne_nil h.ne_nil
  have hhead := (decodeHead_append h.decodeHead_eq rest).1
  rw [List.cons_append] at hhead ⊢
  rw [isUtf8, utf8From, hhead]
  exact utf8From_skip s rest

theorem Utf8.isUtf8 {bs : Bytes} {t : Text} (h : Utf8 bs t) : isUtf8 bs := by
  induction h with
  | nil => rfl
  | cons hs hrest ih =>
    rw [hs.isUtf8_append]
    exact ih

theorem Utf8.decodeIgnore_eq {bs : Bytes} {t : Text} (h : Utf8 bs t) : decodeIgnore bs = t := by
  induction h with
  | nil => rfl
  | cons hs hrest ih => rw [hs.decodeIgnore_append, ih]

/-- Strict decoding: a byte string that is UTF-8 is the text it decodes to, encoded. -/
theorem utf8_of_isUtf8 {bs : Bytes} (h : Text.isUtf8 bs) : Utf8 bs (decodeIgnore bs) := by
  induction hlen : bs.length using Nat.strongRecOn generalizing bs with
  | ind len ih =>
    cases bs with
    | nil => exact .nil
    | cons b bs =>
      have hhead : ∃ c n, decodeHead (b :: bs) = some (c, n) := by
        rw [Text.isUtf8, utf8From] at h
        cases hhead : decodeHead (b :: bs) with
        | none =>
          rw [hhead] at h
          cases h
        | some r => exact ⟨r.1, r.2, rfl⟩
      obtain ⟨c, n, hhead⟩ := hhead
      obtain ⟨s, rest, heq, hslen, hs⟩ := exists_sequence hhead
      rw [heq, hs.isUtf8_append] at h
      rw [heq, hs.decodeIgnore_append]
      refine .cons hs (ih rest.length ?_ h rfl)
      rw [← hlen, heq, List.length_append, hslen]
      omega

theorem Utf8.append {a b : Bytes} {s t : Text} (ha : Utf8 a s) (hb : Utf8 b t) : Utf8 (a ++ b) (s ++ t) := by
  induction ha with
  | nil => exact hb
  | cons hs hrest ih =>
    rw [List.append_assoc]
    exact .cons hs ih

/-- An ASCII character comes from its byte only. -/
theorem Sequence.eq_of_ascii {s : Bytes} {c : Char} (h : Sequence s c) {b : UInt8} (hb : b < 0x80)
    (hpos : 0 < b) : (s = [b] ∧ c = Char.ofNat b.toNat) ∨ (b ∉ s ∧ c ≠ Char.ofNat b.toNat) := by
  have hinj : ∀ b : UInt8, b < 0x80 → (Char.ofNat b.toNat).toNat = b.toNat := forall_byte (by decide +kernel)
  have hnat : b.toNat < 0x80 := UInt8.lt_iff_toNat_lt.mp hb
  have hnat' : 0 < b.toNat := UInt8.lt_iff_toNat_lt.mp hpos
  cases h with
  | ascii b' hb' =>
    by_cases heq : b' = b
    · exact Or.inl ⟨by rw [heq], by rw [heq]⟩
    · refine Or.inr ⟨by simpa using Ne.symm heq, fun hc => heq ?_⟩
      have htoNat := congrArg Char.toNat hc
      rw [hinj b' hb', hinj b hb] at htoNat
      exact UInt8.toNat_inj.mp htoNat
  | wide s c _ hs hc =>
    refine Or.inr ⟨fun hmem => hs b hmem hb, fun heq => ?_⟩
    rw [heq, hinj b hb] at hc
    omega

theorem Utf8.ascii_notMem {bs : Bytes} {t : Text} (h : Utf8 bs t) {b : UInt8} (hb : b < 0x80)
    (hpos : 0 < b) (hnot : b ∉ bs) : Char.ofNat b.toNat ∉ t := by
  induction h with
  | nil => exact List.not_mem_nil
  | cons hs hrest ih =>
    rw [List.mem_append, not_or] at hnot
    rcases hs.eq_of_ascii hb hpos with ⟨rfl, -⟩ | ⟨-, hne⟩
    · exact absurd List.mem_cons_self hnot.1
    · rw [List.mem_cons, not_or]
      exact ⟨hne.symm, ih hnot.2⟩

/-- Rewriting ASCII characters to ASCII texts does not break UTF-8. -/
theorem Utf8.flatMap {bs : Bytes} {t : Text} (h : Utf8 bs t) {f : UInt8 → Bytes}
    (hascii : ∀ b < 0x80, ∀ b' ∈ f b, b' < 0x80) (hother : ∀ b, ¬ b < 0x80 → f b = [b]) :
    Text.isUtf8 (bs.flatMap f) := by
  induction h with
  | nil => rfl
  | @cons s rest c t hs hrest ih =>
    rw [List.flatMap_append]
    cases hs with
    | ascii b hb =>
      have hhead : Text.isUtf8 ([b].flatMap f) := by
        rw [List.flatMap_singleton]
        exact isUtf8_of_ascii (hascii b hb)
      rw [Text.isUtf8_append hhead]
      exact ih
    | wide s c hhead hs hc =>
      have hsame : s.flatMap f = s := by
        rw [List.flatMap_congr fun b hb => hother b (hs b hb), List.flatMap_singleton']
      rw [hsame, (Sequence.wide s c hhead hs hc).isUtf8_append]
      exact ih

section AsciiMap
variable {f : UInt8 → UInt8} (hascii : ∀ b < 0x80, f b < 0x80) (hother : ∀ b, ¬ b < 0x80 → f b = b)
include hascii hother

private theorem continuation_cases (b : UInt8) :
    (isContinuation b = false ∧ isContinuation (f b) = false) ∨ f b = b := by
  by_cases h : b < 0x80
  · have hnot : ∀ c : UInt8, c < 0x80 → isContinuation c = false := by
      intro c hc
      unfold isContinuation
      rw [decide_eq_false (UInt8.not_le.mpr hc), Bool.false_and]
    exact Or.inl ⟨hnot b h, hnot (f b) (hascii b h)⟩
  · exact Or.inr (hother b h)

private theorem decodeHead_map (b : UInt8) (rest : Bytes) :
    (decodeHead (f b :: rest.map f)).map Prod.snd = (decodeHead (b :: rest)).map Prod.snd := by
  by_cases h : b < 0x80
  · simp only [decodeHead, if_pos h, if_pos (hascii b h), Option.map_some]
  · rw [hother b h]
    have hcase := continuation_cases hascii hother
    match rest with
    | [] => rfl
    | [b1] =>
      rcases hcase b1 with ⟨h1, h1'⟩ | h1 <;> simp [decodeHead, *]
    | [b1, b2] =>
      rcases hcase b1 with ⟨h1, h1'⟩ | h1 <;> rcases hcase b2 with ⟨h2, h2'⟩ | h2 <;> simp [decodeHead, *]
    | b1 :: b2 :: b3 :: rest =>
      rcases hcase b1 with ⟨h1, h1'⟩ | h1 <;> rcases hcase b2 with ⟨h2, h2'⟩ | h2 <;>
        rcases hcase b3 with ⟨h3, h3'⟩ | h3 <;> simp [decodeHead, *]

private theorem utf8From_map (skip : ℕ) (bs : Bytes) :
    utf8From skip (bs.map f) = utf8From skip bs := by
  induction bs generalizing skip with
  | nil => rfl
  | cons b rest ih =>
    cases skip with
    | succ skip => exact ih skip
    | zero =>
      have hhead := decodeHead_map hascii hother b rest
      rw [List.map_cons, utf8From, utf8From]
      cases hb : decodeHead (b :: rest) with
      | none =>
        rw [hb, Option.map_none, Option.map_eq_none_iff] at hhead
        rw [hhead]
      | some c =>
        rw [hb, Option.map_some, Option.map_eq_some_iff] at hhead
        obtain ⟨c', hc', hsnd⟩ := hhead
        rw [hc']
        show utf8From c'.2 _ = utf8From c.2 rest
        rw [hsnd, ih]

/-- Exchanging ASCII characters for ASCII characters does not make or break UTF-8. -/
theorem isUtf8_map (bs : Bytes) : isUtf8 (bs.map f) = isUtf8 bs :=
  utf8From_map hascii hother 0 bs

end AsciiMap

/-- `str.isspace()` of one character. -/
def isSpace (c : Char) : Bool :=
  (9 ≤ c.toNat && c.toNat ≤ 13) || (28 ≤ c.toNat && c.toNat ≤ 32) || c.toNat = 0x85 ||
    c.toNat = 0xA0 || c.toNat = 0x1680 || (0x2000 ≤ c.toNat && c.toNat ≤ 0x200A) ||
    c.toNat = 0x2028 || c.toNat = 0x2029 || c.toNat = 0x202F || c.toNat = 0x205F || c.toNat = 0x3000

/-- `str.strip()`. -/
def strip (t : Text) : Text := ((t.dropWhile isSpace).reverse.dropWhile isSpace).reverse

/-- `str.split()`. -/
def split (t : Text) : List Text := (t.splitOnP isSpace).filter (fun w => !w.isEmpty)

theorem split_append (s t : Text) {c : Char} (hc : isSpace c) :
    split (s ++ c :: t) = split s ++ split t := by
  unfold split
  rw [List.splitOnP_append_cons _ _ hc, List.filter_append]

theorem split_word {w : Text} (hw : w ≠ []) (h : ∀ c ∈ w, isSpace c = false) : split w = [w] := by
  unfold split
  have hkeep : (!w.isEmpty) = true := by simpa using hw
  rw [List.splitOnP_eq_singleton h, List.filter_singleton, hkeep, cond_true]

theorem split_spaces {t : Text} (h : ∀ c ∈ t, isSpace c) : split t = [] := by
  induction t with
  | nil => rfl
  | cons c t ih =>
    obtain ⟨hc, ht⟩ := List.forall_mem_cons.mp h
    have hcons := split_append [] t hc
    rw [List.nil_append] at hcons
    rw [hcons, ih ht]
    rfl

theorem split_append_spaces (s : Text) {t : Text} (h : ∀ c ∈ t, isSpace c) : split (s ++ t) = split s := by
  cases t with
  | nil => rw [List.append_nil]
  | cons c t =>
    obtain ⟨hc, ht⟩ := List.forall_mem_cons.mp h
    rw [split_append s t hc, split_spaces ht, List.append_nil]

theorem split_spaces_append {s : Text} (h : ∀ c ∈ s, isSpace c) (t : Text) : split (s ++ t) = split t := by
  induction s with
  | nil => rfl
  | cons c s ih =>
    obtain ⟨hc, hs⟩ := List.forall_mem_cons.mp h
    have hcons := split_append [] (s ++ t) hc
    rw [List.nil_append] at hcons
    rw [List.cons_append, hcons, ih hs]
    rfl

theorem split_strip (t : Text) : split (strip t) = split t := by
  have hspaces : ∀ u : Text, ∀ c ∈ u.takeWhile isSpace, isSpace c := fun _ =>
    List.all_eq_true.mp List.all_takeWhile
  set u := t.dropWhile isSpace
  have hlead : split t = split u := by
    conv_lhs => rw [← List.takeWhile_append_dropWhile (p := isSpace) (l := t)]
    exact split_spaces_append (hspaces t) u
  have htrail : split u = split (u.reverse.dropWhile isSpace).reverse := by
    have hu : u = (u.reverse.dropWhile isSpace).reverse ++ (u.reverse.takeWhile isSpace).reverse := by
      rw [← List.reverse_append, List.takeWhile_append_dropWhile, List.reverse_reverse]
    conv_lhs => rw [hu]
    apply split_append_spaces
    intro c hc
    exact hspaces u.reverse c (List.mem_reverse.mp hc)
  rw [hlead, htrail]
  rfl

/-- `sub in text`. -/
def Contains (sub text : Text) : Prop := sub <:+: text

instance (sub text : Text) : Decidable (Contains sub text) :=
  inferInstanceAs (Decidable (sub <:+: text))

/-- An ASCII pattern in lower case is in the text, whatever the case of its letters there. -/
def ContainsNoCase (sub text : Text) : Prop := sub <:+: text.map Char.toLower

instance (sub text : Text) : Decidable (ContainsNoCase sub text) :=
  inferInstanceAs (Decidable (sub <:+: text.map Char.toLower))

end Text

/-- What lower-casing takes from the Unicode character database. -/
structure CaseData where
  lowerFull : Char → Text
  isCased : Char → Bool
  isCaseIgnorable : Char → Bool

namespace CaseData
variable (D : CaseData)

/-- The neighbour that decides: the first one that is not ignorable for casing. -/
private def nextToCased (t : Text) : Bool :=
  match t.find? (fun c => !D.isCaseIgnorable c) with
  | some c => D.isCased c
  | none => false

/-- A capital sigma at the end of a word becomes the final small sigma. -/
private def handleCapitalSigma (before after : Text) : Char :=
  if D.nextToCased before && !D.nextToCased after then 'ς' else 'σ'

private def lowerFrom : Text → Text → Text
  | _, [] => []
  | before, c :: after =>
    (if c = 'Σ' then [D.handleCapitalSigma before after]
      else if c.toNat < 128 then [c.toLower]
      else D.lowerFull c) ++ lowerFrom (c :: before) after

/-- `str.lower()`. -/
def lower (t : Text) : Text := D.lowerFrom [] t

private theorem lowerFrom_append (before a b : Text) : ∃ lowered,
    D.lowerFrom before (a ++ b) = lowered ++ D.lowerFrom (a.reverse ++ before) b := by
  induction a generalizing before with
  | nil => exact ⟨[], rfl⟩
  | cons c a ih =>
    obtain ⟨lowered, h⟩ := ih (c :: before)
    rw [List.cons_append, lowerFrom, h, List.reverse_cons, List.append_assoc, List.singleton_append,
      ← List.append_assoc]
    exact ⟨_, rfl⟩

private theorem lowerFrom_ascii (before : Text) {a : Text} (h : ∀ c ∈ a, c.toNat < 128) (b : Text) :
    D.lowerFrom before (a ++ b) = a.map Char.toLower ++ D.lowerFrom (a.reverse ++ before) b := by
  induction a generalizing before with
  | nil => rfl
  | cons c a ih =>
    obtain ⟨hc, ha⟩ := List.forall_mem_cons.mp h
    have hsigma : c ≠ 'Σ' := by
      rintro rfl
      exact absurd hc (by decide)
    rw [List.cons_append, lowerFrom, if_neg hsigma, if_pos hc, ih _ ha, List.reverse_cons,
      List.append_assoc, List.map_cons]
    rfl

theorem lower_ascii {t : Text} (h : ∀ c ∈ t, c.toNat < 128) : D.lower t = t.map Char.toLower := by
  have hlower := D.lowerFrom_ascii [] h []
  rw [List.append_nil] at hlower
  exact hlower.trans (List.append_nil _)

/-- Lower-casing finds ASCII patterns in any case and in any context. -/
theorem contains_lower {sub text : Text} (hsub : ∀ c ∈ sub, c.toNat < 128)
    (h : Text.ContainsNoCase sub text) (before after : Text) :
    Text.Contains sub (D.lower (before ++ text ++ after)) := by
  have hascii : ∀ c : Char, c.toLower.toNat < 128 → c.toNat < 128 := by
    intro c hc
    by_cases hupper : c.val ≥ 'A'.val ∧ c.val ≤ 'Z'.val
    · exact lt_of_le_of_lt (UInt32.le_iff_toNat_le.mp hupper.2) (by decide)
    · have hsame : c.toLower = c := dif_neg hupper
      rwa [hsame] at hc
  obtain ⟨piece, ⟨pre, post, htext⟩, rfl⟩ := List.infix_map_iff.mp h
  have hpiece : ∀ c ∈ piece, c.toNat < 128 :=
    fun c hc => hascii c (hsub _ (List.mem_map_of_mem hc))
  have hsplit : before ++ text ++ after = (before ++ pre) ++ (piece ++ (post ++ after)) := by
    rw [← htext]
    simp only [List.append_assoc]
  obtain ⟨lowered, hlowered⟩ := D.lowerFrom_append [] (before ++ pre) (piece ++ (post ++ after))
  unfold lower
  rw [hsplit, hlowered, D.lowerFrom_ascii _ hpiece]
  exact ⟨lowered, _, List.append_assoc _ _ _⟩

/-! The two small sigmas are the only trace the context leaves. -/

private def mergeSigma (c : Char) : Char := if c = 'ς' then 'σ' else c

private def lowerAlone (c : Char) : Text :=
  if c = 'Σ' then ['σ'] else if c.toNat < 128 then [c.toLower] else (D.lowerFull c).map mergeSigma

private theorem mergeSigma_ascii {c : Char} (h : c.toNat < 128) : mergeSigma c = c := by
  refine if_neg (fun hsigma => ?_)
  rw [hsigma] at h
  exact absurd h (by decide)

private theorem mergeSigma_of_ascii {c : Char} (h : (mergeSigma c).toNat < 128) : mergeSigma c = c := by
  unfold mergeSigma at h ⊢
  split_ifs at h ⊢
  · exact absurd h (by decide)
  · rfl

private theorem toLower_ascii {c : Char} (h : c.toNat < 128) : c.toLower.toNat < 128 := by
  have hall : ∀ n < 128, (Char.ofNat n).toLower.toNat < 128 := by decide +kernel
  have hc := hall c.toNat h
  rwa [Char.ofNat_toNat] at hc

private theorem map_mergeSigma_lowerFrom (before t : Text) :
    (D.lowerFrom before t).map mergeSigma = t.flatMap D.lowerAlone := by
  induction t generalizing before with
  | nil => rfl
  | cons c t ih =>
    rw [lowerFrom, List.map_append, ih, List.flatMap_cons]
    congr 1
    unfold lowerAlone
    split_ifs with hsigma hascii
    · unfold handleCapitalSigma
      split_ifs <;> rfl
    · rw [List.map_singleton, mergeSigma_ascii (toLower_ascii hascii)]
    · rfl

private theorem contains_lower_iff {sub text : Text} (hsub : ∀ c ∈ sub, c.toNat < 128) :
    Text.Contains sub (D.lower text) ↔ sub <:+: text.flatMap D.lowerAlone := by
  have hmerged : sub.map mergeSigma = sub :=
    (List.map_congr_left (fun c hc => mergeSigma_ascii (hsub c hc))).trans (List.map_id' sub)
  rw [← D.map_mergeSigma_lowerFrom [] text]
  constructor
  · intro h
    rw [← hmerged]
    exact h.map mergeSigma
  · intro h
    obtain ⟨piece, hpiece, heq⟩ := List.infix_map_iff.mp h
    have hascii : ∀ c ∈ piece, (mergeSigma c).toNat < 128 :=
      fun c hc => hsub _ (heq ▸ List.mem_map_of_mem hc)
    have hsame : piece.map mergeSigma = piece :=
      (List.map_congr_left (fun c hc => mergeSigma_of_ascii (hascii c hc))).trans (List.map_id' piece)
    rw [heq, hsame]
    exact hpiece

/-- An ASCII pattern found after lower-casing is found in every longer text. -/
theorem contains_lower_of_infix {sub text text' : Text} (hsub : ∀ c ∈ sub, c.toNat < 128)
    (h : Text.Contains sub (D.lower text)) (hin : text <:+: text') :
    Text.Contains sub (D.lower text') := by
  rw [D.contains_lower_iff hsub] at h ⊢
  obtain ⟨before, after, rfl⟩ := hin
  rw [List.flatMap_append, List.flatMap_append]
  exact h.trans ⟨_, _, rfl⟩

end CaseData

/-- ASCII lower-casing only: enough for a text without other letters. -/
def asciiCaseData : CaseData := ⟨fun c => [c], Char.isAlpha, fun c => c == '\'' || c == '.'⟩
