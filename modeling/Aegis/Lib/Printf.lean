import Aegis.Lib.Text
import Mathlib.Data.Nat.Digits.Lemmas

/-! The integer conversions of `printf`: `%u`, `%d` and `%X` with a minimum width. -/
namespace Printf

/-- An upper-case digit. -/
def digitByte (d : ℕ) : UInt8 := if d < 10 then UInt8.ofNat (48 + d) else UInt8.ofNat (55 + d)

/-- The digits of a number, most significant first; zero has one digit. -/
def number (base n : ℕ) : Bytes :=
  if n = 0 then [digitByte 0] else (Nat.digits base n).reverse.map digitByte

/-- `%u`. -/
def decimal (n : ℕ) : Bytes := number 10 n

/-- `%d`. -/
def signed (z : ℤ) : Bytes := if z < 0 then ascii "-" ++ decimal z.natAbs else decimal z.natAbs

/-- `%0wX`. -/
def hex (width n : ℕ) : Bytes := (number 16 n).leftpad width (digitByte 0)

/-- A field of minimum width, padded with blanks on the left. -/
def padded (width : ℕ) (field : Bytes) : Bytes := field.leftpad width 32

/-- What a printed digit can be: a decimal digit or one of `A` to `F`. -/
def IsHexDigit (b : UInt8) : Prop := (48 ≤ b ∧ b ≤ 57) ∨ (65 ≤ b ∧ b ≤ 70)

instance : DecidablePred IsHexDigit := fun b => by unfold IsHexDigit; infer_instance

theorem isHexDigit_digitByte : ∀ d < 16, IsHexDigit (digitByte d) := by decide

/-- What all digits have, every byte of a number has. -/
theorem forall_number {P : UInt8 → Prop} {base : ℕ} (hb : 1 < base) (h : ∀ d < base, P (digitByte d))
    (n : ℕ) : ∀ b ∈ number base n, P b := by
  unfold number
  split_ifs
  · intro b hmem
    rw [List.mem_singleton.mp hmem]
    exact h 0 (by omega)
  · intro b hmem
    obtain ⟨d, hd, rfl⟩ := List.mem_map.mp hmem
    have hlt : d < base := Nat.digits_lt_base hb (List.mem_reverse.mp hd)
    exact h d hlt

theorem isHexDigit_number {base : ℕ} (hb : 1 < base) (hb' : base ≤ 16) (n : ℕ) :
    ∀ b ∈ number base n, IsHexDigit b := by
  have hdigit : ∀ d < base, IsHexDigit (digitByte d) := by
    intro d hd
    exact isHexDigit_digitByte d (by omega)
  exact forall_number hb hdigit n

theorem decimal_digits (n : ℕ) : ∀ b ∈ decimal n, 48 ≤ b ∧ b ≤ 57 := by
  have hdigit : ∀ d < 10, 48 ≤ digitByte d ∧ digitByte d ≤ 57 := by decide
  exact forall_number (by decide) hdigit n

theorem isHexDigit_hex (width n : ℕ) : ∀ b ∈ hex width n, IsHexDigit b := by
  intro b hb
  rw [hex, List.leftpad, List.mem_append, List.mem_replicate] at hb
  rcases hb with ⟨-, rfl⟩ | hb
  · exact isHexDigit_digitByte 0 (by decide)
  · exact isHexDigit_number (by decide) le_rfl n b hb

/-- `%p`: sixteen digits in lower case. -/
def pointer (n : ℕ) : Bytes :=
  ((number 16 n).map (fun b => if b < 65 then b else b + 32)).leftpad 16 (digitByte 0)

/-! What a conversion prints is visible, and none of it is a colon. -/

/-- No blank, no control character and no colon. -/
def Plain (s : Bytes) : Prop := ∀ b ∈ s, 32 < b ∧ b ≠ 58

theorem Plain.append {s t : Bytes} (hs : Plain s) (ht : Plain t) : Plain (s ++ t) := by
  intro b hb
  rcases List.mem_append.mp hb with h | h
  · exact hs b h
  · exact ht b h

theorem plain_of_isHexDigit {s : Bytes} (h : ∀ b ∈ s, IsHexDigit b) : Plain s := by
  have hdigit : ∀ b, IsHexDigit b → 32 < b ∧ b ≠ 58 := forall_byte (by decide +kernel)
  exact fun b hb => hdigit b (h b hb)

theorem plain_hex (width n : ℕ) : Plain (hex width n) := plain_of_isHexDigit (isHexDigit_hex width n)

theorem plain_decimal (n : ℕ) : Plain (decimal n) :=
  plain_of_isHexDigit (isHexDigit_number (by decide) (by decide) n)

theorem plain_signed (z : ℤ) : Plain (signed z) := by
  unfold signed
  split_ifs
  · refine Plain.append ?_ (plain_decimal _)
    intro b hb
    have hminus : b = 45 := List.mem_singleton.mp hb
    rw [hminus]
    decide
  · exact plain_decimal _

theorem plain_pointer (n : ℕ) : Plain (pointer n) := by
  have hlower : ∀ b : UInt8, IsHexDigit b → 32 < (if b < 65 then b else b + 32) ∧
      (if b < 65 then b else b + 32) ≠ 58 := forall_byte (by decide +kernel)
  intro b hb
  rw [pointer, List.leftpad, List.mem_append, List.mem_replicate, List.mem_map] at hb
  rcases hb with ⟨-, rfl⟩ | ⟨c, hc, rfl⟩
  · decide
  · exact hlower c (isHexDigit_number (by decide) le_rfl n c hc)

/-! The width of a field. -/

theorem le_length_hex (width n : ℕ) : width ≤ (hex width n).length := by
  unfold hex
  rw [List.length_leftpad]
  exact le_max_left _ _

theorem length_number_le {n width : ℕ} (hw : 0 < width) (h : n < 16 ^ width) :
    (number 16 n).length ≤ width := by
  unfold number
  split_ifs with hn
  · exact hw
  · rw [List.length_map, List.length_reverse]
    exact (Nat.digits_length_le_iff (by decide) n).mpr h

theorem length_hex {n width : ℕ} (hw : 0 < width) (h : n < 16 ^ width) :
    (hex width n).length = width := by
  have hle := length_number_le hw h
  unfold hex
  rw [List.length_leftpad]
  exact max_eq_left hle

def digitValue (b : UInt8) : ℕ := if b < 58 then b.toNat - 48 else b.toNat - 55

/-- The number a digit string denotes. -/
def value (s : Bytes) : ℕ := Nat.ofDigits 16 (s.reverse.map digitValue)

theorem digitValue_digitByte : ∀ d < 16, digitValue (digitByte d) = d := by decide

theorem ofDigits_number {base : ℕ} (hb : 1 < base) (hb' : base ≤ 16) (n : ℕ) :
    Nat.ofDigits base ((number base n).reverse.map digitValue) = n := by
  unfold number
  split_ifs with hn
  · have hzero : digitValue (digitByte 0) = 0 := by decide
    simp [hn, hzero]
  · have hback : (Nat.digits base n).map (digitValue ∘ digitByte) = Nat.digits base n := by
      rw [List.map_congr_left (g := id) (fun d hd => ?_), List.map_id]
      have hlt : d < base := Nat.digits_lt_base hb hd
      exact digitValue_digitByte d (by omega)
    rw [← List.map_reverse, List.reverse_reverse, List.map_map, hback, Nat.ofDigits_digits]

theorem number_injective {base : ℕ} (hb : 1 < base) (hb' : base ≤ 16) :
    Function.Injective (number base) := by
  intro m n h
  rw [← ofDigits_number hb hb' m, h, ofDigits_number hb hb']

/-- A number reads the same with and without a sign only where they are equal. -/
theorem signed_eq_decimal_iff {z : ℤ} {n : ℕ} : signed z = decimal n ↔ z = n := by
  unfold signed
  split_ifs with hneg
  · have hminus : (45 : UInt8) ∉ decimal n := by
      intro hmem
      exact absurd (decimal_digits n 45 hmem).1 (by decide)
    refine iff_of_false (fun h => hminus ?_) (by omega)
    rw [← h]
    exact List.mem_append_left _ (by decide)
  · have hinj : Function.Injective (number 10) := number_injective (by decide) (by decide)
    rw [decimal, decimal, hinj.eq_iff]
    omega

theorem value_hex (width n : ℕ) : value (hex width n) = n := by
  have hzero : digitValue (digitByte 0) = 0 := by decide
  unfold value hex List.leftpad
  rw [List.reverse_append, List.map_append, List.reverse_replicate, List.map_replicate, hzero,
    Nat.ofDigits_append, Nat.ofDigits_replicate_zero, ofDigits_number (by decide) (by decide)]
  simp

theorem hex_injective (width : ℕ) : Function.Injective (hex width) := by
  intro m n h
  rw [← value_hex width m, h, value_hex]

theorem decimal_digit {d : ℕ} (hd : d < 10) : decimal d = [digitByte d] := by
  have hall : ∀ n < 10, decimal n = [digitByte n] := by decide
  exact hall d hd

theorem decimal_snoc {n d : ℕ} (hn : 0 < n) (hd : d < 10) :
    decimal (10 * n + d) = decimal n ++ [digitByte d] := by
  have hdigits : Nat.digits 10 (10 * n + d) = d :: Nat.digits 10 n := by
    rw [add_comm]
    exact Nat.digits_add 10 (by decide) d n hd (Or.inr (by omega))
  unfold decimal number
  rw [if_neg (by omega), if_neg (by omega), hdigits]
  simp

theorem number_ne_nil (base n : ℕ) : number base n ≠ [] := by
  unfold number
  split_ifs with h
  · exact List.cons_ne_nil _ _
  · simpa [Nat.digits_ne_nil_iff_ne_zero] using h

theorem hex_ne_nil {width : ℕ} (hw : 0 < width) (n : ℕ) : hex width n ≠ [] := by
  have hle := le_length_hex width n
  exact List.ne_nil_of_length_pos (by omega)

theorem signed_ne_nil (z : ℤ) : signed z ≠ [] := by
  unfold signed
  split_ifs
  · exact List.append_ne_nil_of_right_ne_nil _ (number_ne_nil 10 _)
  · exact number_ne_nil 10 _

theorem pointer_ne_nil (n : ℕ) : pointer n ≠ [] := by
  unfold pointer
  apply List.ne_nil_of_length_pos
  rw [List.length_leftpad]
  omega

end Printf
