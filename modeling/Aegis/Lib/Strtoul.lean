import Aegis.Lib.Fields
import Aegis.Lib.Printf

/-! `strtoull` in base ten, and numbers read back after they were printed. -/
namespace Strtoul

def isDigit (b : UInt8) : Bool := 48 ≤ b && b ≤ 57

/-- The number a string of decimal digits denotes. -/
def digitsValue (s : Bytes) : ℕ := Nat.ofDigits 10 (s.reverse.map Printf.digitValue)

/-- The digits in front; none, or a number past 64 bits, is an exception of `std::stoull`. -/
def magnitude (s : Bytes) : Option ℕ :=
  let digits := s.takeWhile isDigit
  if digits = [] then none
  else if digitsValue digits < 2 ^ 64 then some (digitsValue digits)
  else none

/-- `std::stoull`: blanks and a sign may come first, and a minus sign wraps around. -/
def stoull (s : Bytes) : Option ℕ :=
  match s.dropWhile Fields.isSpace with
  | 45 :: rest => (magnitude rest).map fun n => (2 ^ 64 - n) % 2 ^ 64
  | 43 :: rest => magnitude rest
  | rest => magnitude rest

theorem decimal_ne_nil (n : ℕ) : Printf.decimal n ≠ [] := Printf.number_ne_nil 10 n

theorem isDigit_of_mem_decimal {n : ℕ} {b : UInt8} (h : b ∈ Printf.decimal n) : isDigit b = true := by
  obtain ⟨hlow, hhigh⟩ := Printf.decimal_digits n b h
  unfold isDigit
  rw [decide_eq_true hlow, decide_eq_true hhigh]
  rfl

theorem digitsValue_decimal (n : ℕ) : digitsValue (Printf.decimal n) = n :=
  Printf.ofDigits_number (by decide) (by decide) n

theorem takeWhile_decimal_append (n : ℕ) {rest : Bytes} (h : ∀ b ∈ rest.head?, isDigit b = false) :
    (Printf.decimal n ++ rest).takeWhile isDigit = Printf.decimal n := by
  have hstop : rest.takeWhile isDigit = [] := by
    cases rest with
    | nil => rfl
    | cons b rest => rw [List.takeWhile_cons, h b rfl, if_neg Bool.false_ne_true]
  rw [List.takeWhile_append_of_pos (fun _ => isDigit_of_mem_decimal), hstop, List.append_nil]

/-- A printed number is read back, whatever follows it, unless a digit does. -/
theorem stoull_decimal_append {n : ℕ} (hn : n < 2 ^ 64) {rest : Bytes}
    (h : ∀ b ∈ rest.head?, isDigit b = false) : stoull (Printf.decimal n ++ rest) = some n := by
  have hmagnitude : magnitude (Printf.decimal n ++ rest) = some n := by
    unfold magnitude
    simp only [takeWhile_decimal_append n h, digitsValue_decimal]
    rw [if_neg (decimal_ne_nil n), if_pos hn]
  obtain ⟨b, tail, hfirst⟩ := List.exists_cons_of_ne_nil (decimal_ne_nil n)
  have hdigit : isDigit b = true := isDigit_of_mem_decimal (hfirst ▸ List.mem_cons_self)
  -- a digit is no blank and no sign
  have hother : ∀ b : UInt8, isDigit b = true → Fields.isSpace b = false ∧ b ≠ 45 ∧ b ≠ 43 :=
    forall_byte (by decide +kernel)
  obtain ⟨hspace, hminus, hplus⟩ := hother b hdigit
  rw [hfirst, List.cons_append] at hmagnitude ⊢
  unfold stoull
  rw [List.dropWhile_cons, hspace, if_neg Bool.false_ne_true]
  split
  · next heq => exact absurd (List.cons.inj heq).1 hminus
  · next heq => exact absurd (List.cons.inj heq).1 hplus
  · exact hmagnitude

theorem stoull_decimal {n : ℕ} (hn : n < 2 ^ 64) : stoull (Printf.decimal n) = some n := by
  have h : stoull (Printf.decimal n ++ []) = some n := stoull_decimal_append hn (by simp)
  rwa [List.append_nil] at h

end Strtoul
