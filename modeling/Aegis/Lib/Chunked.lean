import Aegis.Lib.Printf
import Mathlib.Data.List.TakeWhile

/-! The chunked coding of a message body: pieces with their sizes in hexadecimal, and an
empty piece at the end. -/
namespace Chunked

def crlf : Bytes := [13, 10]

def lowerDigit (b : UInt8) : UInt8 := if 65 ≤ b ∧ b ≤ 70 then b + 32 else b

/-- `{:x}`. -/
def hexSize (n : ℕ) : Bytes := (Printf.number 16 n).map lowerDigit

def isHexDigit (b : UInt8) : Bool :=
  (48 ≤ b && b ≤ 57) || (65 ≤ b && b ≤ 70) || (97 ≤ b && b ≤ 102)

def digitValue (b : UInt8) : ℕ := if 97 ≤ b then b.toNat - 87 else Printf.digitValue b

/-- A size as a reader takes it, in digits of either case. -/
def readSize (s : Bytes) : Option ℕ :=
  if s ≠ [] ∧ s.all isHexDigit then some (Nat.ofDigits 16 (s.reverse.map digitValue)) else none

/-- A piece; an empty one would end the body. -/
def chunk (piece : Bytes) : Bytes := hexSize piece.length ++ crlf ++ piece ++ crlf

/-- The piece at the front and what follows it, once all of it is there. -/
def readChunk (s : Bytes) : Option (Bytes × Bytes) :=
  match readSize (s.takeWhile (· ≠ 13)), s.dropWhile (· ≠ 13) with
  | some size, 13 :: 10 :: rest =>
    match rest.drop size with
    | 13 :: 10 :: more => some (rest.take size, more)
    | _ => none
  | _, _ => none

/-- The body so far, from at most `fuel` pieces, and what follows the body if it has ended. -/
def decode : ℕ → Bytes → Bytes × Option Bytes
  | 0, _ => ([], none)
  | fuel + 1, s =>
    match readChunk s with
    | none => ([], none)
    | some ([], rest) => ([], some rest)
    | some (piece, rest) => (piece ++ (decode fuel rest).1, (decode fuel rest).2)

theorem lowerDigit_digitByte : ∀ d < 16, isHexDigit (lowerDigit (Printf.digitByte d)) = true ∧
    digitValue (lowerDigit (Printf.digitByte d)) = Printf.digitValue (Printf.digitByte d) := by decide

theorem hexDigits (n : ℕ) : ∀ b ∈ Printf.number 16 n, isHexDigit (lowerDigit b) = true ∧
    digitValue (lowerDigit b) = Printf.digitValue b :=
  Printf.forall_number (by decide) lowerDigit_digitByte n

theorem isHexDigit_hexSize (n : ℕ) : ∀ b ∈ hexSize n, isHexDigit b = true := by
  intro b hb
  obtain ⟨d, hd, rfl⟩ := List.mem_map.mp hb
  exact (hexDigits n d hd).1

theorem readSize_hexSize (n : ℕ) : readSize (hexSize n) = some n := by
  have hne : hexSize n ≠ [] := by
    intro h
    exact Printf.number_ne_nil 16 n (List.map_eq_nil_iff.mp h)
  have hall : (hexSize n).all isHexDigit = true := List.all_eq_true.mpr (isHexDigit_hexSize n)
  have hvalues : (hexSize n).reverse.map digitValue =
      (Printf.number 16 n).reverse.map Printf.digitValue := by
    unfold hexSize
    rw [← List.map_reverse, List.map_map]
    apply List.map_congr_left
    intro b hb
    exact (hexDigits n b (List.mem_reverse.mp hb)).2
  unfold readSize
  rw [if_pos ⟨hne, hall⟩, hvalues, Printf.ofDigits_number (by decide) (by decide)]

theorem readChunk_eq_some {s piece more : Bytes} (h : readChunk s = some (piece, more)) :
    ∃ size rest, readSize (s.takeWhile (· ≠ 13)) = some size ∧
      s.dropWhile (· ≠ 13) = 13 :: 10 :: rest ∧ rest.take size = piece ∧
        rest.drop size = 13 :: 10 :: more := by
  unfold readChunk at h
  split at h
  · next size rest hsize hdrop =>
    split at h
    · next more' hmore =>
      obtain ⟨rfl, rfl⟩ := Prod.mk.inj (Option.some.inj h)
      exact ⟨size, rest, hsize, hdrop, rfl, hmore⟩
    · cases h
  · cases h

/-- What is still to come changes nothing about a piece that is there. -/
theorem readChunk_append {s piece more : Bytes} (h : readChunk s = some (piece, more)) (t : Bytes) :
    readChunk (s ++ t) = some (piece, more ++ t) := by
  obtain ⟨size, rest, hsize, hdrop, htake, hmore⟩ := readChunk_eq_some h
  have hshort : ¬ ∀ b ∈ s, (decide (b ≠ 13)) = true := by
    intro hall
    rw [List.dropWhile_eq_nil_iff.mpr hall] at hdrop
    cases hdrop
  have hlength : size ≤ rest.length := by
    by_contra hlong
    rw [List.drop_eq_nil_of_le (Nat.le_of_not_le hlong)] at hmore
    cases hmore
  have hfront : (s ++ t).takeWhile (· ≠ 13) = s.takeWhile (· ≠ 13) := by
    rw [List.takeWhile_append, if_neg]
    intro hall
    exact hshort (List.takeWhile_eq_self_iff.mp ((List.takeWhile_prefix _).eq_of_length hall))
  have hback : (s ++ t).dropWhile (· ≠ 13) = 13 :: 10 :: (rest ++ t) := by
    rw [List.dropWhile_append, hdrop]
    rfl
  unfold readChunk
  rw [hfront, hsize, hback]
  simp only [List.drop_append_of_le_length hlength, hmore, List.take_append_of_le_length hlength, htake,
    List.cons_append]

/-- One piece is read back, and the reader goes on behind it. -/
theorem readChunk_chunk (piece rest : Bytes) : readChunk (chunk piece ++ rest) = some (piece, rest) := by
  have hsize : ∀ b ∈ hexSize piece.length, (decide (b ≠ 13)) = true := by
    intro b hb
    have hdigit := isHexDigit_hexSize _ b hb
    rw [decide_eq_true_iff]
    rintro rfl
    exact absurd hdigit (by decide)
  have hsplit : chunk piece ++ rest = hexSize piece.length ++ 13 :: 10 :: (piece ++ 13 :: 10 :: rest) := by
    unfold chunk crlf
    simp only [List.append_assoc, List.cons_append, List.nil_append]
  have hhead : (13 :: 10 :: (piece ++ 13 :: 10 :: rest)).takeWhile (fun b : UInt8 => decide (b ≠ 13)) = [] := rfl
  have htail : (13 :: 10 :: (piece ++ 13 :: 10 :: rest)).dropWhile (fun b : UInt8 => decide (b ≠ 13)) =
      13 :: 10 :: (piece ++ 13 :: 10 :: rest) := rfl
  unfold readChunk
  rw [hsplit, List.takeWhile_append_of_pos hsize, List.dropWhile_append_of_pos hsize, hhead,
    htail, List.append_nil, readSize_hexSize]
  simp only [List.drop_left, List.take_left]

theorem decode_chunk (fuel : ℕ) {piece : Bytes} (h : piece ≠ []) (rest : Bytes) :
    decode (fuel + 1) (chunk piece ++ rest) =
      (piece ++ (decode fuel rest).1, (decode fuel rest).2) := by
  rw [decode, readChunk_chunk]
  cases piece with
  | nil => exact absurd rfl h
  | cons b piece => rfl

theorem decode_nil (fuel : ℕ) : decode fuel [] = ([], none) := by
  cases fuel <;> rfl

/-- The pieces are read back, and the reader goes on behind them. -/
theorem decode_chunks {pieces : List Bytes} (h : ∀ piece ∈ pieces, piece ≠ []) (fuel : ℕ) (rest : Bytes) :
    decode (pieces.length + fuel) (pieces.flatMap chunk ++ rest) =
      (pieces.flatten ++ (decode fuel rest).1, (decode fuel rest).2) := by
  induction pieces with
  | nil => rw [List.length_nil, Nat.zero_add]; rfl
  | cons piece pieces ih =>
    obtain ⟨hpiece, hpieces⟩ := List.forall_mem_cons.mp h
    rw [List.length_cons, Nat.add_right_comm, List.flatMap_cons, List.append_assoc,
      decode_chunk _ hpiece, ih hpieces, List.flatten_cons, List.append_assoc]

/-- A reader that has only got a part of the stream has a part of the body. -/
theorem decode_prefix (fuel : ℕ) (s t : Bytes) : (decode fuel s).1 <+: (decode fuel (s ++ t)).1 := by
  induction fuel generalizing s with
  | zero => exact List.prefix_rfl
  | succ fuel ih =>
    rw [decode, decode]
    cases hread : readChunk s with
    | none => exact List.nil_prefix
    | some r =>
      obtain ⟨piece, rest⟩ := r
      rw [readChunk_append hread]
      cases piece with
      | nil => exact List.prefix_rfl
      | cons b piece => exact (List.prefix_append_right_inj _).mpr (ih rest)

end Chunked
