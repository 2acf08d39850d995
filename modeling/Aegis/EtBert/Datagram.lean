import Aegis.Lib.Text
import Mathlib.Data.List.Basic

/-! Datagrams as texts, `data_process/dataset_generation.py`: the bytes in hexadecimal and
a word for each pair of neighbours. -/
namespace Aegis.EtBert

def hexDigits : List Char := "0123456789abcdef".toList

def hexByte (b : UInt8) : Text := [hexDigits.getD (b.toNat / 16) '0', hexDigits.getD (b.toNat % 16) '0']

/-- `binascii.hexlify(..).decode()`. -/
def hexlify (p : Bytes) : Text := p.flatMap hexByte

/-- `[obj[i:i+sec] for i in range(0, len(obj), sec)]`; the fuel is the length of the object. -/
def slices (sec : ℕ) : ℕ → Text → List Text
  | 0, _ => []
  | _, [] => []
  | fuel + 1, obj => obj.take sec :: slices sec fuel (obj.drop sec)

/-- `cut`. A step of 0 raises a `ValueError`. -/
def cut (obj : Text) (sec : ℕ) : Option (List Text) :=
  if sec = 0 then none
  else
    let result := slices sec obj.length obj
    -- of an empty object there is no first slice
    let remanentCount := (result.head?.map (fun slice => slice.length % 4)).getD 0
    if remanentCount = 0 then some result
    else some (slices (sec + remanentCount) obj.length obj)

/-- The loop over the slices: each with its successor, as long as the count allows. -/
def bigrams (packetLen : ℕ) : ℕ → List Text → Text
  | tokenCount, a :: b :: rest =>
    let tokenCount := tokenCount + 1
    if packetLen < tokenCount then []
    else a ++ b ++ ' ' :: bigrams packetLen tokenCount (b :: rest)
  | _, _ => []

def bigramGeneration (packetDatagram : Text) (packetLen : ℕ) : Text :=
  bigrams packetLen 0 ((cut packetDatagram 1).getD [])

/-- `get_feature_packet`, on the bytes of the packets of a capture: the first packet, from
its byte 38 on. -/
def getFeaturePacket (packets : List Bytes) (payloadLen : ℕ) : Text :=
  match packets with
  | [] => []
  | packet :: _ => bigramGeneration ((hexlify packet).drop 76) payloadLen

/-! Slices. -/

theorem slices_nil (sec fuel : ℕ) : slices sec fuel [] = [] := by
  cases fuel <;> rfl

theorem slices_succ {sec fuel : ℕ} {obj : Text} (hne : obj ≠ []) :
    slices sec (fuel + 1) obj = obj.take sec :: slices sec fuel (obj.drop sec) := by
  cases obj with
  | nil => exact absurd rfl hne
  | cons c obj => rfl

theorem slices_one {sec fuel : ℕ} {obj : Text} (hne : obj ≠ []) (hlen : obj.length ≤ sec) :
    slices sec (fuel + 1) obj = [obj] := by
  rw [slices_succ hne, List.take_of_length_le hlen, List.drop_of_length_le hlen, slices_nil]

theorem slices_two {sec fuel : ℕ} {obj : Text} (hlong : sec < obj.length)
    (hlen : obj.length ≤ 2 * sec) : slices sec (fuel + 2) obj = [obj.take sec, obj.drop sec] := by
  have hne : obj ≠ [] := List.ne_nil_of_length_pos (by omega)
  have hrest : obj.drop sec ≠ [] := List.ne_nil_of_length_pos (by rw [List.length_drop]; omega)
  rw [slices_succ hne, slices_one hrest (by rw [List.length_drop]; omega)]

theorem length_hexlify (p : Bytes) : (hexlify p).length = 2 * p.length := by
  induction p with
  | nil => rfl
  | cons b p ih =>
    rw [hexlify, List.flatMap_cons, List.length_append]
    show 2 + (hexlify p).length = _
    rw [ih, List.length_cons]
    omega

theorem drop_hexlify (p : Bytes) (n : ℕ) : (hexlify p).drop (2 * n) = hexlify (p.drop n) := by
  induction n generalizing p with
  | zero => rfl
  | succ n ih =>
    cases p with
    | nil => simp [hexlify]
    | cons b p =>
      have htwo : 2 * (n + 1) = 2 * n + 2 := by omega
      rw [htwo]
      exact ih p

theorem take_hexlify (p : Bytes) (n : ℕ) : (hexlify p).take (2 * n) = hexlify (p.take n) := by
  induction n generalizing p with
  | zero => rfl
  | succ n ih =>
    cases p with
    | nil => simp [hexlify]
    | cons b p =>
      have htwo : 2 * (n + 1) = 2 * n + 2 := by omega
      rw [htwo]
      show hexByte b ++ (hexlify p).take (2 * n) = hexByte b ++ hexlify (p.take n)
      rw [ih]

theorem hexlify_append (p q : Bytes) : hexlify (p ++ q) = hexlify p ++ hexlify q := List.flatMap_append

/-- In steps of two the digits come byte by byte. -/
theorem slices_hexlify (p : Bytes) {fuel : ℕ} (hfuel : 2 * p.length ≤ fuel) :
    slices 2 fuel (hexlify p) = p.map hexByte := by
  induction p generalizing fuel with
  | nil => cases fuel <;> rfl
  | cons b p ih =>
    rw [List.length_cons] at hfuel
    cases fuel with
    | zero => omega
    | succ fuel =>
      show hexByte b :: slices 2 fuel (hexlify p) = _
      rw [ih (by omega)]
      rfl

/-- A step of one becomes a step of two, as a slice of one character leaves a rest of one. -/
theorem cut_hexlify (p : Bytes) : cut (hexlify p) 1 = some (p.map hexByte) := by
  cases p with
  | nil => rfl
  | cons b p =>
    have hrem : ((slices 1 (hexlify (b :: p)).length (hexlify (b :: p))).head?.map
        (fun slice => slice.length % 4)).getD 0 = 1 := rfl
    unfold cut
    rw [if_neg Nat.one_ne_zero]
    dsimp only
    rw [hrem, if_neg Nat.one_ne_zero, slices_hexlify _ (length_hexlify _).ge]

/-! Bigrams. -/

/-- The pairs of neighbours. -/
def windows (p : Bytes) : List (UInt8 × UInt8) := p.zip p.tail

def windowWord (w : UInt8 × UInt8) : Text := hexByte w.1 ++ hexByte w.2

theorem bigrams_hex (p : Bytes) (packetLen tokenCount : ℕ) :
    bigrams packetLen tokenCount (p.map hexByte) =
      ((windows p).take (packetLen - tokenCount)).flatMap (fun w => windowWord w ++ [' ']) := by
  induction p generalizing tokenCount with
  | nil => simp [bigrams, windows]
  | cons a p ih =>
    cases p with
    | nil => simp [bigrams, windows]
    | cons b p =>
      have hwindows : windows (a :: b :: p) = (a, b) :: windows (b :: p) := rfl
      rw [List.map_cons, List.map_cons, bigrams, ← List.map_cons, ih, hwindows]
      split_ifs with hlt
      · have hzero : packetLen - tokenCount = 0 := by omega
        rw [hzero, List.take_zero, List.flatMap_nil]
      · have hsucc : packetLen - tokenCount = packetLen - (tokenCount + 1) + 1 := by omega
        rw [hsucc, List.take_succ_cons, List.flatMap_cons]
        simp [windowWord]

/-- The text of a packet: a word for each of its first pairs of neighbours. -/
theorem bigramGeneration_hexlify (p : Bytes) (packetLen : ℕ) :
    bigramGeneration (hexlify p) packetLen =
      ((windows p).take packetLen).flatMap (fun w => windowWord w ++ [' ']) := by
  rw [bigramGeneration, cut_hexlify, Option.getD_some, bigrams_hex, Nat.sub_zero]

end Aegis.EtBert
