import Aegis.Lib.Buffer
import Aegis.Lib.Text
import Mathlib.Algebra.Order.Ring.Int

/-! The byte-level front end of the model, `onnx_engine.cpp`. -/
namespace Aegis.Inference

def maxLen : ℕ := 512

/-- The two output vectors. -/
@[ext] structure Encoding where
  ids : List ℤ := []
  mask : List ℤ := []
  deriving DecidableEq

/-- `ids[i] = id; mask[i] = 1`. -/
def Encoding.put (e : Encoding) (i : ℤ) (id : ℤ) : Option Encoding := do
  let ids ← Buffer.write e.ids i id
  let mask ← Buffer.write e.mask i 1
  return ⟨ids, mask⟩

namespace ONNXEngine

/-- The loop over the payload, `n` rounds from index `i` on. -/
def fillFrom (payload : Bytes) : ℕ → ℕ → Encoding → Option Encoding
  | 0, _, e => some e
  | n + 1, i, e => do
    let byte ← payload[i]?
    let e ← e.put (i + 1) (byte.toNat + 3)
    fillFrom payload n (i + 1) e

/-- Every byte value plus three is a token (0 = PAD, 1 = CLS, 2 = SEP). There is no
result when an index leaves its vector. -/
def tokenize (payload : Bytes) (out : Encoding) : Option Encoding := do
  let e : Encoding := ⟨Buffer.resize out.ids maxLen 0, Buffer.resize out.mask maxLen 0⟩
  let e ← e.put 0 1
  -- `(int)payload.size()` keeps the low 32 bits
  let fill := min (Int.bmod payload.length (2 ^ 32)) (maxLen - 2)
  let e ← fillFrom payload fill.toNat 0 e
  let sepPos := fill + 1
  if sepPos < maxLen then e.put sepPos 2 else some e

/-- The vectors after `[CLS]` and the first bytes. -/
def filled (bytes : Bytes) : Encoding where
  ids := 1 :: bytes.map (fun b => (b.toNat : ℤ) + 3) ++ List.replicate (511 - bytes.length) 0
  mask := List.replicate (bytes.length + 1) 1 ++ List.replicate (511 - bytes.length) 0

/-- The finished vectors: `[CLS]`, the bytes, `[SEP]` and the padding. -/
def framed (bytes : Bytes) : Encoding where
  ids := 1 :: bytes.map (fun b => (b.toNat : ℤ) + 3) ++ [2] ++
    List.replicate (510 - bytes.length) 0
  mask := List.replicate (bytes.length + 2) 1 ++ List.replicate (510 - bytes.length) 0

theorem put_filled {bytes : Bytes} (h : bytes.length ≤ 510) (id : ℤ) :
    (filled bytes).put (bytes.length + 1) id = some
      ⟨1 :: bytes.map (fun b => (b.toNat : ℤ) + 3) ++ [id] ++ List.replicate (510 - bytes.length) 0,
        List.replicate (bytes.length + 2) 1 ++ List.replicate (510 - bytes.length) 0⟩ := by
  have hpad : 511 - bytes.length = 510 - bytes.length + 1 := by omega
  have hids : (1 :: bytes.map (fun b => (b.toNat : ℤ) + 3)).length = bytes.length + 1 := by simp
  have hmask : (List.replicate (bytes.length + 1) (1 : ℤ)).length = bytes.length + 1 := by simp
  have hone : List.replicate (bytes.length + 1) (1 : ℤ) ++ [1] =
      List.replicate (bytes.length + 2) 1 := List.replicate_succ'.symm
  have hwids := Buffer.write_padding (n := 510 - bytes.length) hids id 0
  have hwmask := Buffer.write_padding (n := 510 - bytes.length) hmask (1 : ℤ) 0
  push_cast at hwids hwmask
  unfold Encoding.put filled
  simp only [hpad, hwids, hwmask, hone]
  rfl

theorem put_byte {bytes : Bytes} {b : UInt8} (h : bytes.length < 510) :
    (filled bytes).put (bytes.length + 1) (b.toNat + 3) = some (filled (bytes ++ [b])) := by
  rw [put_filled h.le, filled]
  have hpad : 511 - (bytes ++ [b]).length = 510 - bytes.length := by
    rw [List.length_append, List.length_singleton]
    omega
  rw [hpad, List.map_append, List.length_append, List.length_singleton]
  rfl

/-- The loop moves the bytes in order and stays inside the vectors. -/
theorem fillFrom_filled {payload : Bytes} {n i : ℕ} (hlen : i + n ≤ payload.length)
    (hcap : i + n ≤ 510) :
    fillFrom payload n i (filled (payload.take i)) = some (filled (payload.take (i + n))) := by
  induction n generalizing i with
  | zero => rfl
  | succ n ih =>
    have hi : i < payload.length := by omega
    have htake : (payload.take i).length = i := by
      rw [List.length_take]
      omega
    have hput := @put_byte (payload.take i) payload[i] (by omega)
    rw [htake, ← List.take_succ_eq_append_getElem hi] at hput
    rw [fillFrom, List.getElem?_eq_getElem hi]
    simp only [Option.bind_eq_bind, Option.bind_some]
    rw [hput, Option.bind_some, ih (by omega) (by omega)]
    congr 3
    omega

theorem tokenize_fresh {payload : Bytes} (h : payload.length < 2 ^ 31) :
    tokenize payload {} = some (framed (payload.take 510)) := by
  have hsize : Int.bmod payload.length (2 ^ 32) = payload.length := by
    apply Int.bmod_eq_of_le <;> omega
  have hstart : Encoding.put ⟨Buffer.resize [] maxLen 0, Buffer.resize [] maxLen 0⟩ 0 1 =
      some (filled []) := by
    have hwrite : Buffer.write (List.replicate 512 (0 : ℤ)) 0 1 =
        some (1 :: List.replicate 511 0) := @Buffer.write_padding ℤ [] 0 511 rfl 1 0
    unfold Encoding.put
    simp only [Buffer.resize_nil, maxLen]
    rw [hwrite]
    rfl
  have hfill : min (payload.length : ℤ) (maxLen - 2) = (payload.take 510).length := by
    rw [List.length_take, maxLen]
    omega
  have hcap : (payload.take 510).length ≤ 510 := List.length_take_le _ _
  have hloop := @fillFrom_filled payload (payload.take 510).length 0
    (by rw [List.length_take]; omega) (by omega)
  have htake : payload.take (0 + (payload.take 510).length) = payload.take 510 := by
    rw [Nat.zero_add, List.length_take, List.take_eq_take_iff]
    omega
  have hsep : ((payload.take 510).length : ℤ) + 1 < maxLen := by
    rw [maxLen]
    omega
  rw [List.take_zero, htake] at hloop
  unfold tokenize
  simp only [hsize, hstart, hfill, Int.toNat_natCast, Option.bind_eq_bind, Option.bind_some,
    hloop, if_pos hsep]
  exact put_filled hcap 2

theorem framed_length {bytes : Bytes} (h : bytes.length ≤ 510) :
    (framed bytes).ids.length = maxLen ∧ (framed bytes).mask.length = maxLen := by
  unfold framed maxLen
  constructor
  · simp only [List.length_append, List.length_cons, List.length_map, List.length_replicate,
      List.length_nil]
    omega
  · simp only [List.length_append, List.length_replicate]
    omega

end ONNXEngine

end Aegis.Inference
