import Aegis.Inference.Infer
import Mathlib.Data.List.TakeWhile

/-! What the tokens tell of a payload. They can be read back, and nothing is lost but
what lies behind the first 510 bytes. -/
namespace Aegis.Inference

/-- The bytes between `[CLS]` and the first `[SEP]`. -/
def detokenize (ids : List ℤ) : Bytes :=
  (ids.tail.takeWhile (fun t => t ≠ 2)).map (fun t => UInt8.ofNat (t - 3).toNat)

/-- `[CLS]`, the first 510 bytes, `[SEP]` and padding, each kind of token with ids of its
own, and a mask that ends with `[SEP]`. -/
structure Framing (payload : Bytes) (e : Encoding) : Prop where
  recovered : detokenize e.ids = payload.take 510
  cls : e.ids[0]? = some 1 ∧ e.ids.count 1 = 1
  sep : e.ids[(payload.take 510).length + 1]? = some 2 ∧ e.ids.count 2 = 1
  bytes : ∀ i < (payload.take 510).length, ∃ t, e.ids[i + 1]? = some t ∧ t ∉ [0, 1, 2]
  padding : ∀ i, (payload.take 510).length + 1 < i → i < maxLen → e.ids[i]? = some 0
  mask : ∀ i < maxLen, e.mask[i]? = some (if i ≤ (payload.take 510).length + 1 then 1 else 0)

namespace ONNXEngine

theorem framed_ids (bytes : Bytes) : (framed bytes).ids =
    1 :: (bytes.map (fun b => (b.toNat : ℤ) + 3) ++ 2 :: List.replicate (510 - bytes.length) 0) := by
  unfold framed
  rw [List.append_assoc]
  rfl

theorem three_le_token {bytes : Bytes} {t : ℤ} (h : t ∈ bytes.map (fun b => (b.toNat : ℤ) + 3)) :
    3 ≤ t := by
  obtain ⟨b, -, rfl⟩ := List.mem_map.mp h
  omega

theorem count_tokens (bytes : Bytes) {t : ℤ} (ht : t < 3) :
    (bytes.map (fun b => (b.toNat : ℤ) + 3)).count t = 0 := by
  rw [List.count_eq_zero]
  intro hmem
  have hle := three_le_token hmem
  omega

/-- Among the bytes of the payload there is no special token. -/
theorem framed_ids_count (bytes : Bytes) {t : ℤ} (ht : t < 3) :
    (framed bytes).ids.count t =
      [1, 2].count t + (List.replicate (510 - bytes.length) 0).count t := by
  rw [framed_ids, List.count_cons, List.count_append, count_tokens _ ht, List.count_cons,
    List.count_cons, List.count_cons, List.count_nil]
  omega

theorem detokenize_framed (bytes : Bytes) : detokenize (framed bytes).ids = bytes := by
  have htokens : ∀ t ∈ bytes.map (fun b => (b.toNat : ℤ) + 3), decide (t ≠ 2) = true := by
    intro t ht
    have hle := three_le_token ht
    rw [decide_eq_true_iff]
    omega
  have hstop : (2 :: List.replicate (510 - bytes.length) (0 : ℤ)).takeWhile
      (fun t => decide (t ≠ 2)) = [] := rfl
  have hbyte : ∀ b : UInt8, UInt8.ofNat ((b.toNat : ℤ) + 3 - 3).toNat = b := by
    intro b
    rw [add_sub_cancel_right, Int.toNat_natCast, UInt8.ofNat_toNat]
  unfold detokenize
  rw [framed_ids, List.tail_cons, List.takeWhile_append_of_pos htokens, hstop, List.append_nil,
    List.map_map]
  conv_rhs => rw [← List.map_id bytes]
  exact List.map_congr_left (fun b _ => hbyte b)

theorem framed_injective {bytes bytes' : Bytes} (h : framed bytes = framed bytes') :
    bytes = bytes' := by
  rw [← detokenize_framed bytes, h, detokenize_framed]

theorem framed_mask_getElem? {bytes : Bytes} (h : bytes.length ≤ 510) {i : ℕ} (hi : i < maxLen) :
    (framed bytes).mask[i]? = some (if i ≤ bytes.length + 1 then 1 else 0) := by
  unfold maxLen at hi
  unfold framed
  by_cases hin : i ≤ bytes.length + 1
  · rw [List.getElem?_append_left (by rw [List.length_replicate]; omega), List.getElem?_replicate,
      if_pos (by omega), if_pos hin]
  · rw [List.getElem?_append_right (by rw [List.length_replicate]; omega), List.getElem?_replicate,
      List.length_replicate, if_pos (by omega), if_neg hin]

theorem framed_ids_padding {bytes : Bytes} {i : ℕ} (hlow : bytes.length + 1 < i) (hi : i < maxLen) :
    (framed bytes).ids[i]? = some 0 := by
  unfold maxLen at hi
  obtain ⟨j, rfl⟩ : ∃ j, i = bytes.length + 1 + j + 1 := ⟨i - bytes.length - 2, by omega⟩
  have hright : (bytes.map (fun b => (b.toNat : ℤ) + 3)).length ≤ bytes.length + 1 + j := by
    rw [List.length_map]
    omega
  have hshift : bytes.length + 1 + j - bytes.length = j + 1 := by omega
  rw [framed_ids, List.getElem?_cons_succ, List.getElem?_append_right hright, List.length_map, hshift,
    List.getElem?_cons_succ, List.getElem?_replicate, if_pos (by omega)]

theorem framing_framed (payload : Bytes) : Framing payload (framed (payload.take 510)) := by
  have hcap : (payload.take 510).length ≤ 510 := List.length_take_le _ _
  refine ⟨detokenize_framed _, ⟨?_, ?_⟩, ⟨framed_ids_sep _, ?_⟩, ?_, ?_, ?_⟩
  · rw [framed_ids]
    rfl
  · rw [framed_ids_count _ (by decide), List.count_replicate]
    rfl
  · rw [framed_ids_count _ (by decide), List.count_replicate]
    rfl
  · intro i hi
    refine ⟨_, framed_ids_byte (List.getElem?_eq_getElem hi), ?_⟩
    simp only [List.mem_cons, List.not_mem_nil, or_false]
    omega
  · exact fun i hlow hi => framed_ids_padding hlow hi
  · exact fun i hi => framed_mask_getElem? hcap hi

/-- The tokens of a payload determine its first 510 bytes and nothing else. -/
theorem tokenize_eq_iff (p q : Bytes) (hp : p.length < 2 ^ 31) (hq : q.length < 2 ^ 31) :
    ∃ e f, tokenize p {} = some e ∧ tokenize q {} = some f ∧ Framing p e ∧ Framing q f ∧
      (e = f ↔ p.take 510 = q.take 510) := by
  refine ⟨_, _, tokenize_fresh hp, tokenize_fresh hq, framing_framed p, framing_framed q, ?_⟩
  exact ⟨framed_injective, fun h => by rw [h]⟩

/-- The 511th byte of a payload makes no difference. -/
theorem tokenize_eq_sample :
    tokenize (List.replicate 511 0x41) {} = tokenize (List.replicate 510 0x41) {} := by
  have hlong : (List.replicate 511 (0x41 : UInt8)).length < 2 ^ 31 := by
    rw [List.length_replicate]
    decide
  have hshort : (List.replicate 510 (0x41 : UInt8)).length < 2 ^ 31 := by
    rw [List.length_replicate]
    decide
  obtain ⟨e, f, he, hf, -, -, hiff⟩ := tokenize_eq_iff _ _ hlong hshort
  have hsame : e = f := by
    rw [hiff, List.take_replicate, List.take_replicate]
    rfl
  rw [he, hf, hsame]

end ONNXEngine

end Aegis.Inference
