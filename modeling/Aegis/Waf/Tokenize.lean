import Aegis.Inference.OnnxEngine

/-! The WAF's front end, `_tokenize` of `waf_proxy.py`, and its agreement with the
probe's. -/
namespace Aegis.Waf

open Aegis.Inference

/-- `_tokenize`; `max_len` is always left at its default. -/
def tokenize (text : Text) : Encoding :=
  let raw := Text.encode text
  let ids := [1] ++ (raw.take (maxLen - 2)).map (fun b => (b.toNat : ℤ) + 3) ++ [2]
  let mask := List.replicate ids.length 1
  ⟨ids ++ List.replicate (maxLen - ids.length) 0, mask ++ List.replicate (maxLen - mask.length) 0⟩

theorem tokenize_eq_framed (text : Text) :
    tokenize text = ONNXEngine.framed ((Text.encode text).take 510) := by
  have hlen : ([1] ++ ((Text.encode text).take 510).map (fun b : UInt8 => (b.toNat : ℤ) + 3) ++
      [2]).length = ((Text.encode text).take 510).length + 2 := by simp
  have hpad : maxLen - (((Text.encode text).take 510).length + 2) =
      510 - ((Text.encode text).take 510).length := by
    rw [maxLen]
    omega
  unfold tokenize
  simp only [show maxLen - 2 = 510 from rfl, hlen, hpad, List.length_replicate]
  rfl

/-- On every payload the probe's writes stay inside its vectors and make 512 ids and
512 mask entries, and the WAF makes the same of every text with that encoding. -/
theorem tokenizers_agree (payload : Bytes) (hsize : payload.length < 2 ^ 31) :
    ∃ e, ONNXEngine.tokenize payload {} = some e ∧ e.ids.length = 512 ∧ e.mask.length = 512 ∧
      ∀ text, Text.encode text = payload → tokenize text = e := by
  have hcap : (payload.take 510).length ≤ 510 := List.length_take_le _ _
  obtain ⟨hids, hmask⟩ := ONNXEngine.framed_length hcap
  refine ⟨_, ONNXEngine.tokenize_fresh hsize, hids, hmask, ?_⟩
  intro text hutf8
  rw [tokenize_eq_framed, hutf8]

/-- A letter of two bytes: the probe writes the tokens the WAF writes. -/
theorem tokenizers_agree_sample :
    ONNXEngine.tokenize [0xC3, 0xA9] {} = some (tokenize ['é']) ∧
      (tokenize ['é']).ids.take 4 = [1, 198, 172, 2] := by
  obtain ⟨e, he, -, -, htext⟩ := tokenizers_agree [0xC3, 0xA9] (by decide)
  rw [htext ['é'] (by decide)]
  refine ⟨he, ?_⟩
  rw [← htext ['é'] (by decide)]
  rfl

end Aegis.Waf
