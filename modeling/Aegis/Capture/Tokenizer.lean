import Aegis.Inference.Detokenize
import Aegis.Waf.Tokenize

/-! The stand-alone tokenizer, `tokenizer.cpp`, beside the WAF's `_tokenize`. -/
namespace Aegis.Capture.Tokenizer

open Aegis.Inference

/-- The loop over the payload, from index `i` on. The offset keeps the bytes apart from
the special tokens. -/
def pushBytes : ℕ → Bytes → List ℤ → List ℤ
  | _, [], tokens => tokens
  | i, b :: rest, tokens =>
    if i < 510 then pushBytes (i + 1) rest (tokens ++ [(b.toNat : ℤ) + 200]) else tokens

/-- The padding loop. -/
def pad (tokens : List ℤ) : List ℤ :=
  if tokens.length < 512 then pad (tokens ++ [0]) else tokens
termination_by 512 - tokens.length
decreasing_by
  rw [List.length_append, List.length_singleton]
  omega

/-- `encode`, with [CLS] = 101, [SEP] = 102 and [PAD] = 0. -/
def encode (payload : Bytes) : List ℤ := pad (pushBytes 0 payload [101] ++ [102])

theorem pushBytes_eq (i : ℕ) (payload : Bytes) (tokens : List ℤ) :
    pushBytes i payload tokens =
      tokens ++ (payload.take (510 - i)).map (fun b => (b.toNat : ℤ) + 200) := by
  induction payload generalizing i tokens with
  | nil => simp [pushBytes]
  | cons b rest ih =>
    rw [pushBytes]
    split_ifs with hi
    · have hleft : 510 - i = 510 - (i + 1) + 1 := by omega
      rw [ih, hleft, List.take_succ_cons, List.map_cons, List.append_assoc]
      rfl
    · have hfull : 510 - i = 0 := by omega
      rw [hfull, List.take_zero, List.map_nil, List.append_nil]

theorem pad_eq (tokens : List ℤ) :
    pad tokens = tokens ++ List.replicate (512 - tokens.length) 0 := by
  fun_induction pad tokens with
  | case1 tokens hlt ih =>
    have hleft : 512 - tokens.length = 512 - (tokens.length + 1) + 1 := by omega
    rw [ih, List.length_append, List.length_singleton, hleft, List.replicate_succ, List.append_assoc]
    rfl
  | case2 tokens hge =>
    have hfull : 512 - tokens.length = 0 := by omega
    rw [hfull, List.replicate_zero, List.append_nil]

/-- How the tokens of the model are numbered here. -/
def renumber (t : ℤ) : ℤ :=
  if t = 0 then 0 else if t = 1 then 101 else if t = 2 then 102 else t + 197

theorem renumber_byte (b : UInt8) : renumber ((b.toNat : ℤ) + 3) = (b.toNat : ℤ) + 200 := by
  unfold renumber
  rw [if_neg (by omega), if_neg (by omega), if_neg (by omega)]
  omega

/-- Length, truncation and padding are those of the model; only the numbers differ. -/
theorem encode_eq_renumber (payload : Bytes) :
    encode payload = (ONNXEngine.framed (payload.take 510)).ids.map renumber := by
  have hbytes : ((payload.take 510).map (fun b => (b.toNat : ℤ) + 3)).map renumber =
      (payload.take 510).map (fun b => (b.toNat : ℤ) + 200) := by
    rw [List.map_map]
    exact List.map_congr_left (fun b _ => renumber_byte b)
  have hlen : ([101] ++ (payload.take 510).map (fun b : UInt8 => (b.toNat : ℤ) + 200) ++
      [102]).length = (payload.take 510).length + 2 := by simp
  have hpad : 512 - ((payload.take 510).length + 2) = 510 - (payload.take 510).length := by omega
  unfold encode
  rw [pushBytes_eq, pad_eq, hlen, hpad, ONNXEngine.framed_ids, List.map_cons, List.map_append, hbytes,
    List.map_cons, List.map_replicate, List.append_assoc, List.append_assoc]
  rfl

theorem encode_length (payload : Bytes) : (encode payload).length = 512 := by
  rw [encode_eq_renumber, List.length_map]
  exact (ONNXEngine.framed_length (List.length_take_le _ _)).1

/-- 512 ids, and the ids row of the WAF for the text with this encoding. -/
def Agrees (payload : Bytes) : Prop :=
  (encode payload).length = 512 ∧
    ∀ text, Text.encode text = payload → (Waf.tokenize text).ids = encode payload

/-- The two begin with different numbers for `[CLS]`. -/
theorem ids_ne_encode (text : Text) (payload : Bytes) :
    (Waf.tokenize text).ids ≠ encode payload := by
  intro h
  rw [Waf.tokenize_eq_framed, encode_eq_renumber, ONNXEngine.framed_ids, ONNXEngine.framed_ids,
    List.map_cons] at h
  have hhead : (1 : ℤ) = renumber 1 := (List.cons.inj h).1
  exact absurd hhead (by decide)

/-- The tokenizers agree on no text at all. -/
theorem agrees_iff (payload : Bytes) :
    Agrees payload ↔ ¬ ∃ text, Text.encode text = payload := by
  constructor
  · rintro h ⟨text, htext⟩
    exact ids_ne_encode text payload (h.2 text htext)
  · intro hno
    exact ⟨encode_length payload, fun text htext => absurd ⟨text, htext⟩ hno⟩

theorem not_agrees_sample : ¬ ∀ payload, Agrees payload := by
  intro h
  exact ids_ne_encode "test".toList _ ((h (Text.encode "test".toList)).2 _ rfl)

end Aegis.Capture.Tokenizer
