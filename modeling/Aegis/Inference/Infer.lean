import Aegis.Inference.OnnxEngine
import Aegis.Lib.FloatVal
import Mathlib.Data.List.Infix

/-! Scoring a payload, `onnx_engine.cpp`: the loaded model, or substring rules when there
is none or it fails. The session is outside the repository and stands as a parameter. -/
namespace Aegis.Inference

/-- The tensors of one run; the mask is only bound when the model has a second input. -/
structure ModelInput where
  inputIds : List ℤ
  attentionMask : Option (List ℤ)
  deriving DecidableEq

/-- What the constructor leaves: whether the model was loaded, the number of its input
names, and its session with what a run of it gives. A run that throws `Ort::Exception` has
no output. -/
structure Engine (Out : Type) where
  modelLoaded : Bool
  inputNames : ℕ
  session : ModelInput → Option Out

/-- The constants of `heuristic_score`, as the numbers the floats denote. -/
abbrev hitNumber : ℚ := 16609444 / 2 ^ 24

abbrev missNumber : ℚ := 13421773 / 2 ^ 28

def signatures : List Bytes :=
  [ascii "wget ", ascii "curl ", ascii "/bin/bash", ascii "-> bash", ascii "miner.sh",
    ascii "chmod +x", ascii "python -c", ascii "perl -e", ascii "base64 -d", ascii ".onion",
    ascii "xmrig"]

/-- The signature that the loop logs when it returns at it. -/
def hitFrom (payload : Bytes) : List Bytes → Option Bytes
  | [] => none
  | sig :: rest => if sig <:+: payload then some sig else hitFrom payload rest

section Score
variable {S : Type} [RatCast S]

/-- The loop over the signatures, which returns at the first hit. -/
def heuristicScoreFrom (payload : Bytes) : List Bytes → S
  | [] => (missNumber : ℚ)
  | sig :: rest => if sig <:+: payload then (hitNumber : ℚ) else heuristicScoreFrom payload rest

def heuristicScore (payload : Bytes) : S := heuristicScoreFrom payload signatures

namespace Engine
variable {Out : Type} (engine : Engine Out)

/-- What `run_model_inference` hands to the session for a payload. -/
def modelInput (payload : Bytes) : Option ModelInput := do
  let e ← ONNXEngine.tokenize payload {}
  return ⟨e.ids, if 2 ≤ engine.inputNames then some e.mask else none⟩

variable [LE S] [DecidableLE S] (scoreOf : Out → Option S)

/-- The score that the output of the model has, or -1. There is no result when the tokenizer
leaves a vector, or the score is taken from outside the output. -/
def runModelInference (payload : Bytes) : Option S :=
  if engine.modelLoaded then do
    let input ← engine.modelInput payload
    (engine.session input).elim (some (-1 : ℚ)) scoreOf
  else some (-1 : ℚ)

def infer (payload : Bytes) : Option S := do
  let score ← engine.runModelInference scoreOf payload
  return if (0 : ℚ) ≤ score then score else heuristicScore payload

/-- What `infer` logs on the way, when it falls back on the heuristics. -/
def logged (payload : Bytes) : Option Bytes := do
  let score ← engine.runModelInference scoreOf payload
  if (0 : ℚ) ≤ score then none else hitFrom payload signatures

end Engine

end Score

/-- The engine in floats. Its session stands for the run with the sigmoid or softmax over
the logits. -/
abbrev ONNXEngine := Engine FloatVal

abbrev heuristicHit : FloatVal := .fin hitNumber

namespace ONNXEngine
variable (engine : ONNXEngine)

def runModelInference (payload : Bytes) : Option FloatVal := Engine.runModelInference engine some payload

def infer (payload : Bytes) : Option FloatVal := Engine.infer engine some payload

def logged (payload : Bytes) : Option Bytes := Engine.logged engine some payload

/-- The score the callback compares with its threshold. -/
def score (payload : Bytes) : FloatVal := (engine.infer payload).getD .nan

end ONNXEngine

/-- For payloads of any real size the session sees `[CLS]`, up to 510 bytes and `[SEP]`. -/
theorem Engine.modelInput_eq {Out : Type} (engine : Engine Out) {payload : Bytes}
    (h : payload.length < 2 ^ 31) :
    engine.modelInput payload = some ⟨(ONNXEngine.framed (payload.take 510)).ids,
      if 2 ≤ engine.inputNames then some (ONNXEngine.framed (payload.take 510)).mask else none⟩ := by
  unfold modelInput
  rw [ONNXEngine.tokenize_fresh h]
  rfl

namespace ONNXEngine

theorem framed_ids_byte {bytes : Bytes} {i : ℕ} {b : UInt8} (h : bytes[i]? = some b) :
    (framed bytes).ids[i + 1]? = some ((b.toNat : ℤ) + 3) := by
  obtain ⟨hi, -⟩ := List.getElem?_eq_some_iff.mp h
  have hids : (framed bytes).ids = 1 :: (bytes.map (fun b => (b.toNat : ℤ) + 3) ++
      ([2] ++ List.replicate (510 - bytes.length) 0)) := by
    unfold framed
    simp only [List.cons_append, List.append_assoc]
  rw [hids, List.getElem?_cons_succ, List.getElem?_append_left (by simpa using hi),
    List.getElem?_map, h]
  rfl

theorem framed_ids_sep (bytes : Bytes) : (framed bytes).ids[bytes.length + 1]? = some 2 := by
  unfold framed
  rw [List.append_assoc, List.cons_append, List.getElem?_cons_succ,
    List.getElem?_append_right (by simp)]
  simp

end ONNXEngine

theorem isSome_hitFrom_iff {payload : Bytes} {sigs : List Bytes} :
    (hitFrom payload sigs).isSome ↔ ∃ sig ∈ sigs, sig <:+: payload := by
  induction sigs with
  | nil => simp [hitFrom]
  | cons sig rest ih =>
    rw [hitFrom, List.exists_mem_cons_iff]
    by_cases hsig : sig <:+: payload
    · rw [if_pos hsig]
      exact iff_of_true rfl (Or.inl hsig)
    · rw [if_neg hsig, ih, or_iff_right hsig]

/-- The score tells whether a signature has been logged. -/
theorem heuristicScoreFrom_eq {S : Type} [RatCast S] (payload : Bytes) (sigs : List Bytes) :
    (heuristicScoreFrom payload sigs : S) =
      if (hitFrom payload sigs).isSome then ((hitNumber : ℚ) : S) else ((missNumber : ℚ) : S) := by
  induction sigs with
  | nil => rfl
  | cons sig rest ih =>
    rw [heuristicScoreFrom, hitFrom, ih]
    by_cases hsig : sig <:+: payload
    · rw [if_pos hsig, if_pos hsig, Option.isSome_some, if_pos rfl]
    · rw [if_neg hsig, if_neg hsig]

theorem heuristicScore_eq_hit_iff (payload : Bytes) :
    heuristicScore payload = heuristicHit ↔ ∃ sig ∈ signatures, sig <:+: payload := by
  have hne : ((missNumber : ℚ) : FloatVal) ≠ heuristicHit := by decide +kernel
  rw [heuristicScore, heuristicScoreFrom_eq, ← isSome_hitFrom_iff]
  split_ifs with hhit
  · exact iff_of_true rfl hhit
  · exact iff_of_false hne hhit

theorem mem_of_hitFrom {payload sig : Bytes} {sigs : List Bytes} (h : hitFrom payload sigs = some sig) :
    sig ∈ sigs := by
  induction sigs with
  | nil => cases h
  | cons first rest ih =>
    unfold hitFrom at h
    split_ifs at h
    · cases h
      exact List.mem_cons_self
    · exact List.mem_cons_of_mem _ (ih h)

/-- What is logged is one of the signatures. -/
theorem ONNXEngine.mem_of_logged {engine : ONNXEngine} {payload sig : Bytes}
    (h : engine.logged payload = some sig) : sig ∈ signatures := by
  obtain ⟨score, -, h⟩ := Option.bind_eq_some_iff.mp h
  split_ifs at h
  exact mem_of_hitFrom h

end Aegis.Inference
