import Aegis.Inference.Sentinel
import Aegis.Waf.Tokenize
import Mathlib.Algebra.Field.Rat

/-! The model behind the WAF, `_onnx_score` of `waf_proxy.py`, beside the probe's reading
of the same output. -/
namespace Aegis.Waf

open Aegis.Inference

section Score
variable {K : Type*} [Field K] [LinearOrder K] (exp : K → K)

/-- The sigmoid of a single logit, or the softmax of the last one. -/
def onnxScoreOf (out : Tensor K) : Option K :=
  let logits := out.data -- `flatten()`
  if logits.length = 1 then do
    let logit ← logits[0]?
    return 1 / (1 + exp (-logit))
  else do
    let maxV ← logits.max?
    let logits := logits.map (fun x => x - maxV)
    let expL := logits.map exp
    let threat ← expL.getLast?
    return threat / expL.sum

/-- What the WAF applies to an output. -/
def wafFormula (out : Tensor K) : Option (Formula K) :=
  if out.data.length = 1 then out.data[0]?.map .sigmoid
  else out.data.getLast?.map (.softmax out.data)

theorem onnxScoreOf_eq (out : Tensor K) :
    onnxScoreOf exp out = (wafFormula out).bind (Formula.value exp) := by
  unfold onnxScoreOf wafFormula
  dsimp only
  by_cases hone : out.data.length = 1
  · rw [if_pos hone, if_pos hone]
    cases out.data[0]? <;> rfl
  · rw [if_neg hone, if_neg hone]
    have hshift : ∀ m, (out.data.map (fun x => x - m)).map exp =
        out.data.map (fun x => exp (x - m)) := fun m => List.map_map
    simp only [hshift, List.getLast?_map]
    cases out.data.getLast? with
    | none => cases out.data.max? <;> rfl
    | some threat =>
      show _ = out.data.max?.map _
      cases out.data.max? <;> rfl

end Score

section Agreement
variable {K : Type*}

/-- All elements of the output are classes. -/
def AllClasses (out : Tensor K) : Prop := out.nClass = out.data.length

/-- What the WAF applies to an output is a formula over all elements. -/
theorem wafFormula_eq (out : Tensor K) : wafFormula out = Formula.ofRow out.data := rfl

theorem probeFormula_eq_wafFormula {out : Tensor K} (h : AllClasses out) :
    out.probeFormula = wafFormula out := by
  rw [out.probeFormula_eq, h, List.take_length, wafFormula_eq]

end Agreement

section Constant
variable {K : Type*} [Field K] [LinearOrder K]

theorem onnxScoreOf_const {c : K} (hc : c ≠ 0) (out : Tensor K) :
    onnxScoreOf (fun _ => c) out = some (flatScore c out.data.length) := by
  rw [onnxScoreOf_eq, wafFormula_eq, value_ofRow_const hc out.nonempty]

end Constant

section Reading
variable {K : Type*} [Field K] [LinearOrder K] [IsStrictOrderedRing K]

/-- With the exponential constantly the number of the elements, the formulas over fewer
classes come out differently. -/
theorem flatScore_ne {n size : ℕ} (hn : 0 < n) (hlt : n < size) :
    flatScore (size : K) n ≠ flatScore (size : K) size := by
  have hsize : (size : K) ≠ 0 := Nat.cast_ne_zero.mpr (by omega)
  unfold flatScore
  rw [if_neg (show size ≠ 1 by omega)]
  split_ifs with hone
  · rw [ne_eq, one_div, one_div, inv_inj]
    exact (lt_one_add (size : K)).ne'
  · rw [ne_eq, one_div, one_div, inv_inj, Nat.cast_inj]
    omega

/-- The same value, whatever the exponential is. -/
def SameScore (out : Tensor K) : Prop :=
  ∀ exp : K → K, (∀ x, 0 < exp x) → scoreOf exp out = onnxScoreOf exp out

/-- The two paths apply the same formula to the same logits, and come to the same score,
exactly if all elements of the output are classes. -/
theorem readAlike_iff (out : Tensor K) :
    (out.probeFormula = wafFormula out ↔ AllClasses out) ∧ (SameScore out ↔ AllClasses out) := by
  refine ⟨⟨fun hsame => ?_, probeFormula_eq_wafFormula⟩, fun hsame => ?_, fun hall exp _ => ?_⟩
  · rw [out.probeFormula_eq, wafFormula_eq] at hsame
    have hprobe := Formula.length_logits_ofRow out.classes_ne_nil
    rw [hsame, Formula.length_logits_ofRow out.nonempty, out.length_classes] at hprobe
    exact (Option.some.inj hprobe).symm
  · by_contra hne
    have hlt : out.nClass < out.data.length := lt_of_le_of_ne out.nClass_le hne
    have hpos : (0 : K) < out.data.length := Nat.cast_pos.mpr out.length_pos
    have hscore := hsame (fun _ => (out.data.length : K)) (fun _ => hpos)
    rw [scoreOf_const hpos.ne', onnxScoreOf_const hpos.ne'] at hscore
    exact flatScore_ne out.nClass_pos hlt (Option.some.inj hscore)
  · rw [scoreOf_eq, onnxScoreOf_eq, probeFormula_eq_wafFormula hall]

end Reading

section Session
variable {K : Type} [Field K] [LinearOrder K] [IsStrictOrderedRing K] (exp : K → K)

/-- The session of the WAF and the number of its input names; a run that raises has no
output. -/
structure OrtSession (K : Type) where
  inputNames : ℕ
  run : ModelInput → Option (Tensor K)

/-- `_onnx_score`; without a session, or after an exception, it is -1. -/
def onnxScore (session : Option (OrtSession K)) (raw : Text) : K :=
  (session.bind fun s =>
    if s.inputNames = 0 then none
    else
      let e := tokenize raw
      let input := ⟨e.ids, if 2 ≤ s.inputNames then some e.mask else none⟩
      (s.run input).bind (onnxScoreOf exp)).getD (-1)

/-- On one model whose outputs are all classes, the WAF scores a text as the probe scores
its bytes. -/
theorem onnxScore_eq_runModelInference {exp : K → K} (hpos : ∀ x, 0 < exp x)
    {engine : ExactEngine K} (hloaded : engine.modelLoaded = true)
    (hnames : engine.inputNames ≠ 0) (hall : ∀ input out, engine.session input = some out → AllClasses out)
    {raw : Text} (hsize : (Text.encode raw).length < 2 ^ 31) :
    engine.runModelInference (scoreOf exp) (Text.encode raw) =
      some (onnxScore exp (some ⟨engine.inputNames, engine.session⟩) raw) := by
  have hfailed : ((-1 : ℚ) : K) = -1 := by rw [Rat.cast_neg, Rat.cast_one]
  unfold Engine.runModelInference onnxScore
  rw [engine.modelInput_eq hsize, if_pos hloaded, Option.bind_some, if_neg hnames, tokenize_eq_framed,
    hfailed]
  dsimp only [Option.bind_eq_bind, Option.bind_some]
  cases hrun : engine.session _ with
  | none => rfl
  | some out =>
    obtain ⟨p, hscore, -⟩ := scoreOf_bounds hpos out
    have hwaf : onnxScoreOf exp out = some p := by
      rw [onnxScoreOf_eq, ← probeFormula_eq_wafFormula (hall _ out hrun), ← scoreOf_eq, hscore]
    rw [Option.elim_some, Option.bind_some, hscore, hwaf]
    rfl

end Session

/-- A row of two classes is read alike. -/
theorem row_read_alike : SameScore (⟨[1, 2], [0, 1], rfl, List.cons_ne_nil _ _⟩ : Tensor ℚ) :=
  (readAlike_iff _).2.mpr rfl

/-- Two logits in one dimension: the probe takes the sigmoid of the first of them. -/
theorem one_dimension_parts : ¬ ∀ out : Tensor ℚ, SameScore out := by
  intro h
  have hscore := h ⟨[2], [0, 1], rfl, List.cons_ne_nil _ _⟩ (fun _ => 2) (fun _ => two_pos)
  rw [scoreOf_const two_ne_zero, onnxScoreOf_const two_ne_zero] at hscore
  exact absurd hscore (by decide +kernel)

end Aegis.Waf
