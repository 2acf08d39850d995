import Aegis.Inference.Scoring
import Mathlib.Analysis.Complex.Exponential
import Mathlib.Data.Rat.Cast.Order

/-! The -1 of a failed inference beside the scores of a successful one, `onnx_engine.cpp`,
in exact arithmetic. -/
namespace Aegis.Inference

/-- The engine in exact arithmetic, whose session gives the first output of the model. -/
abbrev ExactEngine (K : Type) := Engine (Tensor K)

namespace ExactEngine
variable {K : Type} [Field K] [LinearOrder K] (engine : ExactEngine K) (exp : K → K)

/-- The output for a payload, if the inference succeeds. -/
def output (payload : Bytes) : Option (Tensor K) :=
  if engine.modelLoaded then (engine.modelInput payload).bind engine.session else none

/-- What the sign test in `infer` is to tell apart. -/
structure Unambiguous (payload : Bytes) : Prop where
  denominator : ∀ out, engine.output payload = some out → ∀ m,
    (out.data.take out.nClass).max? = some m → 1 ≤ sumExp exp m (out.data.take out.nClass)
  success : ∀ out, engine.output payload = some out → ∃ p, scoreOf exp out = some p ∧
    0 < p ∧ p ≤ 1 ∧ engine.runModelInference (scoreOf exp) payload = some p ∧
    engine.infer (scoreOf exp) payload = some p
  failure : engine.output payload = none →
    engine.runModelInference (scoreOf exp) payload = some (-1) ∧
    engine.infer (scoreOf exp) payload = some (heuristicScore payload)
  sign : ∀ score, engine.runModelInference (scoreOf exp) payload = some score →
    (0 ≤ score ↔ (engine.output payload).isSome = true)
  range : ∃ r, engine.infer (scoreOf exp) payload = some r ∧ 0 ≤ r ∧ r ≤ 1

variable {engine exp}

/-- A run that succeeds is scored, and everything else comes out as -1. -/
theorem runModelInference_eq {payload : Bytes} (h : payload.length < 2 ^ 31) :
    engine.runModelInference (scoreOf exp) payload =
      (engine.output payload).elim (some (-1)) (scoreOf exp) := by
  have hfailed : ((-1 : ℚ) : K) = -1 := by rw [Rat.cast_neg, Rat.cast_one]
  unfold Engine.runModelInference output
  rw [engine.modelInput_eq h, hfailed]
  split_ifs <;> rfl

theorem infer_eq {payload : Bytes} {score : K}
    (h : engine.runModelInference (scoreOf exp) payload = some score) :
    engine.infer (scoreOf exp) payload =
      some (if 0 ≤ score then score else heuristicScore payload) := by
  unfold Engine.infer
  rw [h, Rat.cast_zero]
  rfl

section Bounds
variable [IsStrictOrderedRing K]

theorem heuristicScore_bounds (payload : Bytes) :
    0 ≤ (heuristicScore payload : K) ∧ (heuristicScore payload : K) ≤ 1 := by
  have hbounds : ∀ q : ℚ, 0 ≤ q ∧ q ≤ 1 → 0 ≤ (q : K) ∧ (q : K) ≤ 1 := by
    intro q hq
    rw [Rat.cast_nonneg, ← Rat.cast_one, Rat.cast_le]
    exact hq
  unfold heuristicScore
  rw [heuristicScoreFrom_eq]
  split_ifs
  · exact hbounds _ (by norm_num)
  · exact hbounds _ (by norm_num)

/-- A sum over a row that is shifted by its own maximum is at least one. -/
theorem one_le_sumExp (hpos : ∀ x, 0 < exp x) (hzero : exp 0 = 1) {logits : List K} {m : K}
    (h : logits.max? = some m) : 1 ≤ sumExp exp m logits := by
  rw [sumExp_eq]
  exact Softmax.one_le_partition hpos hzero (List.max?_mem h)

theorem infer_of_failure {payload : Bytes} (hsize : payload.length < 2 ^ 31)
    (h : engine.output payload = none) :
    engine.runModelInference (scoreOf exp) payload = some (-1) ∧
      engine.infer (scoreOf exp) payload = some (heuristicScore payload) := by
  have hrun : engine.runModelInference (scoreOf exp) payload = some (-1) := by
    rw [runModelInference_eq hsize, h, Option.elim_none]
  have hneg : ¬ (0 : K) ≤ -1 := not_le.mpr (neg_neg_of_pos one_pos)
  exact ⟨hrun, by rw [infer_eq hrun, if_neg hneg]⟩

theorem infer_of_success (hpos : ∀ x, 0 < exp x) {payload : Bytes}
    (hsize : payload.length < 2 ^ 31) {out : Tensor K} (h : engine.output payload = some out) :
    ∃ p, scoreOf exp out = some p ∧ 0 < p ∧ p ≤ 1 ∧
      engine.runModelInference (scoreOf exp) payload = some p ∧ engine.infer (scoreOf exp) payload = some p := by
  obtain ⟨p, hscore, hlow, hhigh⟩ := scoreOf_bounds hpos out
  have hrun : engine.runModelInference (scoreOf exp) payload = some p := by
    rw [runModelInference_eq hsize, h, Option.elim_some, hscore]
  exact ⟨p, hscore, hlow, hhigh, hrun, by rw [infer_eq hrun, if_pos hlow.le]⟩

/-- For every exponential and every output, a successful inference is recognised by its
sign and returned as it is, and after a failed one the rules decide. -/
theorem sentinel_unambiguous (engine : ExactEngine K) (exp : K → K) (hpos : ∀ x, 0 < exp x)
    (hzero : exp 0 = 1) (payload : Bytes) (hsize : payload.length < 2 ^ 31) :
    engine.Unambiguous exp payload := by
  refine ⟨fun _ _ _ hmax => one_le_sumExp hpos hzero hmax,
    fun _ hout => infer_of_success hpos hsize hout, infer_of_failure hsize, ?_, ?_⟩
  · intro score hscore
    cases hout : engine.output payload with
    | none =>
      rw [(infer_of_failure hsize hout).1] at hscore
      cases hscore
      exact iff_of_false (not_le.mpr (neg_neg_of_pos one_pos)) Bool.false_ne_true
    | some out =>
      obtain ⟨p, -, hlow, -, hrun, -⟩ := infer_of_success hpos hsize hout
      rw [hrun] at hscore
      cases hscore
      exact iff_of_true hlow.le rfl
  · cases hout : engine.output payload with
    | none =>
      have hinfer : engine.infer (scoreOf exp) payload = some (heuristicScore payload) :=
        (infer_of_failure hsize hout).2
      exact ⟨_, hinfer, heuristicScore_bounds payload⟩
    | some out =>
      obtain ⟨p, -, hlow, hhigh, -, hinfer⟩ := infer_of_success hpos hsize hout
      exact ⟨p, hinfer, hlow.le, hhigh⟩

end Bounds

end ExactEngine

/-- A loaded model with two classes, whose logits are always the same. -/
noncomputable def evenOutput : Tensor ℝ := ⟨[1, 2], [0, 0], rfl, List.cons_ne_nil _ _⟩

noncomputable def evenEngine : ExactEngine ℝ := ⟨true, 2, fun _ => some evenOutput⟩

theorem sentinel_unambiguous_sample : ∃ p, scoreOf Real.exp evenOutput = some p ∧ 0 < p ∧ p ≤ 1 ∧
    evenEngine.infer (scoreOf Real.exp) [0x41] = some p := by
  have hsize : ([0x41] : Bytes).length < 2 ^ 31 := by decide
  have h := ExactEngine.sentinel_unambiguous evenEngine Real.exp Real.exp_pos Real.exp_zero [0x41]
    hsize
  have hout : evenEngine.output [0x41] = some evenOutput := by
    unfold ExactEngine.output
    rw [evenEngine.modelInput_eq hsize]
    rfl
  obtain ⟨p, hscore, hlow, hhigh, -, hinfer⟩ := h.success _ hout
  exact ⟨p, hscore, hlow, hhigh, hinfer⟩

end Aegis.Inference
