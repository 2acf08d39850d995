import Aegis.Inference.Detokenize
import Aegis.Lib.Softmax
import Mathlib.Algebra.BigOperators.Group.List.Lemmas

/-! From the output of the model to a score, `run_model_inference` of `onnx_engine.cpp`,
in exact arithmetic and for any exponential. -/
namespace Aegis.Inference

/-- The first output of a run: its shape, and its elements in row-major order. -/
structure Tensor (K : Type*) where
  shape : List ℕ
  data : List K
  size : data.length = shape.prod
  nonempty : data ≠ []

namespace Tensor
variable {K : Type*} (out : Tensor K)

/-- `shape_out.size() >= 2 ? shape_out[1] : 1`. -/
def nClass : ℕ := (out.shape[1]?).getD 1

theorem length_pos : 0 < out.data.length := List.length_pos_of_ne_nil out.nonempty

theorem nClass_dvd : out.nClass ∣ out.data.length := by
  rw [out.size, nClass]
  cases hdim : out.shape[1]? with
  | none => exact one_dvd _
  | some n => exact List.dvd_prod (List.mem_of_getElem? hdim)

/-- The classes are inside the buffer. -/
theorem nClass_le : out.nClass ≤ out.data.length := Nat.le_of_dvd out.length_pos out.nClass_dvd

theorem nClass_pos : 0 < out.nClass := Nat.pos_of_dvd_of_pos out.nClass_dvd out.length_pos

end Tensor

section Score
variable {K : Type*} [Field K] [LinearOrder K] (exp : K → K)

/-- The summing loop of the softmax. -/
def sumExp (maxV : K) (logits : List K) : K :=
  logits.foldl (fun sum x => sum + exp (x - maxV)) 0

/-- The sigmoid of the only class, or the softmax of the last one. -/
def scoreOf (out : Tensor K) : Option K :=
  let nClass := out.nClass
  if nClass = 1 then do
    let logit ← out.data[0]?
    return 1 / (1 + exp (-logit))
  else do
    -- `logits` points to the buffer, of which the first `n_class` elements are used
    let logits := out.data.take nClass
    let maxV ← logits.max?
    let sum := sumExp exp maxV logits
    let threat ← out.data[nClass - 1]?
    return exp (threat - maxV) / sum

/-- Which formula is applied, and to what. -/
inductive Formula (K : Type*) where
  | sigmoid (logit : K)
  | softmax (logits : List K) (threat : K)

/-- The value of a formula; a softmax is shifted by its greatest logit. -/
def Formula.value : Formula K → Option K
  | sigmoid logit => some (Softmax.sigmoid exp logit)
  | softmax logits threat => logits.max?.map fun m => Softmax.share exp m logits threat

/-- What the probe applies to an output. -/
def Tensor.probeFormula (out : Tensor K) : Option (Formula K) :=
  if out.nClass = 1 then out.data[0]?.map .sigmoid
  else out.data[out.nClass - 1]?.map (.softmax (out.data.take out.nClass))

omit [LinearOrder K] in
theorem sumExp_eq (maxV : K) (logits : List K) :
    sumExp exp maxV logits = Softmax.partition exp maxV logits := by
  rw [sumExp, Softmax.foldl_eq_partition, zero_add]

theorem scoreOf_eq (out : Tensor K) :
    scoreOf exp out = out.probeFormula.bind (Formula.value exp) := by
  unfold scoreOf Tensor.probeFormula
  dsimp only
  by_cases hone : out.nClass = 1
  · rw [if_pos hone, if_pos hone]
    cases out.data[0]? <;> rfl
  · rw [if_neg hone, if_neg hone]
    simp only [sumExp_eq]
    cases out.data[out.nClass - 1]? with
    | none => cases (out.data.take out.nClass).max? <;> rfl
    | some threat =>
      show _ = (out.data.take out.nClass).max?.map _
      cases (out.data.take out.nClass).max? <;> rfl

end Score

namespace Tensor
variable {K : Type*} (out : Tensor K)

theorem length_classes : (out.data.take out.nClass).length = out.nClass := by
  rw [List.length_take, Nat.min_eq_left out.nClass_le]

theorem classes_ne_nil : out.data.take out.nClass ≠ [] := by
  have hpos := out.nClass_pos
  rw [← List.length_pos_iff, length_classes]
  exact hpos

end Tensor

/-! A formula over a whole row of logits. -/

namespace Formula
variable {K : Type*}

/-- The sigmoid of the only logit, or the softmax of the last one. -/
def ofRow (logits : List K) : Option (Formula K) :=
  if logits.length = 1 then logits[0]?.map .sigmoid else logits.getLast?.map (.softmax logits)

/-- The one logit of the sigmoid, or all of the softmax. -/
def logits : Formula K → List K
  | sigmoid logit => [logit]
  | softmax logits _ => logits

/-- Either way there is a formula; the threat class is one of the row. -/
theorem ofRow_cases {row : List K} (h : row ≠ []) :
    (row.length = 1 ∧ ∃ logit, ofRow row = some (.sigmoid logit)) ∨
      (row.length ≠ 1 ∧ ∃ threat ∈ row, ofRow row = some (.softmax row threat)) := by
  unfold ofRow
  by_cases hone : row.length = 1
  · obtain ⟨logit, hlogit⟩ : ∃ logit, row[0]? = some logit :=
      ⟨_, List.getElem?_eq_getElem (List.length_pos_of_ne_nil h)⟩
    rw [if_pos hone, hlogit]
    exact Or.inl ⟨hone, logit, rfl⟩
  · rw [if_neg hone, List.getLast?_eq_some_getLast h]
    exact Or.inr ⟨hone, _, List.getLast_mem h, rfl⟩

theorem length_logits_ofRow {row : List K} (h : row ≠ []) :
    (ofRow row).map (fun f => f.logits.length) = some row.length := by
  rcases ofRow_cases h with ⟨hone, logit, hf⟩ | ⟨-, threat, -, hf⟩
  · rw [hf, hone]
    rfl
  · rw [hf]
    rfl

end Formula

/-- What the probe applies to an output is a formula over the classes. -/
theorem Tensor.probeFormula_eq {K : Type*} (out : Tensor K) :
    out.probeFormula = Formula.ofRow (out.data.take out.nClass) := by
  have hlast : out.nClass - 1 < out.nClass := Nat.sub_one_lt_of_lt out.nClass_pos
  unfold probeFormula Formula.ofRow
  rw [out.length_classes, List.getLast?_eq_getElem?, out.length_classes,
    List.getElem?_take_of_lt hlast, List.getElem?_take_of_lt out.nClass_pos]

section Values
variable {K : Type*} [Field K] [LinearOrder K]

/-- How a formula comes out when the exponential is constant. -/
def flatScore (c : K) (n : ℕ) : K := if n = 1 then 1 / (1 + c) else 1 / n

/-- The value of a softmax over a row that contains the threat class. -/
theorem value_softmax (exp : K → K) {logits : List K} {threat : K} (h : threat ∈ logits) :
    ∃ m ∈ logits, (Formula.softmax logits threat).value exp =
      some (Softmax.share exp m logits threat) := by
  obtain ⟨m, hmax⟩ := Option.isSome_iff_exists.mp
    (List.isSome_max?_of_ne_nil (List.ne_nil_of_mem h))
  exact ⟨m, List.max?_mem hmax, by rw [Formula.value, hmax, Option.map_some]⟩

theorem value_ofRow_const {c : K} (hc : c ≠ 0) {row : List K} (h : row ≠ []) :
    (Formula.ofRow row).bind (Formula.value fun _ => c) = some (flatScore c row.length) := by
  rw [flatScore]
  rcases Formula.ofRow_cases h with ⟨hone, logit, hf⟩ | ⟨hone, threat, hmem, hf⟩
  · rw [hf, if_pos hone]
    rfl
  · obtain ⟨m, -, hvalue⟩ := value_softmax (fun _ => c) hmem
    rw [hf, if_neg hone, Option.bind_some, hvalue, Softmax.share, Softmax.partition_const,
      div_mul_cancel_right₀ hc, one_div]

theorem scoreOf_const {c : K} (hc : c ≠ 0) (out : Tensor K) :
    scoreOf (fun _ => c) out = some (flatScore c out.nClass) := by
  rw [scoreOf_eq, out.probeFormula_eq, value_ofRow_const hc out.classes_ne_nil, out.length_classes]

/-- The score is a probability. -/
theorem scoreOf_bounds [IsStrictOrderedRing K] {exp : K → K} (hpos : ∀ x, 0 < exp x)
    (out : Tensor K) : ∃ p, scoreOf exp out = some p ∧ 0 < p ∧ p ≤ 1 := by
  rw [scoreOf_eq, out.probeFormula_eq]
  rcases Formula.ofRow_cases out.classes_ne_nil with ⟨-, logit, hf⟩ | ⟨-, threat, hmem, hf⟩
  · rw [hf]
    exact ⟨_, rfl, Softmax.sigmoid_pos hpos logit, Softmax.sigmoid_le_one hpos logit⟩
  · obtain ⟨m, -, hvalue⟩ := value_softmax exp hmem
    rw [hf]
    exact ⟨_, hvalue, Softmax.share_pos hpos hmem, Softmax.share_le_one hpos hmem⟩

end Values

end Aegis.Inference
