import Mathlib.Data.Rat.Defs
import Mathlib.Algebra.Order.Ring.Rat

/-! The values of a binary floating-point type with their comparisons. A finite
number is the rational it denotes; arithmetic on the values is not modelled. -/

inductive FloatVal where
  | nan
  | negInf
  | posInf
  | fin (q : ℚ)
  deriving DecidableEq

namespace FloatVal

/-- `x < y`; every comparison with a NaN is false. -/
protected def lt : FloatVal → FloatVal → Prop
  | fin p, fin q => p < q
  | negInf, fin _ => True
  | negInf, posInf => True
  | fin _, posInf => True
  | _, _ => False

/-- `x <= y`. -/
protected def le : FloatVal → FloatVal → Prop
  | fin p, fin q => p ≤ q
  | nan, _ => False
  | _, nan => False
  | negInf, _ => True
  | _, posInf => True
  | _, _ => False

instance : LT FloatVal := ⟨FloatVal.lt⟩
instance : LE FloatVal := ⟨FloatVal.le⟩

instance (x y : FloatVal) : Decidable (x < y) :=
  match x, y with
  | fin p, fin q => inferInstanceAs (Decidable (p < q))
  | negInf, fin _ => isTrue trivial
  | negInf, posInf => isTrue trivial
  | fin _, posInf => isTrue trivial
  | nan, _ => isFalse id
  | posInf, nan | posInf, negInf | posInf, posInf | posInf, fin _ => isFalse id
  | negInf, nan | negInf, negInf => isFalse id
  | fin _, nan | fin _, negInf => isFalse id

instance (x y : FloatVal) : Decidable (x ≤ y) :=
  match x, y with
  | fin p, fin q => inferInstanceAs (Decidable (p ≤ q))
  | nan, _ => isFalse id
  | posInf, nan | negInf, nan | fin _, nan => isFalse id
  | negInf, negInf | negInf, posInf | negInf, fin _ => isTrue trivial
  | posInf, posInf | fin _, posInf => isTrue trivial
  | posInf, negInf | posInf, fin _ | fin _, negInf => isFalse id

/-- A rational constant. -/
instance : RatCast FloatVal := ⟨fin⟩

theorem fin_lt_fin {p q : ℚ} : fin p < fin q ↔ p < q := Iff.rfl

theorem lt_of_lt_of_le {x y z : FloatVal} (hxy : x < y) (hyz : y ≤ z) : x < z := by
  cases x <;> cases y <;> cases z <;>
    first | exact trivial | exact hxy.elim | exact hyz.elim | exact LT.lt.trans_le (fin_lt_fin.mp hxy) hyz

theorem le_of_lt {x y : FloatVal} (h : x < y) : x ≤ y := by
  cases x <;> cases y <;> first | exact trivial | exact h.elim | exact LT.lt.le (fin_lt_fin.mp h)

end FloatVal
