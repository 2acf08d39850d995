import Mathlib.Data.List.Basic
import Mathlib.Data.Int.Notation

/-! Vectors that are written by index. A write outside the vector has no result. -/
namespace Buffer

variable {α : Type*}

/-- `v.resize(n, x)`. -/
def resize (v : List α) (n : ℕ) (x : α) : List α := v.take n ++ List.replicate (n - v.length) x

/-- `v[i] = x`, the index being a signed number. -/
def write (v : List α) (i : ℤ) (x : α) : Option (List α) :=
  if 0 ≤ i ∧ i < v.length then some (v.set i.toNat x) else none

theorem resize_nil (n : ℕ) (x : α) : resize [] n x = List.replicate n x := by
  simp [resize]

/-- A write at the end of a prefix replaces the entry that follows it. -/
theorem write_append (pre post : List α) (x y : α) :
    write (pre ++ y :: post) pre.length x = some (pre ++ x :: post) := by
  have hin : (0 : ℤ) ≤ pre.length ∧ (pre.length : ℤ) < (pre ++ y :: post).length := by
    rw [List.length_append, List.length_cons]
    omega
  rw [write, if_pos hin, Int.toNat_natCast, List.set_append_right _ _ (Nat.le_refl _), Nat.sub_self]
  rfl

/-- Writing into the first cell of a padding moves its border by one. -/
theorem write_padding {pre : List α} {i n : ℕ} (hi : pre.length = i) (x z : α) :
    write (pre ++ List.replicate (n + 1) z) i x = some (pre ++ [x] ++ List.replicate n z) := by
  subst hi
  rw [List.replicate_succ, write_append, List.append_assoc]
  rfl

end Buffer
