import Mathlib.Algebra.Order.BigOperators.Group.List
import Mathlib.Algebra.Order.Field.Basic

/-! Sigmoid and softmax over an ordered field. The exponential is any positive function;
that it is one at zero is only used for the shift by a member. -/
namespace Softmax

variable {K : Type*} [Field K] [LinearOrder K] [IsStrictOrderedRing K] (exp : K → K)

def sigmoid (x : K) : K := 1 / (1 + exp (-x))

def partition (shift : K) (xs : List K) : K := (xs.map fun x => exp (x - shift)).sum

/-- The share of `x` in the partition function of the row. -/
def share (shift : K) (xs : List K) (x : K) : K := exp (x - shift) / partition exp shift xs

omit [LinearOrder K] [IsStrictOrderedRing K] in
theorem foldl_eq_partition (shift : K) (xs : List K) (a : K) :
    xs.foldl (fun sum x => sum + exp (x - shift)) a = a + partition exp shift xs := by
  unfold partition
  induction xs generalizing a with
  | nil => simp
  | cons x xs ih => rw [List.foldl_cons, ih, List.map_cons, List.sum_cons, add_assoc]

omit [LinearOrder K] [IsStrictOrderedRing K] in
theorem partition_const (c shift : K) (xs : List K) :
    partition (fun _ => c) shift xs = xs.length * c := by
  unfold partition
  rw [List.map_const', List.sum_replicate, nsmul_eq_mul]

variable {exp} (hpos : ∀ x, 0 < exp x)
include hpos

theorem sigmoid_pos (x : K) : 0 < sigmoid exp x :=
  div_pos one_pos (add_pos one_pos (hpos (-x)))

theorem sigmoid_le_one (x : K) : sigmoid exp x ≤ 1 := by
  have hden : 0 < 1 + exp (-x) := add_pos one_pos (hpos (-x))
  unfold sigmoid
  rw [div_le_one hden]
  exact le_add_of_nonneg_right (hpos (-x)).le

theorem le_partition {shift x : K} {xs : List K} (hx : x ∈ xs) :
    exp (x - shift) ≤ partition exp shift xs := by
  have hnonneg : ∀ y ∈ xs.map (fun x => exp (x - shift)), 0 ≤ y := by
    intro y hy
    obtain ⟨z, -, rfl⟩ := List.mem_map.mp hy
    exact (hpos _).le
  exact List.single_le_sum hnonneg _ (List.mem_map_of_mem hx)

/-- The member by which the row is shifted counts for one. -/
theorem one_le_partition (hzero : exp 0 = 1) {m : K} {xs : List K} (hm : m ∈ xs) :
    1 ≤ partition exp m xs := by
  have hle : exp (m - m) ≤ partition exp m xs := le_partition hpos hm
  rwa [sub_self, hzero] at hle

theorem share_pos {shift x : K} {xs : List K} (hx : x ∈ xs) : 0 < share exp shift xs x :=
  div_pos (hpos _) (lt_of_lt_of_le (hpos _) (le_partition hpos hx))

theorem share_le_one {shift x : K} {xs : List K} (hx : x ∈ xs) : share exp shift xs x ≤ 1 := by
  have hle : exp (x - shift) ≤ partition exp shift xs := le_partition hpos hx
  exact div_le_one_of_le₀ hle ((hpos _).le.trans hle)

end Softmax
