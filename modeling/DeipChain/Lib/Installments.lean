import Mathlib.Algebra.BigOperators.Group.List.Basic
import Mathlib.Algebra.Ring.Int.Defs
import Mathlib.Algebra.Ring.Nat
import Mathlib.Tactic.Common

/-!
# A total in equal parts

A total is worked off in parts of one size, and the last part is what is left of it. After
some of the parts, the multiple of the size is done or the whole total.
-/
namespace DeipChain.Installments

/-- How many parts a total has: the quotient by the size of a part, rounded up. -/
def count (total size : Int) : Nat :=
  ((total + size - 1) / size).toNat

/-- The part of an index: the size, or what is left of the total. -/
def part (total size : Int) (index : Nat) : Int :=
  min size (total - index * size)

variable {total size : Int} {index done : Nat}

theorem lt_count_iff (positive : 0 < size) : index < count total size ↔ index * size < total := by
  have rounded : (index : Int) + 1 ≤ (total + size - 1) / size ↔
      ((index : Int) + 1) * size ≤ total + size - 1 := Int.le_ediv_iff_mul_le positive
  rw [add_mul, one_mul] at rounded
  rw [count]
  omega

/-- Every part is positive. -/
theorem part_pos (positive : 0 < size) (within : index < count total size) :
    0 < part total size index := by
  have rest := (lt_count_iff positive).mp within
  rw [part]
  omega

/-- What the first parts come to. -/
theorem sum_parts (positive : 0 < size) (sign : 0 ≤ total) (within : done ≤ count total size) :
    ((List.range done).map (part total size)).sum = min total (done * size) := by
  induction done with
  | zero =>
    rw [List.range_zero, List.map_nil, List.sum_nil, Nat.cast_zero, zero_mul]
    omega
  | succ done hypothesis =>
    have rest := (lt_count_iff positive).mp within
    rw [List.range_succ, List.map_append, List.sum_append, hypothesis (by omega), List.map_singleton,
      List.sum_singleton, part]
    push_cast
    rw [add_mul, one_mul]
    omega

/-- All parts come to the total. -/
theorem sum_all (positive : 0 < size) (sign : 0 ≤ total) :
    ((List.range (count total size)).map (part total size)).sum = total := by
  have exceeds : ¬ (count total size : Int) * size < total :=
    mt (lt_count_iff positive).mpr (lt_irrefl _)
  rw [sum_parts positive sign le_rfl]
  omega

/-- The rest that is smaller than a part is the remainder of the division. -/
theorem tmod_eq_rest (positive : 0 < size) (sign : 0 ≤ total - index * size)
    (small : total - index * size < size) : total.tmod size = total - index * size := by
  have whole : 0 ≤ (index : Int) * size := Int.mul_nonneg (Int.natCast_nonneg _) (Int.le_of_lt positive)
  rw [Int.tmod_eq_emod_of_nonneg (by omega)]
  calc total % size = (total - index * size) % size := (Int.sub_mul_emod_self_right ..).symm
    _ = total - index * size := Int.emod_eq_of_lt sign small

end DeipChain.Installments
