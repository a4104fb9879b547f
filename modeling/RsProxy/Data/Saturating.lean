import Mathlib.Algebra.BigOperators.Group.List.Basic
import Mathlib.Algebra.GroupWithZero.Nat
import Mathlib.Order.Lattice

/-!
# Sums that stop at the largest word
-/

namespace RsProxy.Data

/-- The largest number in 64 bits. -/
def wordMax : Nat := 18446744073709551615

def satAdd (a b : Nat) : Nat := min (a + b) wordMax

theorem satAdd_of_le {a b} (h : a + b ≤ wordMax) : satAdd a b = a + b := min_eq_left h

theorem satAdd_le {a b} : satAdd a b ≤ wordMax := min_le_right _ _

/-- A running sum is the sum, or the largest word. -/
theorem foldl_satAdd {a} (ha : a ≤ wordMax) {xs : List Nat} :
    xs.foldl satAdd a = min (a + xs.sum) wordMax := by
  induction xs generalizing a with
  | nil => exact (min_eq_left ha).symm
  | cons x xs ih =>
    rw [List.foldl_cons, ih satAdd_le, List.sum_cons, satAdd]
    omega

theorem foldl_satAdd_le {a x xs} : (x :: xs).foldl satAdd a ≤ wordMax := by
  rw [List.foldl_cons, foldl_satAdd satAdd_le]
  exact min_le_right _ _

end RsProxy.Data
