import Mathlib.Algebra.Order.Ring.Int
import Mathlib.Data.Int.Notation
import Mathlib.Data.Nat.Notation
import Mathlib.Tactic.Common

/-!
# The C type `int`

`int` is 32-bit two's complement. Values are integers; an operation that can leave the range is
written with `wrap`, so that a reader sees where the code relies on the range.
-/

namespace CInt

/-- The largest `int`. -/
def INT_MAX : ℤ := 2147483647

/-- The values of the type. -/
def IsInt (x : ℤ) : Prop := -2147483648 ≤ x ∧ x ≤ INT_MAX

instance (x : ℤ) : Decidable (IsInt x) := inferInstanceAs (Decidable (_ ∧ _))

/-- The `int` that the low 32 bits of `x` stand for. -/
def wrap (x : ℤ) : ℤ := (x + 2147483648) % 4294967296 - 2147483648

/-- `wrap` does nothing to a value that is an `int` already. -/
theorem wrap_of_range {x : ℤ} (hl : -2147483648 ≤ x) (hu : x ≤ INT_MAX) : wrap x = x := by
  unfold INT_MAX at hu
  unfold wrap
  omega

/-- What fits in an `int` is kept. -/
theorem wrap_of_nonneg {x : ℤ} (hl : 0 ≤ x) (hu : x ≤ INT_MAX) : wrap x = x :=
  wrap_of_range (by omega) hu

/-- Every result of `wrap` is an `int`. -/
theorem wrap_range (x : ℤ) : -2147483648 ≤ wrap x ∧ wrap x ≤ INT_MAX := by
  unfold INT_MAX wrap
  omega

/-- Wrapping an intermediate sum changes nothing. -/
@[simp] theorem wrap_wrap_add (x y : ℤ) : wrap (wrap x + y) = wrap (x + y) := by
  unfold wrap
  omega

/-- Wrapping an intermediate difference changes nothing. -/
@[simp] theorem wrap_wrap_sub (x y : ℤ) : wrap (wrap x - y) = wrap (x - y) := by
  unfold wrap
  omega

/-- A sum that is not less than what was added to has not wrapped. -/
theorem wrap_add_of_le {x y : ℤ} (hx : -2147483648 ≤ x ∧ x ≤ INT_MAX) (h0 : 0 ≤ y) (hy : y ≤ INT_MAX)
    (hle : x ≤ wrap (x + y)) : wrap (x + y) = x + y := by
  unfold INT_MAX at hx hy
  unfold wrap at *
  omega

/-- A number that has been converted is in range. -/
@[simp] theorem wrap_wrap (x : ℤ) : wrap (wrap x) = wrap x := by
  unfold wrap
  omega

@[simp] theorem wrap_zero : wrap 0 = 0 := by decide

end CInt
