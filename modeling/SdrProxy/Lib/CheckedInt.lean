import Mathlib.Algebra.Order.Ring.Int
import Mathlib.Tactic.SplitIfs

/-!
# `int` arithmetic without overflow

Integers of 32 bits as C has them: an operation whose result is not an `int` has no meaning, and
none is given to it here.

* `CheckedInt.add`, `CheckedInt.sub`, `CheckedInt.rem` : `+`, `-` and `%` on `int`;
* `CheckedInt.add_eq_none` : where a sum overflows.
-/

namespace SdrProxy

namespace CheckedInt

/-- The values of an `int`. -/
def IsInt (x : ℤ) : Prop := -2147483648 ≤ x ∧ x ≤ 2147483647

instance (x : ℤ) : Decidable (IsInt x) := inferInstanceAs (Decidable (_ ∧ _))

/-- A result, if it is an `int`. -/
def checked (x : ℤ) : Option ℤ := if IsInt x then some x else none

/-- `+`. -/
def add (x y : ℤ) : Option ℤ := checked (x + y)

/-- `-`. -/
def sub (x y : ℤ) : Option ℤ := checked (x - y)

/-- `%`, of the sign of `x`; it needs a quotient that is an `int`. -/
def rem (x y : ℤ) : Option ℤ :=
  if y = 0 then none else (checked (x.tdiv y)).map fun _ => x.tmod y

variable {x y : ℤ} {m n : ℕ}

theorem isInt_natCast : IsInt n ↔ n < 2 ^ 31 := by
  unfold IsInt
  omega

theorem add_eq (h : IsInt (x + y)) : add x y = some (x + y) := if_pos h

theorem add_eq_none (h : ¬ IsInt (x + y)) : add x y = none := if_neg h

theorem sub_eq (h : IsInt (x - y)) : sub x y = some (x - y) := if_pos h

/-- The remainder of natural numbers. -/
theorem rem_natCast (hm : m < 2 ^ 31) (hn : 0 < n) : rem m n = some ((m % n : ℕ) : ℤ) := by
  have hquot : IsInt ((m : ℤ).tdiv n) := by
    rw [← Int.ofNat_tdiv, isInt_natCast]
    exact Nat.lt_of_le_of_lt (Nat.div_le_self m n) hm
  rw [rem, if_neg (by omega), checked, if_pos hquot, Option.map_some, Int.ofNat_tmod]

end CheckedInt

end SdrProxy
