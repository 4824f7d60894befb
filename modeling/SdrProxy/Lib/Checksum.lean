import Mathlib.Data.List.Basic
import Mathlib.Logic.Function.Basic

/-!
# Check values that are computed by a fold

A check value taken over a list of symbols, one symbol after the other.  If each step can be undone
from either side, no change of a single symbol leaves the value as it was (`foldl_set_ne`).
-/

namespace SdrProxy

section Checksum

variable {α β : Type*}

/-- The step of a check value can be undone: the value before it is determined by the symbol and the
result, and so is the symbol by the value before it. -/
structure Undoable (step : β → α → β) : Prop where
  value : ∀ a, Function.Injective fun b => step b a
  symbol : ∀ b, Function.Injective (step b)

variable {step : β → α → β}

/-- Different values stay different over the same symbols. -/
theorem Undoable.foldl_ne (h : Undoable step) (l : List α) {b c : β} (hne : b ≠ c) :
    l.foldl step b ≠ l.foldl step c := by
  induction l generalizing b c with
  | nil => exact hne
  | cons a l ih => exact ih fun heq => hne (h.value a heq)

/-- **One changed symbol changes the check value.** -/
theorem Undoable.foldl_set_ne (h : Undoable step) {l : List α} {k : ℕ} (hk : k < l.length) {a : α}
    (hne : a ≠ l[k]) (b : β) : (l.set k a).foldl step b ≠ l.foldl step b := by
  induction l generalizing k b with
  | nil => exact absurd hk (Nat.not_lt_zero k)
  | cons x l ih =>
    cases k with
    | zero => exact h.foldl_ne l fun heq => hne (h.symbol b heq)
    | succ k => exact ih (Nat.lt_of_succ_lt_succ hk) hne (step b x)

end Checksum

end SdrProxy
