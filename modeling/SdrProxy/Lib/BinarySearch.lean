import Mathlib.Data.Nat.Notation
import Mathlib.Logic.Function.Iterate
import Mathlib.Tactic.SplitIfs

/-!
# Binary search for the last position that is not past a target

The loop that halves an interval `[min, max]` and keeps a position `min` that is not past the
target, with the interval on the other side past it.

* `LastNotPast past min max r` : `r` is the last position of the interval that is not past;
* `upperBound_spec` : the loop finds it, if `past` stays true once it is true and the fuel covers
  the interval;
* `halve_iterate_done` : the loop ends by its own test: after as many turns as the interval has
  positions one position is left, and further turns change nothing.
-/

namespace SdrProxy

/-- Halve `[min, max]` until one position is left. -/
def upperBound (past : ℕ → Bool) : ℕ → ℕ → ℕ → ℕ
  | 0, min, _ => min
  | fuel + 1, min, max =>
    if min < max then
      let mid := min + (max - min + 1) / 2
      if past mid then upperBound past fuel min (mid - 1) else upperBound past fuel mid max
    else min

/-- `r` is the last position of `[min, max]` that is not past the target. -/
structure LastNotPast (past : ℕ → Bool) (min max r : ℕ) : Prop where
  ge : min ≤ r
  le : r ≤ max
  not_past : past r = false
  past_after : ∀ j, r < j → j ≤ max → past j = true

theorem upperBound_spec {past : ℕ → Bool} {fuel min max top : ℕ} (hfuel : max - min ≤ fuel)
    (hle : min ≤ max) (htop : max ≤ top) (hmin : past min = false)
    (hmono : ∀ i j, i ≤ j → j ≤ top → past i = true → past j = true)
    (hmax : ∀ j, max < j → j ≤ top → past j = true) :
    LastNotPast past min top (upperBound past fuel min max) := by
  induction fuel generalizing min max with
  | zero =>
    obtain rfl : min = max := by omega
    exact ⟨Nat.le_refl _, htop, hmin, hmax⟩
  | succ fuel ih =>
    simp only [upperBound]
    split_ifs with hlt hpast
    · refine ih (by omega) (by omega) (by omega) hmin fun j hj hjt => ?_
      exact hmono _ j (by omega) hjt hpast
    · have hmid : past (min + (max - min + 1) / 2) = false := by simpa using hpast
      have hspec := ih (by omega) (by omega) htop hmid hmax
      exact ⟨by have := hspec.ge; omega, hspec.le, hspec.not_past, hspec.past_after⟩
    · obtain rfl : min = max := by omega
      exact ⟨Nat.le_refl _, htop, hmin, hmax⟩

/-! ### The loop turn by turn -/

section Halve

variable {past : ℕ → Bool} {i : ℕ × ℕ}

/-- One turn of the loop on the interval from `i.1` to `i.2`; without its test nothing changes. -/
def halve (past : ℕ → Bool) (i : ℕ × ℕ) : ℕ × ℕ :=
  if i.1 < i.2 then
    let mid := i.1 + (i.2 - i.1 + 1) / 2
    if past mid then (i.1, mid - 1) else (mid, i.2)
  else i

/-- A turn makes the interval smaller and never empty. -/
theorem halve_lt (past : ℕ → Bool) (h : i.1 < i.2) : (halve past i).1 ≤ (halve past i).2 ∧
    (halve past i).2 - (halve past i).1 < i.2 - i.1 := by
  simp only [halve, h, ↓reduceIte]
  split_ifs <;> dsimp only <;> omega

theorem halve_of_not_lt (h : ¬ i.1 < i.2) : halve past i = i := by
  simp only [halve, h, ↓reduceIte]

theorem halve_iterate_fst (past : ℕ → Bool) (fuel : ℕ) (i : ℕ × ℕ) :
    ((halve past)^[fuel] i).1 = upperBound past fuel i.1 i.2 := by
  induction fuel generalizing i with
  | zero => rfl
  | succ fuel ih =>
    rw [Function.iterate_succ_apply]
    by_cases h : i.1 < i.2
    · rw [ih]
      simp only [halve, upperBound, h, ↓reduceIte]
      split_ifs <;> rfl
    · rw [halve_of_not_lt h, Function.iterate_fixed (halve_of_not_lt h)]
      simp only [upperBound, h, ↓reduceIte]

/-- **The loop ends.** -/
theorem halve_iterate_done (past : ℕ → Bool) {fuel : ℕ} (hle : i.1 ≤ i.2)
    (hfuel : i.2 - i.1 ≤ fuel) :
    ((halve past)^[fuel] i).1 = ((halve past)^[fuel] i).2 := by
  induction fuel generalizing i with
  | zero =>
    rw [Function.iterate_zero_apply]
    omega
  | succ fuel ih =>
    rw [Function.iterate_succ_apply]
    by_cases h : i.1 < i.2
    · obtain ⟨hle', hlt⟩ := halve_lt past h
      exact ih hle' (by omega)
    · rw [halve_of_not_lt h]
      exact ih hle (by omega)

theorem halve_iterate_stable {m n : ℕ} (hle : i.1 ≤ i.2) (hm : i.2 - i.1 ≤ m) (hmn : m ≤ n) :
    (halve past)^[n] i = (halve past)^[m] i := by
  obtain ⟨k, rfl⟩ := Nat.exists_eq_add_of_le' hmn
  have hdone := halve_iterate_done past hle hm
  rw [Function.iterate_add_apply, Function.iterate_fixed]
  exact halve_of_not_lt (by omega)

end Halve

end SdrProxy
