import Mathlib.Algebra.Order.Ring.Int
import Mathlib.Tactic.Ring

/-!
# Numbers in blocks

The integers of consecutive blocks: block `i` begins at `start i` and has room for `len i` numbers.
A number is named by its block and its offset in the block, and a number of several digits by its
first digit and the rest.

* `Separated` : the blocks of a range do not overlap;
* `separated_of_succ`, `separated_digits` : it is enough to look at neighbours, and blocks of one
  length;
* `Separated.lt_iff` : numbers compare by their blocks first and then by their offsets;
* `Separated.cons_lt_cons_iff` : so they compare as the lists of their digits do.
-/

namespace SdrProxy

/-- No two of the blocks `a` to `b` overlap. -/
def Separated (a b : ℤ) (start len : ℤ → ℤ) : Prop :=
  ∀ i j, a ≤ i → i < j → j ≤ b → start i + len i ≤ start j

variable {a b i j r r' : ℤ} {start len : ℤ → ℤ} {l l' : List ℤ}

/-- Blocks are separated if each ends before the next one begins. -/
theorem separated_of_succ (hlen : ∀ i, a ≤ i → i ≤ b → 0 ≤ len i)
    (hsucc : ∀ i, a ≤ i → i < b → start i + len i ≤ start (i + 1)) : Separated a b start len := by
  intro i j ha hij hb
  obtain ⟨n, rfl⟩ : ∃ n : ℕ, j = i + 1 + n := ⟨(j - i - 1).toNat, by omega⟩
  induction n with
  | zero =>
    rw [Nat.cast_zero, add_zero] at hb ⊢
    exact hsucc i ha (Int.lt_of_add_one_le hb)
  | succ n ih =>
    rw [Nat.cast_succ, ← add_assoc] at hb ⊢
    have hn : i < i + 1 + n := by omega
    have hlt : i + 1 + n < b := Int.lt_of_add_one_le hb
    calc start i + len i ≤ start (i + 1 + n) := ih hn hlt.le
      _ ≤ start (i + 1 + n) + len (i + 1 + n) :=
        le_add_of_nonneg_right (hlen _ (ha.trans hn.le) hlt.le)
      _ ≤ start (i + 1 + n + 1) := hsucc _ (ha.trans hn.le) hlt

theorem separated_digits {n : ℤ} (hn : 0 ≤ n) (a b k : ℤ) :
    Separated a b (fun i => n * i + k) fun _ => n := by
  refine separated_of_succ (fun _ _ _ => hn) ?_
  intro i _ _
  exact le_of_eq (by ring)

namespace Separated

theorem mul (h : Separated a b start len) {c : ℤ} (hc : 0 ≤ c) :
    Separated a b (fun i => c * start i) fun i => c * len i := by
  intro i j ha hij hb
  rw [← mul_add]
  exact mul_le_mul_of_nonneg_left (h i j ha hij hb) hc

/-- Numbers compare by their blocks first and then by their offsets. -/
theorem lt_iff (h : Separated a b start len) (hi : a ≤ i ∧ i ≤ b) (hj : a ≤ j ∧ j ≤ b)
    (hr : 0 ≤ r ∧ r < len i) (hr' : 0 ≤ r' ∧ r' < len j) :
    start i + r < start j + r' ↔ i < j ∨ i = j ∧ r < r' := by
  rcases lt_trichotomy i j with hij | rfl | hij
  · have hsep := h i j hi.1 hij hj.2
    exact iff_of_true (by omega) (.inl hij)
  · rw [add_lt_add_iff_left]
    exact ⟨fun hlt => .inr ⟨rfl, hlt⟩, fun hor => (hor.resolve_left (lt_irrefl i)).2⟩
  · have hsep := h j i hj.1 hij hi.2
    refine iff_of_false (by omega) ?_
    rintro (hlt | ⟨rfl, -⟩)
    · exact lt_asymm hij hlt
    · exact lt_irrefl _ hij

/-- **Numbers compare as the lists of their digits do**, if their offsets in one block do. -/
theorem cons_lt_cons_iff (h : Separated a b start len) (hi : a ≤ i ∧ i ≤ b) (hj : a ≤ j ∧ j ≤ b)
    (hr : 0 ≤ r ∧ r < len i) (hr' : 0 ≤ r' ∧ r' < len j) (hrest : i = j → (r < r' ↔ l < l')) :
    start i + r < start j + r' ↔ i :: l < j :: l' := by
  rw [h.lt_iff hi hj hr hr', List.cons_lt_cons_iff]
  exact or_congr_right (and_congr_right hrest)

end Separated

end SdrProxy
