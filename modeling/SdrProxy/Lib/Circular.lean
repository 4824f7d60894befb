import Mathlib.Data.List.Nodup
import Mathlib.Data.List.Perm.Subperm
import Mathlib.Data.Nat.ModEq
import Mathlib.Tactic.SplitIfs

/-!
# Positions on a circle

A circular buffer of `n` cells names its cells by offsets from a start: offset `i` from `s` is the
cell `(s + i) % n`.  The lemmas here turn such remainders into case splits that `omega` closes and
say that different offsets below `n` are different cells, and that cells which keep apart when they
are moved are permuted.
-/

namespace SdrProxy

namespace Circular

variable {n : ℕ}

/-- At most one turn: the remainder is a subtraction. -/
theorem mod_eq_ite {x : ℕ} (h : x < 2 * n) : x % n = if x < n then x else x - n := by
  split_ifs with hx
  · exact Nat.mod_eq_of_lt hx
  · rw [Nat.mod_eq_sub_mod (by omega), Nat.mod_eq_of_lt (by omega)]

theorem offset_inj {s i j : ℕ} (hi : i < n) (hj : j < n) (h : (s + i) % n = (s + j) % n) :
    i = j := by
  have hmod : i % n = j % n := Nat.ModEq.add_left_cancel' s h
  rwa [Nat.mod_eq_of_lt hi, Nat.mod_eq_of_lt hj] at hmod

theorem exists_offset {s p : ℕ} (hs : s < n) (hp : p < n) : ∃ i < n, p = (s + i) % n := by
  by_cases h : s ≤ p
  · exact ⟨p - s, by omega, by rw [Nat.mod_eq_of_lt] <;> omega⟩
  · refine ⟨p + n - s, by omega, ?_⟩
    rw [mod_eq_ite (by omega)]
    split_ifs <;> omega

/-- Cells that are moved to cells, no two to the same one, are permuted. -/
theorem perm_map_range {f : ℕ → ℕ} (hlt : ∀ p < n, f p < n)
    (hinj : ∀ p < n, ∀ q < n, f p = f q → p = q) : ((List.range n).map f).Perm (List.range n) := by
  have hnodup : ((List.range n).map f).Nodup := by
    refine List.Nodup.map_on ?_ List.nodup_range
    intro p hp q hq
    exact hinj p (List.mem_range.1 hp) q (List.mem_range.1 hq)
  have hsub : (List.range n).map f ⊆ List.range n := by
    intro y hy
    obtain ⟨p, hp, rfl⟩ := List.mem_map.1 hy
    exact List.mem_range.2 (hlt p (List.mem_range.1 hp))
  refine (hnodup.subperm hsub).perm_of_length_le ?_
  rw [List.length_map]

end Circular

end SdrProxy
