import Mathlib.Data.List.Perm.Subperm

/-!
# Linked lists in a heap

Cells in a heap, each with a pointer to the next one.

* `Linked` : the cells met from a pointer on, up to the null pointer;
* `Linked.unique`, `Linked.nodup` : they are determined by the pointer, and none is met twice;
* `Linked.congr` : cells may change as long as their pointers stay;
* `Linked.relink` : a cell made to point to another list, which leaves out what was behind it;
* `Linked.concat` : a new cell behind the last one.
-/

namespace SdrProxy

variable {P α : Type*}

/-- The cells met from the pointer on are those at `l`. -/
inductive Linked (next : α → Option P) (heap : P → Option α) : Option P → List P → Prop
  | nil : Linked next heap none []
  | cons {p : P} {c : α} {l : List P} : heap p = some c → Linked next heap (next c) l →
      Linked next heap (some p) (p :: l)

namespace Linked

variable {next : α → Option P} {heap heap' : P → Option α} {head : Option P} {l l' : List P}

theorem head_eq (h : Linked next heap head l) : head = l.head? := by
  cases h with
  | nil => rfl
  | cons _ _ => rfl

theorem unique (h : Linked next heap head l) (h' : Linked next heap head l') : l = l' := by
  induction h generalizing l' with
  | nil =>
    cases h'
    rfl
  | cons hc hrest ih =>
    cases h' with
    | cons hc' hrest' =>
      rw [hc] at hc'
      obtain rfl := Option.some.inj hc'
      rw [ih hrest']

theorem exists_of_mem (h : Linked next heap head l) {p : P} (hp : p ∈ l) :
    ∃ c, heap p = some c := by
  induction h with
  | nil => cases hp
  | @cons q c l hc hrest ih =>
    rcases List.mem_cons.1 hp with rfl | hp
    · exact ⟨c, hc⟩
    · exact ih hp

/-- From every cell of a list on there is a list, which is no longer. -/
theorem tail_of_mem (h : Linked next heap head l) {p : P} (hp : p ∈ l) :
    ∃ t, Linked next heap (some p) t ∧ t.length ≤ l.length := by
  induction h with
  | nil => cases hp
  | @cons q c l hc hrest ih =>
    rcases List.mem_cons.1 hp with rfl | hp
    · exact ⟨p :: l, .cons hc hrest, Nat.le_refl _⟩
    · obtain ⟨t, ht, hle⟩ := ih hp
      exact ⟨t, ht, Nat.le_succ_of_le hle⟩

theorem nodup (h : Linked next heap head l) : l.Nodup := by
  induction h with
  | nil => exact List.nodup_nil
  | @cons p c l hc hrest ih =>
    refine List.nodup_cons.2 ⟨?_, ih⟩
    intro hp
    -- the list from `p` on would be shorter than itself
    obtain ⟨t, ht, hle⟩ := hrest.tail_of_mem hp
    have heq := ht.unique (.cons hc hrest)
    rw [heq, List.length_cons] at hle
    exact absurd hle (Nat.not_succ_le_self _)

theorem length_le_of_lt {next : α → Option ℕ} {heap : ℕ → Option α} {head : Option ℕ} {l : List ℕ}
    (h : Linked next heap head l) {n : ℕ} (hlt : ∀ p ∈ l, p < n) : l.length ≤ n := by
  have hsub : l ⊆ List.range n := fun p hp => List.mem_range.2 (hlt p hp)
  have hle := (h.nodup.subperm hsub).length_le
  rwa [List.length_range] at hle

theorem congr (h : Linked next heap head l) (hsame : ∀ p ∈ l, ∀ c, heap p = some c →
    ∃ c', heap' p = some c' ∧ next c' = next c) : Linked next heap' head l := by
  induction h with
  | nil => exact .nil
  | @cons p c l hc hrest ih =>
    obtain ⟨c', hc', hnext⟩ := hsame p List.mem_cons_self c hc
    refine .cons hc' ?_
    rw [hnext]
    exact ih fun q hq => hsame q (List.mem_cons_of_mem p hq)

theorem of_append (h : Linked next heap head (l ++ l')) : Linked next heap l'.head? l' := by
  induction l generalizing head with
  | nil =>
    rw [List.nil_append] at h
    rwa [← h.head_eq]
  | cons p l ih =>
    cases h with
    | cons _ hrest => exact ih hrest

/-- The cell `z` is made to point to another list, which takes the place of what was behind it. -/
theorem relink {t : List P} (h : Linked next heap head (l ++ l')) {z : P} {cz : α}
    (hz : l.getLast? = some z)
    (hsame : ∀ p ∈ l, p ≠ z → ∀ c, heap p = some c → ∃ c', heap' p = some c' ∧ next c' = next c)
    (hlast : heap' z = some cz) (ht : Linked next heap' (next cz) t) :
    Linked next heap' head (l ++ t) := by
  induction l generalizing head with
  | nil => cases hz
  | cons p l ih =>
    have hnodup := h.nodup
    cases h with
    | @cons _ c _ hc hrest =>
      cases l with
      | nil =>
        obtain rfl : p = z := Option.some.inj hz
        exact .cons hlast ht
      | cons p' l =>
        rw [List.getLast?_cons_cons] at hz
        -- the cell `z` is another one
        have hne : p ≠ z := by
          rintro rfl
          have hmem := List.mem_append_left l' (List.mem_of_getLast? hz)
          exact (List.nodup_cons.1 hnodup).1 hmem
        obtain ⟨c', hc', hnext⟩ := hsame p List.mem_cons_self hne c hc
        refine .cons hc' ?_
        rw [hnext]
        exact ih hrest hz fun q hq => hsame q (List.mem_cons_of_mem p hq)

theorem concat (h : Linked next heap head l) {z q : P} {cz cq : α} (hz : l.getLast? = some z)
    (hsame : ∀ p ∈ l, p ≠ z → ∀ c, heap p = some c → ∃ c', heap' p = some c' ∧ next c' = next c)
    (hlast : heap' z = some cz) (hto : next cz = some q) (hnew : heap' q = some cq)
    (hend : next cq = none) : Linked next heap' head (l ++ [q]) := by
  have hq : Linked next heap' (next cz) [q] := by
    rw [hto]
    refine .cons hnew ?_
    rw [hend]
    exact .nil
  rw [← List.append_nil l] at h
  exact h.relink hz hsame hlast hq

end Linked

end SdrProxy
