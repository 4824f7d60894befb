import Mathlib.Data.List.Basic

/-!
# Bounded queues

A first-in first-out queue with room for a fixed number of elements, and its operations for whole
blocks of elements.  An operation that cannot be done in full is refused (`none`).

* `Fifo.append` puts a block behind the others, `Fifo.front` reads the oldest ones, `Fifo.remove`
  drops them;
* `Fifo.free` says how many more elements fit.
-/

namespace SdrProxy

/-- A queue of at most `cap` elements, oldest first. -/
structure Fifo (α : Type*) (cap : ℕ) where
  /-- The elements. -/
  items : List α
  le : items.length ≤ cap

namespace Fifo

variable {α : Type*} {cap : ℕ}

/-- The queue without elements. -/
def empty (α : Type*) (cap : ℕ) : Fifo α cap := ⟨[], Nat.zero_le _⟩

/-- How many more elements fit. -/
def free (q : Fifo α cap) : ℕ := cap - q.items.length

/-- The block `l` behind the others, if it fits. -/
def append (l : List α) (q : Fifo α cap) : Option (Fifo α cap) :=
  if h : l.length ≤ q.free then
    some ⟨q.items ++ l, by have := q.le; rw [free] at h; rw [List.length_append]; omega⟩
  else none

/-- The `n` oldest elements, if there are as many. -/
def front (n : ℕ) (q : Fifo α cap) : Option (List α) :=
  if n ≤ q.items.length then some (q.items.take n) else none

/-- The queue without its `n` oldest elements, if there are as many. -/
def remove (n : ℕ) (q : Fifo α cap) : Option (Fifo α cap) :=
  if n ≤ q.items.length then
    some ⟨q.items.drop n, by have := q.le; rw [List.length_drop]; omega⟩
  else none

/-- No element is unaccounted for. -/
theorem length_add_free (q : Fifo α cap) : q.items.length + q.free = cap := by
  have := q.le
  rw [free]
  omega

theorem append_of_le {l : List α} {q : Fifo α cap} (h : l.length ≤ q.free) :
    ∃ q', q.append l = some q' ∧ q'.items = q.items ++ l := by
  simp only [append, h, ↓reduceDIte]
  exact ⟨_, rfl, rfl⟩

theorem append_of_lt {l : List α} {q : Fifo α cap} (h : q.free < l.length) : q.append l = none := by
  simp only [append, Nat.not_le.2 h, ↓reduceDIte]

theorem front_of_le {n : ℕ} {q : Fifo α cap} (h : n ≤ q.items.length) :
    q.front n = some (q.items.take n) := by
  simp only [front, h, ↓reduceIte]

theorem front_of_lt {n : ℕ} {q : Fifo α cap} (h : q.items.length < n) : q.front n = none := by
  simp only [front, Nat.not_le.2 h, ↓reduceIte]

theorem remove_of_lt {n : ℕ} {q : Fifo α cap} (h : q.items.length < n) : q.remove n = none := by
  simp only [remove, Nat.not_le.2 h, ↓reduceIte]

theorem remove_of_le {n : ℕ} {q : Fifo α cap} (h : n ≤ q.items.length) :
    ∃ q', q.remove n = some q' ∧ q'.items = q.items.drop n := by
  simp only [remove, h, ↓reduceIte]
  exact ⟨_, rfl, rfl⟩

end Fifo

end SdrProxy
