import SdrProxy.Util
import SdrProxy.Lib.Circular
import SdrProxy.Lib.Stdio

/-!
# The byte rings

`buffer.c`: the ring of bytes behind every socket, and the search of a ring for a token or for a
channel info text.

* `RingSet` is `struct ringset`.  Its two bounds are fields, so that the pointers of a ring never
  leave its memory.  Its numbers are natural ones; `IntRing` has the `int`s of the source, which
  make no difference for the rings of the program (`Core.rings_int`).
* `RingSet.store`, `RingSet.view`, `RingSet.retr`, `RingSet.delete` and the counting functions are
  the branches of `ring_ops`; the result -1 of a refused `RING_STORE` or `RING_DELETE` is kept as
  an integer, that of a refused `RING_VIEW` or `RING_RETR` is `none`.
* `RingSet.contents` is what the ring holds, oldest byte first; every operation is described by its
  effect on the contents, and nothing below this file looks at the pointers again.
-/

namespace SdrProxy

/-- `struct ringset`. -/
structure RingSet where
  /-- Index of the oldest byte. -/
  readptr : ℕ
  /-- Index of the place for the next byte. -/
  writeptr : ℕ
  /-- One more than the number of bytes the ring can store. -/
  bfrsize : ℕ
  /-- The allocated memory. -/
  ring : Bfr
  readptr_lt : readptr < bfrsize
  writeptr_lt : writeptr < bfrsize

namespace RingSet

/-- `RING_ALLOC` of `bytes` bytes, in memory that holds `mem`. -/
def alloc (bytes : ℕ) (mem : Bfr) : RingSet where
  readptr := 0
  writeptr := 0
  bfrsize := bytes + 1
  ring := mem
  readptr_lt := Nat.succ_pos bytes
  writeptr_lt := Nat.succ_pos bytes

/-- `RING_INIT`. -/
def init (r : RingSet) : RingSet where
  readptr := 0
  writeptr := 0
  bfrsize := r.bfrsize
  ring := r.ring
  readptr_lt := Nat.lt_of_le_of_lt (Nat.zero_le _) r.readptr_lt
  writeptr_lt := Nat.lt_of_le_of_lt (Nat.zero_le _) r.writeptr_lt

/-- `ring_normalize`. -/
def normalize (index : ℕ) (r : RingSet) : ℕ := (index + r.bfrsize) % r.bfrsize

theorem normalize_lt (index : ℕ) (r : RingSet) : r.normalize index < r.bfrsize :=
  Nat.mod_lt _ (Nat.lt_of_le_of_lt (Nat.zero_le _) r.readptr_lt)

/-- `ring_bytes_free`; the terms are ordered so that no difference is negative. -/
def bytesFree (r : RingSet) : ℕ := (r.readptr + (r.bfrsize - 1 - r.writeptr)) % r.bfrsize

/-- `ring_bytes_stored`; the terms are ordered so that no difference is negative. -/
def bytesStored (r : RingSet) : ℕ := (r.writeptr + (r.bfrsize - r.readptr)) % r.bfrsize

/-- `ring_isfull`. -/
def isFull (r : RingSet) : Bool := (r.writeptr + 1) % r.bfrsize = r.readptr

/-- `ring_isempty`. -/
def isEmpty (r : RingSet) : Bool := r.readptr = r.writeptr

/-- `RING_STORE` of the bytes `bfr`: copied in two parts where they wrap. -/
def store (bfr : List UInt8) (r : RingSet) : ℤ × RingSet :=
  if r.bytesFree < bfr.length then (-1, r)
  else
    let part := r.bfrsize - r.writeptr
    let ring :=
      if part < bfr.length then
        (r.ring.load r.writeptr (bfr.take part)).load 0 (bfr.drop part)
      else r.ring.load r.writeptr bfr
    (0, { r with
      writeptr := r.normalize (r.writeptr + bfr.length)
      ring := ring
      writeptr_lt := r.normalize_lt _ })

/-- `RING_VIEW` of `bytes` bytes: read in two parts where they wrap. -/
def view (bytes : ℕ) (r : RingSet) : Option (List UInt8) :=
  if 0 < bytes ∧ r.bytesStored < bytes then none
  else
    let part := r.bfrsize - r.readptr
    some (if part < bytes then r.ring.read r.readptr part ++ r.ring.read 0 (bytes - part)
      else r.ring.read r.readptr bytes)

/-- `ring->readptr` moved on by `bytes`. -/
def advance (bytes : ℕ) (r : RingSet) : RingSet :=
  { r with
    readptr := r.normalize (r.readptr + bytes)
    readptr_lt := r.normalize_lt _ }

/-- `RING_RETR` of `bytes` bytes. -/
def retr (bytes : ℕ) (r : RingSet) : Option (List UInt8 × RingSet) :=
  (r.view bytes).map fun bfr => (bfr, r.advance bytes)

/-- `RING_DELETE` of `bytes` bytes. -/
def delete (bytes : ℕ) (r : RingSet) : ℤ × RingSet :=
  if 0 < bytes ∧ bytes ≤ r.bytesStored then (0, r.advance bytes) else (-1, r)

/-! ### What a ring holds -/

/-- The bytes on the ring, oldest first. -/
def contents (r : RingSet) : List UInt8 :=
  (List.range r.bytesStored).map fun i => r.ring ((r.readptr + i) % r.bfrsize)

variable {r : RingSet} {bfr : List UInt8} {n : ℕ}

@[simp] theorem length_contents (r : RingSet) : r.contents.length = r.bytesStored := by
  simp [contents]

theorem getElem_contents {i : ℕ} (h : i < r.contents.length) :
    r.contents[i] = r.ring ((r.readptr + i) % r.bfrsize) := by
  simp [contents]

theorem bytesStored_lt (r : RingSet) : r.bytesStored < r.bfrsize :=
  Nat.mod_lt _ (Nat.lt_of_le_of_lt (Nat.zero_le _) r.readptr_lt)

theorem bytesStored_eq_ite (r : RingSet) : r.bytesStored =
    if r.readptr ≤ r.writeptr then r.writeptr - r.readptr
    else r.writeptr + r.bfrsize - r.readptr := by
  have h₁ := r.readptr_lt
  have h₂ := r.writeptr_lt
  rw [bytesStored, Circular.mod_eq_ite (by omega)]
  split_ifs <;> omega

theorem bytesFree_eq_ite (r : RingSet) : r.bytesFree =
    if r.readptr ≤ r.writeptr then r.readptr + (r.bfrsize - 1) - r.writeptr
    else r.readptr - 1 - r.writeptr := by
  have h₁ := r.readptr_lt
  have h₂ := r.writeptr_lt
  rw [bytesFree, Circular.mod_eq_ite (by omega)]
  split_ifs <;> omega

/-- **No byte is unaccounted for**: stored and free bytes make up the capacity. -/
theorem bytesStored_add_bytesFree (r : RingSet) : r.bytesStored + r.bytesFree = r.bfrsize - 1 := by
  have h₁ := r.readptr_lt
  have h₂ := r.writeptr_lt
  rw [bytesStored_eq_ite, bytesFree_eq_ite]
  split_ifs <;> omega

theorem writeptr_eq (r : RingSet) : r.writeptr = (r.readptr + r.bytesStored) % r.bfrsize := by
  have h₁ := r.readptr_lt
  have h₂ := r.writeptr_lt
  rw [bytesStored_eq_ite]
  split_ifs with h
  · rw [Nat.mod_eq_of_lt (by omega)]; omega
  · rw [Circular.mod_eq_ite (by omega)]; split_ifs <;> omega

theorem isFull_iff (r : RingSet) : r.isFull = true ↔ r.bytesFree = 0 := by
  have h₁ := r.readptr_lt
  have h₂ := r.writeptr_lt
  rw [isFull, decide_eq_true_eq, bytesFree_eq_ite, Circular.mod_eq_ite (by omega)]
  split_ifs <;> omega

theorem isEmpty_iff (r : RingSet) : r.isEmpty = true ↔ r.bytesStored = 0 := by
  have h₁ := r.readptr_lt
  have h₂ := r.writeptr_lt
  rw [isEmpty, decide_eq_true_eq, bytesStored_eq_ite]
  split_ifs <;> omega

@[simp] theorem bfrsize_alloc (n : ℕ) (mem : Bfr) : (alloc n mem).bfrsize = n + 1 := rfl
@[simp] theorem bfrsize_init (r : RingSet) : r.init.bfrsize = r.bfrsize := rfl
@[simp] theorem bfrsize_advance (n : ℕ) (r : RingSet) : (r.advance n).bfrsize = r.bfrsize := rfl

@[simp] theorem bfrsize_store (bfr : List UInt8) (r : RingSet) :
    (r.store bfr).2.bfrsize = r.bfrsize := by
  unfold store; split_ifs <;> rfl

@[simp] theorem bfrsize_delete (n : ℕ) (r : RingSet) : (r.delete n).2.bfrsize = r.bfrsize := by
  unfold delete; split_ifs <;> rfl

@[simp] theorem contents_alloc (n : ℕ) (mem : Bfr) : (alloc n mem).contents = [] := by
  rw [← List.length_eq_zero_iff, length_contents, ← isEmpty_iff]; rfl

@[simp] theorem contents_init (r : RingSet) : r.init.contents = [] := by
  rw [← List.length_eq_zero_iff, length_contents, ← isEmpty_iff]; rfl

/-- Two reads at the ends of the memory read on around the circle. -/
theorem read_wrapped (r : RingSet) (hn : n ≤ r.bfrsize) :
    (if r.bfrsize - r.readptr < n then
        r.ring.read r.readptr (r.bfrsize - r.readptr) ++
          r.ring.read 0 (n - (r.bfrsize - r.readptr))
      else r.ring.read r.readptr n) =
      (List.range n).map fun i => r.ring ((r.readptr + i) % r.bfrsize) := by
  have h₁ := r.readptr_lt
  split_ifs with hwrap
  · apply List.ext_getElem
    · simp only [List.length_append, Bfr.length_read, List.length_map, List.length_range]
      omega
    · intro i hi₁ hi₂
      rw [List.length_map, List.length_range] at hi₂
      rw [List.getElem_map, List.getElem_range, Circular.mod_eq_ite (by omega)]
      split_ifs with hlt
      · -- a cell at the end of the memory
        rw [List.getElem_append_left (by rw [Bfr.length_read]; omega), Bfr.getElem_read]
      · -- a cell at its beginning
        rw [List.getElem_append_right (by rw [Bfr.length_read]; omega), Bfr.getElem_read,
          Bfr.length_read]
        congr 1
        omega
  · apply List.map_congr_left
    intro i hi
    rw [List.mem_range] at hi
    rw [Nat.mod_eq_of_lt (by omega)]

theorem view_eq (h : n ≤ r.bytesStored) : r.view n = some (r.contents.take n) := by
  have hcond : ¬ (0 < n ∧ r.bytesStored < n) := by omega
  have hlt := r.bytesStored_lt
  simp only [view, hcond, ↓reduceIte, read_wrapped r (by omega : n ≤ r.bfrsize), contents,
    ← List.map_take, List.take_range, Nat.min_eq_left h]

theorem view_eq_none (h : r.bytesStored < n) : r.view n = none := by
  simp only [view, h, and_true, show 0 < n by omega, ↓reduceIte]

theorem bytesStored_advance (h : n ≤ r.bytesStored) :
    (r.advance n).bytesStored = r.bytesStored - n := by
  have h₁ := r.readptr_lt
  have h₂ := r.writeptr_lt
  have hs := r.bytesStored_eq_ite
  rw [bytesStored_eq_ite]
  simp only [advance, normalize, Nat.add_mod_right]
  split_ifs at hs with hrw
  · rw [Nat.mod_eq_of_lt (by omega)]
    split_ifs <;> omega
  · rw [Circular.mod_eq_ite (by omega)]
    split_ifs <;> omega

theorem contents_advance (h : n ≤ r.bytesStored) : (r.advance n).contents = r.contents.drop n := by
  apply List.ext_getElem
  · simp [bytesStored_advance h]
  · intro i h₁ h₂
    rw [getElem_contents, List.getElem_drop, getElem_contents]
    simp only [advance, normalize, Nat.add_mod_right, Nat.mod_add_mod]
    rw [Nat.add_assoc]

/-- `RING_RETR` yields the oldest bytes and removes them. -/
theorem retr_eq (h : n ≤ r.bytesStored) :
    r.retr n = some (r.contents.take n, r.advance n) := by
  rw [retr, view_eq h]; rfl

theorem delete_eq (h₀ : 0 < n) (h : n ≤ r.bytesStored) : r.delete n = (0, r.advance n) := by
  simp only [delete, h₀, h, and_self, ↓reduceIte]

theorem contents_delete (h : n ≤ r.bytesStored) :
    (r.delete n).2.contents = r.contents.drop n := by
  rcases Nat.eq_zero_or_pos n with rfl | h₀
  · simp [delete]
  · rw [delete_eq h₀ h, contents_advance h]

theorem store_eq_refused (h : r.bytesFree < bfr.length) : r.store bfr = (-1, r) := by
  simp only [store, h, ↓reduceIte]

theorem store_fst (h : bfr.length ≤ r.bytesFree) : (r.store bfr).1 = 0 := by
  simp only [store, Nat.not_lt.2 h, ↓reduceIte]

theorem ring_store_new (h : bfr.length ≤ r.bytesFree) {j : ℕ} (hj : j < bfr.length) :
    (r.store bfr).2.ring ((r.writeptr + j) % r.bfrsize) = bfr[j] := by
  have h₂ := r.writeptr_lt
  have hsum := r.bytesStored_add_bytesFree
  have hnot : ¬ r.bytesFree < bfr.length := by omega
  simp only [store, hnot, ↓reduceIte]
  rw [Circular.mod_eq_ite (by omega)]
  by_cases hwrap : r.bfrsize - r.writeptr < bfr.length
  · simp only [hwrap, ↓reduceIte]
    split_ifs with hlt
    · -- the second copy starts at cell 0 and ends before the first one
      rw [Bfr.load_of_ge (by rw [List.length_drop]; omega),
        Bfr.load_add (by rw [List.length_take]; omega), List.getElem_take]
    · have hj' : r.writeptr + j - r.bfrsize = 0 + (j - (r.bfrsize - r.writeptr)) := by omega
      rw [hj', Bfr.load_add (by rw [List.length_drop]; omega), List.getElem_drop]
      congr 1
      omega
  · have hlt : r.writeptr + j < r.bfrsize := by omega
    simp only [hwrap, hlt, ↓reduceIte]
    exact Bfr.load_add hj

theorem ring_store_old (h : bfr.length ≤ r.bytesFree) {i : ℕ} (hi : i < r.bytesStored) :
    (r.store bfr).2.ring ((r.readptr + i) % r.bfrsize) =
      r.ring ((r.readptr + i) % r.bfrsize) := by
  have h₁ := r.readptr_lt
  have hsum := r.bytesStored_add_bytesFree
  have hw := r.writeptr_eq
  have hnot : ¬ r.bytesFree < bfr.length := by omega
  simp only [store, hnot, ↓reduceIte]
  rw [Circular.mod_eq_ite (by omega)] at hw ⊢
  by_cases hwrap : r.bfrsize - r.writeptr < bfr.length
  · -- the new bytes reach around to the cells before the read pointer
    simp only [hwrap, ↓reduceIte]
    split_ifs at hw ⊢ <;>
      first
      | omega
      | rw [Bfr.load_of_ge (by rw [List.length_drop]; omega), Bfr.load_of_lt (by omega)]
  · simp only [hwrap, ↓reduceIte]
    split_ifs at hw ⊢ <;>
      first
      | omega
      | exact Bfr.load_of_lt (by omega)
      | exact Bfr.load_of_ge (by omega)

theorem bytesStored_store (h : bfr.length ≤ r.bytesFree) :
    (r.store bfr).2.bytesStored = r.bytesStored + bfr.length := by
  have h₁ := r.readptr_lt
  have h₂ := r.writeptr_lt
  have hsum := r.bytesStored_add_bytesFree
  have hs := r.bytesStored_eq_ite
  have hnot : ¬ r.bytesFree < bfr.length := by omega
  rw [bytesStored_eq_ite]
  simp only [store, hnot, ↓reduceIte, normalize, Nat.add_mod_right]
  rw [Circular.mod_eq_ite (by omega)]
  split_ifs at hs ⊢ <;> omega

/-- `RING_STORE` appends what fits. -/
theorem contents_store (h : bfr.length ≤ r.bytesFree) :
    (r.store bfr).2.contents = r.contents ++ bfr := by
  have hread : (r.store bfr).2.readptr = r.readptr := by
    unfold store; split_ifs <;> rfl
  apply List.ext_getElem
  · simp [bytesStored_store h]
  · intro i h₁ h₂
    rw [getElem_contents, bfrsize_store, hread]
    rcases Nat.lt_or_ge i r.bytesStored with hi | hi
    · -- a byte that was stored before
      rw [ring_store_old h hi, List.getElem_append_left (by simpa using hi), getElem_contents]
    · -- the new byte `j`, at the place that `writeptr` names
      obtain ⟨j, rfl⟩ := Nat.exists_eq_add_of_le hi
      have hj : j < bfr.length := by simpa using h₂
      rw [List.getElem_append_right (by simp), ← Nat.add_assoc, ← Nat.mod_add_mod, ← writeptr_eq,
        ring_store_new h hj]
      simp

end RingSet

end SdrProxy
