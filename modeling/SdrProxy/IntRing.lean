import SdrProxy.Lib.CheckedInt
import SdrProxy.Queue

/-!
# The byte ring with its `int` members

`ring_ops` as the source computes it: pointers and counts are `int`, whose arithmetic must not
overflow, and the bytes are in a block of memory that must not be left.  A call that would do either
has no result.

* `IntRing` is `struct ringset` with its block; `intRingOps` is `ring_ops`.
* `RingSet.intRingOps_eq` : a call does what it does on natural numbers, in a ring of a third of the
  positive `int` values.
* `RefinesQueue` : after `RING_ALLOC` of `n` bytes the ring is a queue of at most `n` bytes.
* `refinesQueue_iff` : it is for every `n` with `3 * n + 1 < 2 ^ 31`, and for no other.
-/

namespace SdrProxy

open CheckedInt

/-- `struct ringset`, with the block that `malloc` returned. -/
structure IntRing where
  readptr : ℤ
  writeptr : ℤ
  bfrsize : ℤ
  /-- The bytes of the block. -/
  ring : Bfr
  /-- The number of bytes in the block. -/
  size : ℕ

namespace IntRing

/-- The block holds `count` bytes from `start` on. -/
def InBlock (start count : ℤ) (r : IntRing) : Prop :=
  0 ≤ start ∧ 0 ≤ count ∧ start + count ≤ r.size

instance (start count : ℤ) (r : IntRing) : Decidable (r.InBlock start count) :=
  inferInstanceAs (Decidable (_ ∧ _ ∧ _))

/-- `memcpy` from the block. -/
def copyFrom (start count : ℤ) (r : IntRing) : Option (List UInt8) :=
  if r.InBlock start count then some (r.ring.read start.toNat count.toNat) else none

/-- `memcpy` of the first `count` bytes of `bfr` to the block. -/
def copyTo (start count : ℤ) (bfr : List UInt8) (r : IntRing) : Option IntRing :=
  if r.InBlock start count ∧ count ≤ bfr.length then
    some { r with ring := r.ring.load start.toNat (bfr.take count.toNat) }
  else none

/-- `ring_normalize`. -/
def normalize (index : ℤ) (r : IntRing) : Option ℤ := do
  rem (← add index r.bfrsize) r.bfrsize

/-- `(to - from + bfrsize - 1) % bfrsize`. -/
def gap (src dst : ℤ) (r : IntRing) : Option ℤ := do
  rem (← sub (← add (← sub dst src) r.bfrsize) 1) r.bfrsize

/-- `ring_bytes_free`. -/
def bytesFree (r : IntRing) : Option ℤ := do
  -- `writelog` is handed the count with the pointers the other way
  let _ ← r.gap r.readptr r.writeptr
  r.gap r.writeptr r.readptr

/-- `ring_bytes_stored`. -/
def bytesStored (r : IntRing) : Option ℤ := do
  rem (← add (← sub r.writeptr r.readptr) r.bfrsize) r.bfrsize

/-- `ring_isfull`. -/
def isFull (r : IntRing) : Option Bool := do
  return (← rem (← add r.writeptr 1) r.bfrsize) = r.readptr

/-- `ring_isempty`. -/
def isEmpty (r : IntRing) : Bool := r.readptr = r.writeptr

/-- `RING_ALLOC`, where there is memory, which holds `mem`. -/
def alloc (bytes : ℕ) (mem : Bfr) : Option IntRing := do
  let size ← add bytes 1
  return ⟨0, 0, size, mem, size.toNat⟩

/-- `ring->writeptr` moved on by `bytes`. -/
def moveWrite (bytes : ℤ) (r : IntRing) : Option IntRing := do
  let writeptr ← r.normalize (← add r.writeptr bytes)
  let r := { r with writeptr := writeptr }
  -- for `writelog`
  let _ ← r.bytesStored
  return r

/-- `ring->readptr` moved on by `bytes`. -/
def moveRead (bytes : ℤ) (r : IntRing) : Option IntRing := do
  let readptr ← r.normalize (← add r.readptr bytes)
  let r := { r with readptr := readptr }
  -- for `writelog`
  let _ ← r.bytesStored
  return r

/-- `RING_STORE` of the bytes `bfr`. -/
def store (bfr : List UInt8) (r : IntRing) : Option (ℤ × IntRing) := do
  let bytes : ℤ := bfr.length
  if bytes > (← r.bytesFree) then return (-1, r)
  else
    let part ← sub r.bfrsize r.writeptr
    if bytes > part then
      let r ← r.copyTo r.writeptr part bfr
      let r ← r.copyTo 0 (← sub bytes part) (bfr.drop part.toNat)
      return (0, ← r.moveWrite bytes)
    else
      let r ← r.copyTo r.writeptr bytes bfr
      return (0, ← r.moveWrite bytes)

/-- `(bytes > 0) && cond(ring_bytes_stored(ring))`, which counts the bytes only if there are any to
ask for. -/
def testStored (bytes : ℕ) (cond : ℤ → Bool) (r : IntRing) : Option Bool :=
  if bytes > 0 then r.bytesStored.map cond else some false

/-- `RING_VIEW` of `bytes` bytes, which it may refuse. -/
def view (bytes : ℕ) (r : IntRing) : Option (Option (List UInt8)) := do
  if ← r.testStored bytes fun stored => bytes > stored then return none
  else
    let part ← sub r.bfrsize r.readptr
    if bytes > part then
      return some ((← r.copyFrom r.readptr part) ++ (← r.copyFrom 0 (← sub bytes part)))
    else return some (← r.copyFrom r.readptr bytes)

/-- `RING_RETR` of `bytes` bytes, which it may refuse. -/
def retr (bytes : ℕ) (r : IntRing) : Option (Option (List UInt8 × IntRing)) := do
  match ← r.view bytes with
  | none => return none
  | some bfr => return some (bfr, ← r.moveRead bytes)

/-- `RING_DELETE` of `bytes` bytes. -/
def delete (bytes : ℕ) (r : IntRing) : Option (ℤ × IntRing) := do
  if ← r.testStored bytes fun stored => bytes ≤ stored then return (0, ← r.moveRead bytes)
  else return (-1, r)

end IntRing

/-- The argument `bytes` of a call, 0 where the call ignores it. -/
def RingCall.bytes : RingCall → ℕ
  | .store bfr => bfr.length
  | .retr bytes | .view bytes | .delete bytes => bytes
  | .init | .ismt | .isfull | .elementsFree | .elementsStored => 0

/-- `ring_ops`. -/
def intRingOps : RingCall → IntRing → Option (RingReply × IntRing)
  | .init, r => some ((0, []), { r with readptr := 0, writeptr := 0 })
  | .store bfr, r => (r.store bfr).map fun (rv, r') => ((rv, []), r')
  | .retr bytes, r => (r.retr bytes).map fun
    | none => ((-1, []), r)
    | some (bfr, r') => ((0, bfr), r')
  | .view bytes, r => (r.view bytes).map fun
    | none => ((-1, []), r)
    | some bfr => ((0, bfr), r)
  | .delete bytes, r => (r.delete bytes).map fun (rv, r') => ((rv, []), r')
  | .ismt, r => some ((r.isEmpty.toNat, []), r)
  | .isfull, r => r.isFull.map fun full => ((full.toNat, []), r)
  | .elementsFree, r => r.bytesFree.map fun n => ((n, []), r)
  | .elementsStored, r => r.bytesStored.map fun n => ((n, []), r)

/-- A ring with `int` members as a machine that answers calls. -/
def intRingMachine : Machine IntRing RingCall RingReply :=
  ⟨fun r call => (intRingOps call r).map fun x => (x.2, [x.1])⟩

/-! ### Where nothing overflows -/

namespace RingSet

/-- The ring in a block of its size. -/
def toInt (r : RingSet) : IntRing := ⟨r.readptr, r.writeptr, r.bfrsize, r.ring, r.bfrsize⟩

/-- The pointers are so near that their distance can be taken. -/
structure Near (r : RingSet) : Prop where
  stored : r.writeptr + r.bfrsize < r.readptr + 2 ^ 31
  free : r.readptr + r.bfrsize < r.writeptr + 2 ^ 31

variable {r : RingSet} {bfr : List UInt8} {bytes index : ℕ}

theorem bytesStored_toInt (h : r.Near) : r.toInt.bytesStored = some (r.bytesStored : ℤ) := by
  have h₁ := r.readptr_lt
  have h₂ := r.writeptr_lt
  obtain ⟨hs, hf⟩ := h
  have hsub : IsInt ((r.writeptr : ℤ) - r.readptr) := by unfold IsInt; omega
  have hadd : IsInt ((r.writeptr : ℤ) - r.readptr + r.bfrsize) := by unfold IsInt; omega
  have hcast : (r.writeptr : ℤ) - r.readptr + r.bfrsize =
      ((r.writeptr + (r.bfrsize - r.readptr) : ℕ) : ℤ) := by omega
  unfold IntRing.bytesStored
  simp only [toInt, sub_eq hsub, add_eq hadd, Option.bind_eq_bind, Option.bind_some]
  rw [hcast, rem_natCast (by omega) (by omega)]
  rfl

theorem gap_toInt {src dst : ℕ} (hs : src < r.bfrsize) (hback : src < dst + 2 ^ 31)
    (hfar : dst + r.bfrsize < src + 2 ^ 31) :
    r.toInt.gap src dst = some (((dst + (r.bfrsize - 1 - src)) % r.bfrsize : ℕ) : ℤ) := by
  have hsub : IsInt ((dst : ℤ) - src) := by unfold IsInt; omega
  have hadd : IsInt ((dst : ℤ) - src + r.bfrsize) := by unfold IsInt; omega
  have hone : IsInt ((dst : ℤ) - src + r.bfrsize - 1) := by unfold IsInt; omega
  have hcast : (dst : ℤ) - src + r.bfrsize - 1 = ((dst + (r.bfrsize - 1 - src) : ℕ) : ℤ) := by
    omega
  unfold IntRing.gap
  simp only [toInt, sub_eq hsub, add_eq hadd, sub_eq hone, Option.bind_eq_bind, Option.bind_some]
  rw [hcast, rem_natCast (by omega) (by omega)]

theorem bytesFree_toInt (h : r.Near) : r.toInt.bytesFree = some (r.bytesFree : ℤ) := by
  have h₁ := r.readptr_lt
  have h₂ := r.writeptr_lt
  obtain ⟨hs, hf⟩ := h
  have hlog : r.toInt.gap r.toInt.readptr r.toInt.writeptr = _ := gap_toInt h₁ (by omega) hs
  have hfree : r.toInt.gap r.toInt.writeptr r.toInt.readptr = _ := gap_toInt h₂ (by omega) hf
  rw [IntRing.bytesFree, hlog, hfree]
  rfl

/-- In a ring of half the `int` values or fewer, the pointers are always near. -/
theorem near_of_le (h : 2 * r.bfrsize ≤ 2 ^ 31) : r.Near := by
  have h₁ := r.readptr_lt
  have h₂ := r.writeptr_lt
  exact ⟨by omega, by omega⟩

theorem normalize_toInt (h : index + r.bfrsize < 2 ^ 31) :
    r.toInt.normalize index = some (r.normalize index : ℤ) := by
  have h₁ := r.readptr_lt
  have hadd : IsInt ((index : ℤ) + r.bfrsize) := by unfold IsInt; omega
  unfold IntRing.normalize
  simp only [toInt, add_eq hadd, Option.bind_eq_bind, Option.bind_some]
  rw [← Nat.cast_add, rem_natCast h (by omega)]
  rfl

theorem isFull_toInt (h : r.Near) : r.toInt.isFull = some r.isFull := by
  have h₁ := r.readptr_lt
  have h₂ := r.writeptr_lt
  have hs := h.stored
  have hadd : IsInt ((r.writeptr : ℤ) + 1) := by unfold IsInt; omega
  unfold IntRing.isFull
  simp only [toInt, add_eq hadd, Option.bind_eq_bind, Option.bind_some]
  rw [show (r.writeptr : ℤ) + 1 = ((r.writeptr + 1 : ℕ) : ℤ) by simp,
    rem_natCast (by omega) (by omega)]
  simp only [isFull, Option.bind_some, Option.pure_def, Nat.cast_inj]

theorem isEmpty_toInt : r.toInt.isEmpty = r.isEmpty := by
  simp [IntRing.isEmpty, isEmpty, toInt]

/-- `r` with the bytes `mem`. -/
def withRing (mem : Bfr) (r : RingSet) : RingSet := { r with ring := mem }

/-- `r` with `writeptr` moved on. -/
def extend (bytes : ℕ) (r : RingSet) : RingSet :=
  { r with
    writeptr := r.normalize (r.writeptr + bytes)
    writeptr_lt := r.normalize_lt _ }

theorem moveWrite_toInt (hnear : (r.extend bytes).Near)
    (h : r.writeptr + bytes + r.bfrsize < 2 ^ 31) :
    r.toInt.moveWrite bytes = some (r.extend bytes).toInt := by
  have hadd : IsInt ((r.writeptr : ℤ) + bytes) := by unfold IsInt; omega
  have hindex := normalize_toInt h
  have hlog := bytesStored_toInt hnear
  rw [Nat.cast_add] at hindex
  have hmoved : { r.toInt with writeptr := (r.normalize (r.writeptr + bytes) : ℤ) } =
      (r.extend bytes).toInt := rfl
  unfold IntRing.moveWrite
  rw [show r.toInt.writeptr = r.writeptr from rfl, add_eq hadd]
  simp only [Option.bind_eq_bind, Option.bind_some, hindex, hmoved, hlog, Option.pure_def]

theorem moveRead_toInt (hnear : (r.advance bytes).Near)
    (h : r.readptr + bytes + r.bfrsize < 2 ^ 31) :
    r.toInt.moveRead bytes = some (r.advance bytes).toInt := by
  have hadd : IsInt ((r.readptr : ℤ) + bytes) := by unfold IsInt; omega
  have hindex := normalize_toInt h
  have hlog := bytesStored_toInt hnear
  rw [Nat.cast_add] at hindex
  have hmoved : { r.toInt with readptr := (r.normalize (r.readptr + bytes) : ℤ) } =
      (r.advance bytes).toInt := rfl
  unfold IntRing.moveRead
  rw [show r.toInt.readptr = r.readptr from rfl, add_eq hadd]
  simp only [Option.bind_eq_bind, Option.bind_some, hindex, hmoved, hlog, Option.pure_def]

@[simp] theorem withRing_withRing (mem mem' : Bfr) :
    (r.withRing mem).withRing mem' = r.withRing mem' := rfl

theorem inBlock_toInt {start count : ℕ} (h : start + count ≤ r.bfrsize) :
    r.toInt.InBlock start count := by
  unfold IntRing.InBlock
  dsimp only [toInt]
  omega

theorem copyTo_toInt {start count : ℕ} (hblock : start + count ≤ r.bfrsize)
    (hlen : count ≤ bfr.length) : r.toInt.copyTo start count bfr =
      some (r.withRing (r.ring.load start (bfr.take count))).toInt := by
  rw [IntRing.copyTo, if_pos ⟨inBlock_toInt hblock, by omega⟩]
  rfl

theorem copyFrom_toInt {start count : ℕ} (hblock : start + count ≤ r.bfrsize) :
    r.toInt.copyFrom start count = some (r.ring.read start count) := by
  rw [IntRing.copyFrom, if_pos (inBlock_toInt hblock)]
  rfl

/-- The bytes up to the end of the block. -/
theorem part_toInt {ptr : ℕ} (hsize : 2 * r.bfrsize ≤ 2 ^ 31) (hptr : ptr < r.bfrsize) :
    sub r.toInt.bfrsize ptr = some ((r.bfrsize - ptr : ℕ) : ℤ) := by
  have hsub : IsInt ((r.bfrsize : ℤ) - ptr) := by unfold IsInt; omega
  rw [show r.toInt.bfrsize = r.bfrsize from rfl, sub_eq hsub, Nat.cast_sub hptr.le]

theorem rest_toInt {part : ℕ} (hlt : part < bytes) (hint : bytes < 2 ^ 31) :
    sub (bytes : ℤ) part = some ((bytes - part : ℕ) : ℤ) := by
  have hsub : IsInt ((bytes : ℤ) - part) := by unfold IsInt; omega
  rw [sub_eq hsub, Nat.cast_sub hlt.le]

theorem store_toInt (hsize : 2 * r.bfrsize ≤ 2 ^ 31)
    (hindex : bfr.length ≤ r.bytesFree → r.writeptr + bfr.length + r.bfrsize < 2 ^ 31) :
    r.toInt.store bfr = some ((r.store bfr).1, (r.store bfr).2.toInt) := by
  have hw := r.writeptr_lt
  have hsum := r.bytesStored_add_bytesFree
  have hfree := bytesFree_toInt (near_of_le hsize)
  have hpart : sub r.toInt.bfrsize r.toInt.writeptr = _ := part_toInt hsize hw
  unfold IntRing.store
  simp only [hfree, hpart, Option.bind_eq_bind, Option.bind_some, Nat.cast_lt, gt_iff_lt,
    Option.pure_def]
  rcases Nat.lt_or_ge r.bytesFree bfr.length with hrefused | hfits
  · rw [if_pos hrefused, store_eq_refused hrefused]
  have hidx := hindex hfits
  have hmove : ∀ mem, (r.withRing mem).toInt.moveWrite bfr.length =
      some ((r.withRing mem).extend bfr.length).toInt :=
    fun mem => moveWrite_toInt (near_of_le hsize) hidx
  rw [if_neg (Nat.not_lt.2 hfits), show r.toInt.writeptr = r.writeptr from rfl]
  by_cases hwrap : r.bfrsize - r.writeptr < bfr.length
  · -- two copies
    have hrest : (bfr.drop (r.bfrsize - r.writeptr)).length =
        bfr.length - (r.bfrsize - r.writeptr) := List.length_drop
    rw [if_pos hwrap, copyTo_toInt (by omega) (by omega), Option.bind_some,
      rest_toInt hwrap (by omega), Option.bind_some, Int.toNat_natCast, ← Nat.cast_zero,
      copyTo_toInt (by exact Nat.le_trans (by omega) hw.le) hrest.ge, Option.bind_some,
      withRing_withRing, hmove, List.take_of_length_le hrest.le]
    simp only [store, Nat.not_lt.2 hfits, hwrap, ↓reduceIte]
    rfl
  · rw [if_neg hwrap, copyTo_toInt (by omega) le_rfl, Option.bind_some, hmove, List.take_length]
    simp only [store, Nat.not_lt.2 hfits, hwrap, ↓reduceIte]
    rfl

theorem testStored_toInt (hsize : 2 * r.bfrsize ≤ 2 ^ 31) (cond : ℤ → Bool) :
    r.toInt.testStored bytes cond = some (decide (0 < bytes) && cond r.bytesStored) := by
  rw [IntRing.testStored, bytesStored_toInt (near_of_le hsize)]
  rcases Nat.eq_zero_or_pos bytes with rfl | h₀
  · rfl
  · rw [if_pos h₀, decide_eq_true h₀]
    rfl

theorem view_toInt (hsize : 2 * r.bfrsize ≤ 2 ^ 31) (hbytes : bytes < 2 ^ 31) :
    r.toInt.view bytes = some (r.view bytes) := by
  have hr := r.readptr_lt
  have hstored := r.bytesStored_lt
  have hpart : sub r.toInt.bfrsize r.toInt.readptr = _ := part_toInt hsize hr
  unfold IntRing.view view
  simp only [testStored_toInt hsize, hpart, Option.bind_eq_bind, Option.bind_some, Option.pure_def,
    Bool.and_eq_true, decide_eq_true_eq, gt_iff_lt, Nat.cast_lt]
  by_cases hnone : 0 < bytes ∧ r.bytesStored < bytes
  · rw [if_pos hnone, if_pos hnone]
  rw [if_neg hnone, if_neg hnone, show r.toInt.readptr = r.readptr from rfl]
  by_cases hwrap : r.bfrsize - r.readptr < bytes
  · -- two copies
    rw [if_pos hwrap, if_pos hwrap, copyFrom_toInt (by omega), Option.bind_some,
      rest_toInt hwrap hbytes, Option.bind_some, ← Nat.cast_zero, copyFrom_toInt (by omega),
      Option.bind_some]
  · rw [if_neg hwrap, if_neg hwrap, copyFrom_toInt (by omega), Option.bind_some]

theorem retr_toInt (hsize : 2 * r.bfrsize ≤ 2 ^ 31) (hbytes : bytes < 2 ^ 31)
    (hindex : bytes ≤ r.bytesStored → r.readptr + bytes + r.bfrsize < 2 ^ 31) :
    r.toInt.retr bytes = some ((r.retr bytes).map fun x => (x.1, x.2.toInt)) := by
  unfold IntRing.retr
  rw [view_toInt hsize hbytes]
  rcases Nat.lt_or_ge r.bytesStored bytes with hrefused | hfits
  · simp [retr, view_eq_none hrefused]
  · have hmove := moveRead_toInt (near_of_le hsize) (hindex hfits)
    simp [retr, view_eq hfits, hmove]

theorem delete_toInt (hsize : 2 * r.bfrsize ≤ 2 ^ 31)
    (hindex : bytes ≤ r.bytesStored → r.readptr + bytes + r.bfrsize < 2 ^ 31) :
    r.toInt.delete bytes = some ((r.delete bytes).1, (r.delete bytes).2.toInt) := by
  unfold IntRing.delete delete
  simp only [testStored_toInt hsize, Option.bind_eq_bind, Option.bind_some, Option.pure_def,
    Bool.and_eq_true, decide_eq_true_eq, Nat.cast_le]
  by_cases hfits : 0 < bytes ∧ bytes ≤ r.bytesStored
  · rw [if_pos hfits, if_pos hfits, moveRead_toInt (near_of_le hsize) (hindex hfits.2),
      Option.bind_some]
  · rw [if_neg hfits, if_neg hfits]

/-- The pointer arithmetic of a call that is not refused stays below three times the size. -/
theorem normalize_arg_lt (hn : bytes ≤ r.bytesFree ∨ bytes ≤ r.bytesStored) :
    r.writeptr + bytes + r.bfrsize + 1 < 3 * r.bfrsize ∧
      r.readptr + bytes + r.bfrsize + 1 < 3 * r.bfrsize := by
  have h₁ := r.readptr_lt
  have h₂ := r.writeptr_lt
  have hsum := r.bytesStored_add_bytesFree
  omega

/-- **One call on `int` is the call on natural numbers**, in a ring whose pointer arithmetic is
`int`. -/
theorem intRingOps_eq (hsize : 3 * r.bfrsize ≤ 2 ^ 31 + 1) {call : RingCall}
    (hint : IsInt call.bytes) :
    intRingOps call r.toInt = some ((ringOps call r).1, (ringOps call r).2.toInt) := by
  have hhalf : 2 * r.bfrsize ≤ 2 ^ 31 := by omega
  have hstore : ∀ n, n ≤ r.bytesFree → r.writeptr + n + r.bfrsize < 2 ^ 31 := by
    intro n hn
    have hlt := (normalize_arg_lt (Or.inl hn)).1
    omega
  have hread : ∀ n, n ≤ r.bytesStored → r.readptr + n + r.bfrsize < 2 ^ 31 := by
    intro n hn
    have hlt := (normalize_arg_lt (Or.inr hn)).2
    omega
  rw [isInt_natCast] at hint
  cases call with
  | init => rfl
  | store bfr =>
    rw [intRingOps, store_toInt hhalf (hstore _)]
    rfl
  | retr bytes =>
    rw [intRingOps, retr_toInt hhalf (show bytes < 2 ^ 31 from hint) (hread _), ringOps]
    cases r.retr bytes with
    | none => rfl
    | some x => rfl
  | view bytes =>
    rw [intRingOps, view_toInt hhalf (show bytes < 2 ^ 31 from hint), ringOps]
    cases r.view bytes with
    | none => rfl
    | some bfr => rfl
  | delete bytes =>
    rw [intRingOps, delete_toInt hhalf (hread _)]
    rfl
  | ismt =>
    rw [intRingOps, isEmpty_toInt]
    rfl
  | isfull =>
    rw [intRingOps, isFull_toInt (near_of_le hhalf)]
    rfl
  | elementsFree =>
    rw [intRingOps, bytesFree_toInt (near_of_le hhalf)]
    rfl
  | elementsStored =>
    rw [intRingOps, bytesStored_toInt (near_of_le hhalf)]
    rfl

theorem bfrsize_ringOps (call : RingCall) (r : RingSet) :
    (ringOps call r).2.bfrsize = r.bfrsize := by
  cases call with
  | store bfr => exact bfrsize_store bfr r
  | delete bytes => exact bfrsize_delete bytes r
  | retr bytes =>
    rw [ringOps, retr]
    cases r.view bytes with
    | none => rfl
    | some bfr => rfl
  | view bytes =>
    rw [ringOps]
    cases r.view bytes with
    | none => rfl
    | some bfr => rfl
  | init | ismt | isfull | elementsFree | elementsStored => rfl

theorem alloc_toInt {mem : Bfr} (h : bytes + 1 < 2 ^ 31) :
    IntRing.alloc bytes mem = some (alloc bytes mem).toInt := by
  have hadd : IsInt ((bytes : ℤ) + 1) := by unfold IsInt; omega
  simp only [IntRing.alloc, add_eq hadd, Option.bind_eq_bind, Option.bind_some]
  rfl

end RingSet

/-! ### The queue -/

section

variable {n : ℕ}

/-- The ring holds the bytes of the queue, and what it says of their number is right. -/
structure IntRing.Holds (r : IntRing) (q : Fifo UInt8 n) : Prop where
  view : r.view q.items.length = some (some q.items)
  counts : ∃ stored free : ℤ, r.bytesStored = some stored ∧ r.bytesFree = some free ∧
    stored + free = n ∧ (r.isEmpty = true ↔ stored = 0) ∧ r.isFull = some (decide (free = 0))

/-- After `RING_ALLOC` of `n` bytes every sequence of calls has a result, stays in the allocated
block, is answered as by a queue of at most `n` bytes and leaves the bytes that the queue holds. -/
def RefinesQueue (n : ℕ) : Prop :=
  ∀ (mem : Bfr) (calls : List RingCall), (∀ call ∈ calls, IsInt call.bytes) →
    ∃ r₀ r q replies, IntRing.alloc n mem = some r₀ ∧
      intRingMachine.run r₀ calls = some (r, replies) ∧
      (queueMachine n).run (.empty UInt8 n) calls = some (q, replies) ∧ r.Holds q

theorem IsQueue.holds {r : RingSet} {q : Fifo UInt8 n} (hn : 2 * n + 1 < 2 ^ 31)
    (h : IsQueue r q) : r.toInt.Holds q := by
  have hsize := h.bfrsize
  have hhalf : 2 * r.bfrsize ≤ 2 ^ 31 := by omega
  have hnear := RingSet.near_of_le hhalf
  have hlen := q.le
  refine ⟨?_, r.bytesStored, r.bytesFree, RingSet.bytesStored_toInt hnear,
    RingSet.bytesFree_toInt hnear, ?_, ?_, ?_⟩
  · rw [RingSet.view_toInt hhalf (by omega), RingSet.view_eq h.stored.ge, h.contents,
      List.take_length]
  · have hsum := r.bytesStored_add_bytesFree
    omega
  · rw [RingSet.isEmpty_toInt, RingSet.isEmpty_iff, Nat.cast_eq_zero]
  · rw [RingSet.isFull_toInt hnear, Option.some.injEq, Bool.eq_iff_iff, RingSet.isFull_iff,
      decide_eq_true_eq, Nat.cast_eq_zero]

/-- Where the pointer arithmetic is `int`, the calls do what they do on natural numbers. -/
theorem run_toInt {r r' : RingSet} {replies : List RingReply} {calls : List RingCall}
    (hn : 3 * n + 1 < 2 ^ 31) (hsize : r.bfrsize = n + 1)
    (hint : ∀ call ∈ calls, IsInt call.bytes)
    (hrun : ringMachine.run r calls = some (r', replies)) :
    intRingMachine.run r.toInt calls = some (r'.toInt, replies) ∧ r'.bfrsize = n + 1 := by
  have hstep : ∀ (r : RingSet) (i : IntRing), ∀ call ∈ calls, i = r.toInt ∧ r.bfrsize = n + 1 →
      Machine.Mirrors (fun r i => i = r.toInt ∧ r.bfrsize = n + 1) (ringMachine.step r call)
        (intRingMachine.step i (id call)) := by
    rintro r i call hcall ⟨rfl, hsize⟩
    simp only [ringMachine, intRingMachine, id,
      RingSet.intRingOps_eq (by omega : 3 * r.bfrsize ≤ 2 ^ 31 + 1) (hint call hcall),
      Option.map_some]
    exact .some ⟨⟨rfl, (RingSet.bfrsize_ringOps call r).trans hsize⟩, rfl⟩
  have hruns := Machine.run_mirrors _ id hstep ⟨rfl, hsize⟩
  rw [hrun, List.map_id] at hruns
  generalize intRingMachine.run r.toInt calls = ran at hruns
  cases hruns with
  | some h =>
    obtain ⟨⟨hring, hsize'⟩, hreplies⟩ := h
    exact ⟨congrArg some (Prod.ext hring hreplies.symm), hsize'⟩

/-! ### Where something overflows -/

theorem IntRing.moveWrite_eq_none {r : IntRing} {bytes : ℤ}
    (h : ¬ IsInt (r.writeptr + bytes + r.bfrsize)) : r.moveWrite bytes = none := by
  have hnormalize : r.normalize (r.writeptr + bytes) = none := by
    rw [IntRing.normalize, add_eq_none h]
    rfl
  rw [IntRing.moveWrite]
  by_cases hadd : IsInt (r.writeptr + bytes)
  · rw [add_eq hadd, Option.bind_eq_bind, Option.bind_some, hnormalize]
    rfl
  · rw [add_eq_none hadd]
    rfl

theorem IntRing.copyTo_ptrs {r r' : IntRing} {start count : ℤ} {bfr : List UInt8}
    (h : r.copyTo start count bfr = some r') :
    r'.writeptr = r.writeptr ∧ r'.bfrsize = r.bfrsize := by
  unfold IntRing.copyTo at h
  split_ifs at h
  cases h
  exact ⟨rfl, rfl⟩

/-- A `RING_STORE` that fits has no result if the index handed to `ring_normalize` leaves no room
for the size. -/
theorem RingSet.store_eq_none {r : RingSet} {bfr : List UInt8} (hnear : r.Near)
    (hfits : bfr.length ≤ r.bytesFree)
    (hover : 2 ^ 31 ≤ r.writeptr + bfr.length + r.bfrsize) : r.toInt.store bfr = none := by
  have hmove : ∀ i : IntRing, i.writeptr = r.writeptr ∧ i.bfrsize = r.bfrsize →
      i.moveWrite bfr.length = none := by
    rintro i ⟨hw, hsize⟩
    apply IntRing.moveWrite_eq_none
    rw [hw, hsize]
    unfold IsInt
    omega
  have hroom : ¬ ((bfr.length : ℤ) > r.bytesFree) := by omega
  unfold IntRing.store
  simp only [bytesFree_toInt hnear, Option.bind_eq_bind, Option.bind_some, if_neg hroom,
    Option.bind_eq_none_iff]
  intro part hpart
  split_ifs with hwrap
  · simp only [Option.bind_eq_none_iff]
    intro r₁ h₁ rest hrest r₂ h₂ r₃ h₃
    have hkept := IntRing.copyTo_ptrs h₁
    have hkept' := IntRing.copyTo_ptrs h₂
    rw [hmove r₂ ⟨hkept'.1.trans hkept.1, hkept'.2.trans hkept.2⟩] at h₃
    cases h₃
  · simp only [Option.bind_eq_none_iff]
    intro r₁ h₁ r₂ h₂
    rw [hmove r₁ (IntRing.copyTo_ptrs h₁)] at h₂
    cases h₂

theorem IntRing.lt_of_alloc {mem : Bfr} {r : IntRing} (h : IntRing.alloc n mem = some r) :
    n + 1 < 2 ^ 31 := by
  by_contra hle
  have hnot : ¬ IsInt ((n : ℤ) + 1) := by unfold IsInt; omega
  rw [IntRing.alloc, add_eq_none hnot] at h
  cases h

/-- Fill a ring, read all of it, and fill it again. -/
def fillTwice (n : ℕ) : List RingCall :=
  [.store (List.replicate n 0), .retr n, .store (List.replicate n 0)]

theorem bytesFree_alloc (mem : Bfr) : (RingSet.alloc n mem).bytesFree = n := by
  have hsum := (RingSet.alloc n mem).bytesStored_add_bytesFree
  rw [← RingSet.length_contents, RingSet.contents_alloc, List.length_nil,
    RingSet.bfrsize_alloc] at hsum
  omega

/-- The first filling, read again, leaves both pointers at the last cell. -/
theorem fill_alloc (mem : Bfr) : ∃ r r' : RingSet,
    (RingSet.alloc n mem).store (List.replicate n 0) = (0, r) ∧ r.bfrsize = n + 1 ∧
      r.readptr = 0 ∧ r.retr n = some (List.replicate n 0, r') ∧ r'.bfrsize = n + 1 ∧
      r'.writeptr = n ∧ r'.bytesFree = n := by
  have hfits : (List.replicate n (0 : UInt8)).length ≤ (RingSet.alloc n mem).bytesFree := by
    rw [List.length_replicate, bytesFree_alloc]
  have hstore : (RingSet.alloc n mem).store (List.replicate n 0) =
      (0, ((RingSet.alloc n mem).store (List.replicate n 0)).2) :=
    Prod.ext (RingSet.store_fst hfits) rfl
  have hcontents := RingSet.contents_store hfits
  have hsize := RingSet.bfrsize_store (List.replicate n 0) (RingSet.alloc n mem)
  have hread : ((RingSet.alloc n mem).store (List.replicate n 0)).2.readptr = 0 := by
    rw [RingSet.store, if_neg (Nat.not_lt.2 hfits)]
    rfl
  generalize ((RingSet.alloc n mem).store (List.replicate n 0)).2 = r at *
  rw [RingSet.contents_alloc, List.nil_append] at hcontents
  have hstored : r.bytesStored = n := by
    rw [← RingSet.length_contents, hcontents, List.length_replicate]
  have hwrite := r.writeptr_eq
  rw [hread, hstored, hsize, RingSet.bfrsize_alloc, Nat.zero_add,
    Nat.mod_eq_of_lt (Nat.lt_succ_self n)] at hwrite
  have hretr := RingSet.retr_eq hstored.ge
  rw [hcontents, List.take_of_length_le (by rw [List.length_replicate])] at hretr
  refine ⟨r, r.advance n, hstore, hsize, hread, hretr, hsize, hwrite, ?_⟩
  have hleft := RingSet.bytesStored_advance hstored.ge
  have hsum := (r.advance n).bytesStored_add_bytesFree
  rw [RingSet.bfrsize_advance, hsize, RingSet.bfrsize_alloc] at hsum
  omega

theorem intRing_run_store {r : IntRing} {bfr : List UInt8} (h : r.store bfr = none)
    (calls : List RingCall) : intRingMachine.run r (.store bfr :: calls) = none := by
  simp only [Machine.run, intRingMachine, intRingOps, h, Option.map_none, Option.bind_eq_bind,
    Option.bind_none]

/-- If the first filling does not overflow, the second one does. -/
theorem fillTwice_eq_none {mem : Bfr} {r : IntRing} (hn : 2 ^ 31 ≤ 3 * n + 1)
    (halloc : IntRing.alloc n mem = some r) : intRingMachine.run r (fillTwice n) = none := by
  have hlt := IntRing.lt_of_alloc halloc
  rw [RingSet.alloc_toInt hlt] at halloc
  cases halloc
  rcases Nat.lt_or_ge (2 * n + 1) (2 ^ 31) with hfirst | hfirst
  · obtain ⟨r, r', hstore, hsize, hread, hretr, hsize', hwrite, hfree⟩ := fill_alloc (n := n) mem
    have hfill : (RingSet.alloc n mem).toInt.store (List.replicate n 0) = some (0, r.toInt) := by
      rw [RingSet.store_toInt, hstore]
      · show 2 * (n + 1) ≤ 2 ^ 31
        omega
      · intro _
        rw [List.length_replicate]
        show 0 + n + (n + 1) < 2 ^ 31
        omega
    have hempty : r.toInt.retr n = some (some (List.replicate n 0, r'.toInt)) := by
      rw [RingSet.retr_toInt (by omega) (by omega) (by omega), hretr]
      rfl
    have hagain : r'.toInt.store (List.replicate n 0) = none := by
      apply RingSet.store_eq_none (RingSet.near_of_le (by omega))
      · rw [List.length_replicate, hfree]
      · rw [List.length_replicate]
        omega
    have h₁ : intRingMachine.step (RingSet.alloc n mem).toInt (.store (List.replicate n 0)) =
        some (r.toInt, [(0, [])]) := by
      simp only [intRingMachine, intRingOps, hfill, Option.map_some]
    have h₂ : intRingMachine.step r.toInt (.retr n) =
        some (r'.toInt, [(0, List.replicate n 0)]) := by
      simp only [intRingMachine, intRingOps, hempty, Option.map_some]
    rw [fillTwice, Machine.run_cons h₁, Machine.run_cons h₂, intRing_run_store hagain]
    rfl
  · apply intRing_run_store
    apply RingSet.store_eq_none
    · exact ⟨by show 0 + (n + 1) < 0 + 2 ^ 31; omega, by show 0 + (n + 1) < 0 + 2 ^ 31; omega⟩
    · rw [List.length_replicate, bytesFree_alloc]
    · rw [List.length_replicate]
      show 2 ^ 31 ≤ 0 + n + (n + 1)
      omega

theorem bytes_of_mem_fillTwice {call : RingCall} (h : call ∈ fillTwice n) : call.bytes = n := by
  simp only [fillTwice, List.mem_cons, List.not_mem_nil, or_false] at h
  rcases h with rfl | rfl | rfl
  · exact List.length_replicate
  · rfl
  · exact List.length_replicate

theorem not_refinesQueue (hn : 2 ^ 31 ≤ 3 * n + 1) : ¬ RefinesQueue n := by
  intro h
  obtain ⟨r₀, -, -, -, halloc, -⟩ := h (fun _ => 0) [] (by simp)
  have hlt := IntRing.lt_of_alloc halloc
  have hint : ∀ call ∈ fillTwice n, IsInt call.bytes := by
    intro call hcall
    rw [bytes_of_mem_fillTwice hcall, isInt_natCast]
    omega
  obtain ⟨r₀, r, q, replies, halloc, hrun, -, -⟩ := h (fun _ => 0) (fillTwice n) hint
  rw [fillTwice_eq_none hn halloc] at hrun
  cases hrun

/-- **The byte ring is a queue for every capacity whose pointer arithmetic is `int`, and for no
other**: up to 715827882 bytes. -/
theorem refinesQueue_iff (n : ℕ) : RefinesQueue n ↔ 3 * n + 1 < 2 ^ 31 := by
  constructor
  · intro h
    by_contra hle
    exact not_refinesQueue (by omega) h
  · intro hn mem calls hint
    obtain ⟨⟨r, q, replies, hrun, hq, hcontents⟩, -⟩ := ring_refines_queue n mem calls
    obtain ⟨hrun', hsize⟩ := run_toInt hn rfl hint hrun
    have hholds : IsQueue r q := ⟨hsize, hcontents⟩
    exact ⟨_, _, q, replies, RingSet.alloc_toInt (by omega), hrun', hq, hholds.holds (by omega)⟩

/-- One byte more, and the second filling overflows. -/
theorem largeRing_overflows : (∃ r, IntRing.alloc 715827883 (fun _ => 0) = some r ∧
    intRingMachine.run r (fillTwice 715827883) = none) ∧ ¬ RefinesQueue 715827883 := by
  have hn : 2 ^ 31 ≤ 3 * 715827883 + 1 := by omega
  have halloc : IntRing.alloc 715827883 (fun _ => 0) = _ := RingSet.alloc_toInt (by omega)
  exact ⟨⟨_, halloc, fillTwice_eq_none hn halloc⟩, not_refinesQueue hn⟩

end

end SdrProxy
