import SdrProxy.Buffer
import SdrProxy.Lib.Fifo
import SdrProxy.Lib.Machine

/-!
# The byte ring is a bounded queue

The purpose of `struct ringset`, stated without its pointers: a first-in first-out queue of bytes
(`Fifo`) with as much room as `RING_ALLOC` was asked for.

* `ringOps`, `queueOps` : one call of `ring_ops` on a ring, and what it has to do on a queue;
* `RingSet.touched` : the cells of the allocated memory that a call reads or writes.  A call leaves
  the others alone (`RingSet.ring_store_of_not_touched`) and does not depend on them
  (`RingSet.view_congr`);
* `ringOps_spec` : one call on a ring is the call on the queue;
* `ring_refines_queue` : so is every sequence of calls, and no call leaves the allocated memory.

Byte counts and pointers are natural numbers here and `int` in the source; `RefinesQueue` is the
refinement for `int`s.
-/

namespace SdrProxy

/-- A call of `ring_ops` on an allocated ring. -/
inductive RingCall where
  /-- `RING_INIT`. -/
  | init
  /-- `RING_STORE` of the bytes `bfr`. -/
  | store (bfr : List UInt8)
  /-- `RING_RETR` of `bytes` bytes. -/
  | retr (bytes : ℕ)
  /-- `RING_VIEW` of `bytes` bytes. -/
  | view (bytes : ℕ)
  /-- `RING_DELETE` of `bytes` bytes. -/
  | delete (bytes : ℕ)
  /-- `RING_ISMT`. -/
  | ismt
  /-- `RING_ISFULL`. -/
  | isfull
  /-- `RING_ELEMENTS_FREE`. -/
  | elementsFree
  /-- `RING_ELEMENTS_STORED`. -/
  | elementsStored
  deriving DecidableEq

/-- The result of a call, and the bytes it copied to `bfr`. -/
abbrev RingReply := ℤ × List UInt8

/-- `ring_ops`. -/
def ringOps : RingCall → RingSet → RingReply × RingSet
  | .init, r => ((0, []), r.init)
  | .store bfr, r => (((r.store bfr).1, []), (r.store bfr).2)
  | .retr bytes, r => match r.retr bytes with
    | none => ((-1, []), r)
    | some (bfr, r') => ((0, bfr), r')
  | .view bytes, r => match r.view bytes with
    | none => ((-1, []), r)
    | some bfr => ((0, bfr), r)
  | .delete bytes, r => (((r.delete bytes).1, []), (r.delete bytes).2)
  | .ismt, r => ((r.isEmpty.toNat, []), r)
  | .isfull, r => ((r.isFull.toNat, []), r)
  | .elementsFree, r => ((r.bytesFree, []), r)
  | .elementsStored, r => ((r.bytesStored, []), r)

/-- What a call has to do on a queue of bytes. -/
def queueOps {cap : ℕ} : RingCall → Fifo UInt8 cap → RingReply × Fifo UInt8 cap
  | .init, _ => ((0, []), .empty UInt8 cap)
  | .store bfr, q => match q.append bfr with
    | none => ((-1, []), q)
    | some q' => ((0, []), q')
  | .retr bytes, q => match q.front bytes, q.remove bytes with
    | some bfr, some q' => ((0, bfr), q')
    | _, _ => ((-1, []), q)
  | .view bytes, q => match q.front bytes with
    | none => ((-1, []), q)
    | some bfr => ((0, bfr), q)
  | .delete bytes, q => match q.remove bytes with
    | none => ((-1, []), q)
    -- no bytes are not deleted
    | some q' => if bytes = 0 then ((-1, []), q) else ((0, []), q')
  | .ismt, q => ((if q.items = [] then 1 else 0, []), q)
  | .isfull, q => ((if q.free = 0 then 1 else 0, []), q)
  | .elementsFree, q => ((q.free, []), q)
  | .elementsStored, q => ((q.items.length, []), q)

/-- A ring as a machine that answers calls. -/
def ringMachine : Machine RingSet RingCall RingReply :=
  ⟨fun r call => some ((ringOps call r).2, [(ringOps call r).1])⟩

/-- A queue as a machine that answers calls. -/
def queueMachine (cap : ℕ) : Machine (Fifo UInt8 cap) RingCall RingReply :=
  ⟨fun q call => some ((queueOps call q).2, [(queueOps call q).1])⟩

/-! ### The cells a call touches -/

namespace RingSet

/-- The cells of a copy of `count` bytes at `start`, done in two parts if it wraps. -/
def cells (start count : ℕ) (r : RingSet) : List ℕ :=
  let part := r.bfrsize - start
  if part < count then List.range' start part ++ List.range' 0 (count - part)
  else List.range' start count

/-- The cells of the memory that a call reads or writes. -/
def touched : RingCall → RingSet → List ℕ
  | .store bfr, r => if r.bytesFree < bfr.length then [] else r.cells r.writeptr bfr.length
  | .retr bytes, r => if 0 < bytes ∧ r.bytesStored < bytes then [] else r.cells r.readptr bytes
  | .view bytes, r => if 0 < bytes ∧ r.bytesStored < bytes then [] else r.cells r.readptr bytes
  | _, _ => []

variable {r : RingSet} {start count i n : ℕ} {bfr : List UInt8}

theorem mem_cells : i ∈ r.cells start count ↔
    start ≤ i ∧ i < start + count ∧ (i < r.bfrsize ∨ start + count ≤ r.bfrsize) ∨
      r.bfrsize - start < count ∧ i < count - (r.bfrsize - start) ∨
      r.bfrsize - start < count ∧ start ≤ i ∧ i < r.bfrsize := by
  unfold cells
  dsimp only
  split_ifs with hwrap
  · simp only [List.mem_append, List.mem_range'_1]
    omega
  · simp only [List.mem_range'_1]
    omega

/-- No call leaves the allocated memory. -/
theorem lt_of_mem_touched {call : RingCall} (h : i ∈ r.touched call) : i < r.bfrsize := by
  have h₁ := r.readptr_lt
  have h₂ := r.writeptr_lt
  have hsum := r.bytesStored_add_bytesFree
  cases call with
  | store bfr =>
    simp only [touched] at h
    split_ifs at h with hfree
    · exact absurd h List.not_mem_nil
    · rw [mem_cells] at h
      omega
  | retr bytes =>
    simp only [touched] at h
    split_ifs at h with hstored
    · exact absurd h List.not_mem_nil
    · rw [mem_cells] at h
      omega
  | view bytes =>
    simp only [touched] at h
    split_ifs at h with hstored
    · exact absurd h List.not_mem_nil
    · rw [mem_cells] at h
      omega
  | init | delete | ismt | isfull | elementsFree | elementsStored =>
    exact absurd h List.not_mem_nil

theorem ring_store_of_not_touched (h : i ∉ r.touched (.store bfr)) :
    (r.store bfr).2.ring i = r.ring i := by
  simp only [touched] at h
  unfold store
  split_ifs with hfree
  · rfl
  · rw [if_neg hfree, mem_cells] at h
    dsimp only
    split_ifs with hwrap
    · -- behind the second copy, and before the first one
      have hlen : (bfr.drop (r.bfrsize - r.writeptr)).length ≤ i := by
        rw [List.length_drop]
        omega
      rw [Bfr.load_of_ge (by omega)]
      rcases Nat.lt_or_ge i r.writeptr with hi | hi
      · exact Bfr.load_of_lt hi
      · exact Bfr.load_of_ge (by rw [List.length_take]; omega)
    · rcases Nat.lt_or_ge i r.writeptr with hi | hi
      · exact Bfr.load_of_lt hi
      · exact Bfr.load_of_ge (by omega)

theorem view_congr {mem : Bfr} (h : ∀ i ∈ r.touched (.view n), mem i = r.ring i) :
    ({ r with ring := mem } : RingSet).view n = r.view n := by
  simp only [touched] at h
  by_cases hstored : 0 < n ∧ r.bytesStored < n
  · have hstored' : 0 < n ∧ ({ r with ring := mem } : RingSet).bytesStored < n := hstored
    unfold view
    rw [if_pos hstored, if_pos hstored']
  · have hstored' : ¬ (0 < n ∧ ({ r with ring := mem } : RingSet).bytesStored < n) := hstored
    rw [if_neg hstored] at h
    have hread : ∀ a b, (∀ j, a ≤ j → j < a + b → mem j = r.ring j) →
        mem.read a b = r.ring.read a b := by
      intro a b hab
      apply List.map_congr_left
      intro j hj
      rw [List.mem_range] at hj
      exact hab _ (by omega) (by omega)
    unfold view
    rw [if_neg hstored, if_neg hstored']
    dsimp only
    have h₁ := r.readptr_lt
    split_ifs with hwrap
    · rw [hread _ _ fun j h₁ h₂ => h j (mem_cells.2 (by omega)),
        hread _ _ fun j h₁ h₂ => h j (mem_cells.2 (by omega))]
    · rw [hread _ _ fun j h₁ h₂ => h j (mem_cells.2 (by omega))]

end RingSet

/-! ### The refinement -/

section

variable {cap : ℕ}

/-- The ring holds what the queue holds, and has room for as much. -/
structure IsQueue (r : RingSet) (q : Fifo UInt8 cap) : Prop where
  /-- One cell of the memory is never used. -/
  bfrsize : r.bfrsize = cap + 1
  /-- The same bytes in the same order. -/
  contents : r.contents = q.items

variable {r : RingSet} {q : Fifo UInt8 cap}

theorem IsQueue.stored (h : IsQueue r q) : r.bytesStored = q.items.length := by
  rw [← r.length_contents, h.contents]

theorem IsQueue.free (h : IsQueue r q) : r.bytesFree = q.free := by
  have h₁ := r.bytesStored_add_bytesFree
  have h₂ := q.length_add_free
  have h₃ := h.stored
  have h₄ := h.bfrsize
  omega

theorem isQueue_alloc (mem : Bfr) : IsQueue (.alloc cap mem) (.empty UInt8 cap) :=
  ⟨rfl, RingSet.contents_alloc cap mem⟩

/-- What a call has to agree with its specification in: the reply, and what is stored then. -/
def CallSpec (call : RingCall) (r : RingSet) (q : Fifo UInt8 cap) : Prop :=
  (ringOps call r).1 = (queueOps call q).1 ∧ IsQueue (ringOps call r).2 (queueOps call q).2

theorem callSpec_store (h : IsQueue r q) (bfr : List UInt8) : CallSpec (.store bfr) r q := by
  rcases Nat.lt_or_ge q.free bfr.length with hlt | hle
  · have hlt' : r.bytesFree < bfr.length := by rw [h.free]; exact hlt
    simp only [CallSpec, ringOps, queueOps, RingSet.store_eq_refused hlt', Fifo.append_of_lt hlt]
    exact ⟨trivial, h⟩
  · have hle' : bfr.length ≤ r.bytesFree := by rw [h.free]; exact hle
    obtain ⟨q', hq', hitems⟩ := Fifo.append_of_le hle
    simp only [CallSpec, ringOps, queueOps, RingSet.store_fst hle', hq']
    refine ⟨trivial, ⟨?_, ?_⟩⟩
    · rw [RingSet.bfrsize_store, h.bfrsize]
    · rw [RingSet.contents_store hle', hitems, h.contents]

theorem callSpec_view (h : IsQueue r q) (bytes : ℕ) : CallSpec (.view bytes) r q := by
  rcases Nat.lt_or_ge q.items.length bytes with hlt | hle
  · have hlt' : r.bytesStored < bytes := by rw [h.stored]; exact hlt
    simp only [CallSpec, ringOps, queueOps, RingSet.view_eq_none hlt', Fifo.front_of_lt hlt]
    exact ⟨trivial, h⟩
  · have hle' : bytes ≤ r.bytesStored := by rw [h.stored]; exact hle
    simp only [CallSpec, ringOps, queueOps, RingSet.view_eq hle', Fifo.front_of_le hle, h.contents]
    exact ⟨trivial, h⟩

/-- The ring without its oldest bytes is the queue without them. -/
theorem IsQueue.advance {bytes : ℕ} (h : IsQueue r q) (hle : bytes ≤ q.items.length) :
    ∃ q', q.remove bytes = some q' ∧ IsQueue (r.advance bytes) q' := by
  obtain ⟨q', hq', hitems⟩ := Fifo.remove_of_le hle
  refine ⟨q', hq', ⟨?_, ?_⟩⟩
  · rw [RingSet.bfrsize_advance, h.bfrsize]
  · rw [RingSet.contents_advance (by rw [h.stored]; exact hle), hitems, h.contents]

theorem callSpec_retr (h : IsQueue r q) (bytes : ℕ) : CallSpec (.retr bytes) r q := by
  rcases Nat.lt_or_ge q.items.length bytes with hlt | hle
  · have hlt' : r.bytesStored < bytes := by rw [h.stored]; exact hlt
    simp only [CallSpec, ringOps, queueOps, RingSet.retr, RingSet.view_eq_none hlt',
      Option.map_none, Fifo.front_of_lt hlt]
    exact ⟨trivial, h⟩
  · have hle' : bytes ≤ r.bytesStored := by rw [h.stored]; exact hle
    obtain ⟨q', hq', hnext⟩ := h.advance hle
    simp only [CallSpec, ringOps, queueOps, RingSet.retr_eq hle', Fifo.front_of_le hle, hq',
      h.contents]
    exact ⟨trivial, hnext⟩

theorem callSpec_delete (h : IsQueue r q) (bytes : ℕ) : CallSpec (.delete bytes) r q := by
  rcases Nat.lt_or_ge q.items.length bytes with hlt | hle
  · have hlt' : ¬ (0 < bytes ∧ bytes ≤ r.bytesStored) := by rw [h.stored]; omega
    simp only [CallSpec, ringOps, queueOps, RingSet.delete, hlt', ↓reduceIte,
      Fifo.remove_of_lt hlt]
    exact ⟨trivial, h⟩
  · have hle' : bytes ≤ r.bytesStored := by rw [h.stored]; exact hle
    obtain ⟨q', hq', hnext⟩ := h.advance hle
    rcases Nat.eq_zero_or_pos bytes with rfl | hpos
    · -- both refuse to delete nothing
      simp only [CallSpec, ringOps, queueOps, RingSet.delete, Nat.lt_irrefl, false_and, ↓reduceIte,
        hq']
      exact ⟨trivial, h⟩
    · simp only [CallSpec, ringOps, queueOps, RingSet.delete_eq hpos hle', hq', hpos.ne',
        ↓reduceIte]
      exact ⟨trivial, hnext⟩

/-- **One call on a ring is the call on the queue**: the same reply, and the same bytes are left. -/
theorem ringOps_spec (h : IsQueue r q) (call : RingCall) : CallSpec call r q := by
  cases call with
  | init =>
    refine ⟨rfl, ⟨h.bfrsize, ?_⟩⟩
    exact RingSet.contents_init r
  | store bfr => exact callSpec_store h bfr
  | retr bytes => exact callSpec_retr h bytes
  | view bytes => exact callSpec_view h bytes
  | delete bytes => exact callSpec_delete h bytes
  | ismt =>
    refine ⟨?_, h⟩
    have hiff := r.isEmpty_iff
    rw [h.stored, List.length_eq_zero_iff] at hiff
    show (((r.isEmpty.toNat : ℕ) : ℤ), _) = ((if q.items = [] then 1 else 0 : ℤ), _)
    cases hmt : r.isEmpty <;> simp_all
  | isfull =>
    refine ⟨?_, h⟩
    have hiff := r.isFull_iff
    rw [h.free] at hiff
    show (((r.isFull.toNat : ℕ) : ℤ), _) = ((if q.free = 0 then 1 else 0 : ℤ), _)
    cases hfull : r.isFull <;> simp_all
  | elementsFree =>
    refine ⟨?_, h⟩
    show ((r.bytesFree : ℤ), _) = ((q.free : ℤ), _)
    rw [h.free]
  | elementsStored =>
    refine ⟨?_, h⟩
    show ((r.bytesStored : ℤ), _) = ((q.items.length : ℤ), _)
    rw [h.stored]

end

/-- **The byte ring refines a bounded queue**: after `RING_ALLOC` of `n` bytes every sequence of
calls is answered as by the queue and leaves the bytes that the queue holds.  At every call the
counts make up `n`, `RING_ISMT` and `RING_ISFULL` agree with the counts, and no cell is touched
outside of the `n + 1` allocated ones. -/
theorem ring_refines_queue (n : ℕ) (mem : Bfr) (calls : List RingCall) :
    (∃ r q replies, ringMachine.run (.alloc n mem) calls = some (r, replies) ∧
      (queueMachine n).run (.empty UInt8 n) calls = some (q, replies) ∧ r.contents = q.items) ∧
    ringMachine.Always (fun r call _ r' =>
        (∀ i ∈ r.touched call, i < n + 1) ∧ r'.bytesStored + r'.bytesFree = n ∧
        ((ringOps .ismt r').1.1 = 1 ↔ (ringOps .elementsStored r').1.1 = 0) ∧
        ((ringOps .isfull r').1.1 = 1 ↔ (ringOps .elementsFree r').1.1 = 0))
      (.alloc n mem) calls := by
  constructor
  · have htotal : ∃ r replies, ringMachine.run (.alloc n mem) calls = some (r, replies) :=
      Machine.run_total (fun _ => True) trivial (fun r call _ => ⟨_, _, rfl, trivial⟩) calls
    obtain ⟨r, replies, hrun⟩ := htotal
    have hstep : ∀ (r : RingSet) (q : Fifo UInt8 n) (call : RingCall) (r' : RingSet)
        (replies : List RingReply), IsQueue r q → ringMachine.step r call = some (r', replies) →
        ∃ q', (queueMachine n).step q call = some (q', replies) ∧ IsQueue r' q' := by
      intro r q call r' replies h hr
      obtain ⟨hreply, hnext⟩ := ringOps_spec h call
      cases hr
      exact ⟨_, by rw [hreply]; rfl, hnext⟩
    obtain ⟨q, hq, h⟩ := Machine.run_simulates IsQueue hstep (isQueue_alloc mem) hrun
    exact ⟨r, q, replies, hrun, hq, h.contents⟩
  · refine Machine.always_of_inv (fun r => ∃ q : Fifo UInt8 n, IsQueue r q)
      ⟨_, isQueue_alloc mem⟩ ?_ calls
    rintro r call r' replies ⟨q, h⟩ hr
    obtain ⟨-, hnext⟩ := ringOps_spec h call
    cases hr
    refine ⟨⟨_, hnext⟩, ?_, ?_, ?_, ?_⟩
    · intro i hi
      rw [← h.bfrsize]
      exact RingSet.lt_of_mem_touched hi
    · rw [hnext.stored, hnext.free]
      exact Fifo.length_add_free _
    · have hiff := (ringOps call r).2.isEmpty_iff
      simp only [ringOps, Nat.cast_eq_one, Bool.toNat_eq_one, Nat.cast_eq_zero]
      exact hiff
    · have hiff := (ringOps call r).2.isFull_iff
      simp only [ringOps, Nat.cast_eq_one, Bool.toNat_eq_one, Nat.cast_eq_zero]
      exact hiff

end SdrProxy
