import SdrProxy.Arrival

/-!
# The array of slots

The pointers of `data_store_g` between a `RING_ALLOC` and the `RING_DEALLOC` after it.

* `DataRing.slots` : the pointers, and `freeLoop`, the loop of `RING_DEALLOC` over them, which
  `DataRing.deallocE` runs;
* `DataRing.datarRotateRight_from` : a rotation only moves pointers;
* `DataRing.store_from` : and so does a `RING_STORE`;
* `slots_storeAll` : after any `RING_STORE`s they are those that `RING_ALLOC` made, each at one
  place, and each is freed once.
-/

namespace SdrProxy

/-- The pointers of `ds'` are pointers of `ds`. -/
def From (ds ds' : ℕ → ℕ) : Prop := ∀ p < DATASIZE, ∃ q < DATASIZE, ds' p = ds q

namespace From

variable {ds ds' ds'' : ℕ → ℕ}

theorem refl (ds : ℕ → ℕ) : From ds ds := fun p hp => ⟨p, hp, rfl⟩

theorem trans (h : From ds ds') (h' : From ds' ds'') : From ds ds'' := by
  intro p hp
  obtain ⟨q, hq, heq⟩ := h' p hp
  obtain ⟨q', hq', heq'⟩ := h q hq
  exact ⟨q', hq', heq.trans heq'⟩

/-- A place gets the pointer of another one. -/
theorem update (h : From ds ds') (index : ℕ) {q : ℕ} (hq : q < DATASIZE) :
    From ds (Function.update ds' index (ds q)) := by
  intro p hp
  by_cases hpi : p = index
  · subst hpi
    exact ⟨q, hq, Function.update_self _ _ _⟩
  · rw [Function.update_of_ne hpi]
    exact h p hp

end From

theorem datarNormalize_lt (offset : ℤ) : datarNormalize offset < DATASIZE := by
  have hpos : (0 : ℤ) < DATASIZE := by decide
  rw [datarNormalize, Int.toNat_lt (Int.emod_nonneg _ hpos.ne')]
  exact Int.emod_lt_of_pos _ hpos

namespace DataRing

variable {r r' : DataRing} {element : PacketInfo} {pktImg : Bfr}

/-- The pointers of `data_store_g`. -/
def slots (r : DataRing) : List ℕ := (List.range DATASIZE).map r.dataStore

/-- The loop of a rotation only moves pointers. -/
theorem rotateLoop_from (start fuel : ℕ) {dest : ℕ} (hdest : dest < DATASIZE) (ds : ℕ → ℕ) :
    From ds (rotateLoop start fuel dest ds) := by
  induction fuel generalizing dest ds with
  | zero => exact From.refl ds
  | succ fuel ih =>
    rw [rotateLoop]
    split_ifs with heq
    · exact From.refl ds
    · have hone := (From.refl ds).update (datarNormalize (dest + 1)) hdest
      exact hone.trans (ih (datarNormalize_lt _) _)

theorem datarRotateRight_from {start end_ : ℕ} (hstart : start < DATASIZE)
    (hend : end_ < DATASIZE) (r : DataRing) :
    From r.dataStore (r.datarRotateRight start end_).dataStore := by
  have hloop := rotateLoop_from start DATASIZE (datarNormalize_lt (end_ - 1)) r.dataStore
  have hup := (From.refl (rotateLoop start DATASIZE (datarNormalize (end_ - 1)) r.dataStore)).update
    (datarNormalize (start + 1)) hstart
  exact (hloop.trans hup).update start hend

@[simp] theorem dataStore_grow (r : DataRing) : r.grow.dataStore = r.dataStore := by
  unfold grow
  split <;> rfl

theorem store_from (hok : r.Ok) {ret : ℤ} (hstore : r.store element pktImg = .ok (ret, r')) :
    From r.dataStore r'.dataStore := by
  have hend : r.datarEnd < DATASIZE := by
    rw [hok.inv.end_eq]
    exact Nat.mod_lt _ DATASIZE_pos
  have hmove := store_move hok element pktImg
  rw [hstore] at hmove
  cases hmove with
  | refused _ _ => exact From.refl _
  | replaced i _ _ => exact From.refl _
  | placed i ds' hrot _ _ _ _ _ =>
    rw [dataStore_grow]
    rcases hrot with rfl | ⟨start, hstart, rfl⟩
    · exact From.refl _
    · exact datarRotateRight_from hstart hend r

/-- The indexes and the count fit together, and the pointers are those that `RING_ALLOC` made, each
at one place. -/
structure SlotsOk (r : DataRing) : Prop where
  start_lt : r.datarStart < DATASIZE
  end_lt : r.datarEnd < DATASIZE
  cnt_le : r.datarCnt ≤ DATASIZE
  end_mod : r.datarEnd ≡ r.datarStart + r.datarCnt [MOD DATASIZE]
  perm : r.slots.Perm (List.range DATASIZE)
  distinct : ∀ p < DATASIZE, ∀ q < DATASIZE, p ≠ q → r.dataStore p ≠ r.dataStore q

/-- The pointers that `RING_ALLOC` makes. -/
theorem slots_alloc (size : ℕ) (mem : ℕ → Datastore) :
    (alloc size mem).slots = List.range DATASIZE := List.map_id _

theorem Ok.slotsOk (hok : r.Ok) (hlt : ∀ p < DATASIZE, r.dataStore p < DATASIZE) : r.SlotsOk where
  start_lt := hok.inv.start_lt
  end_lt := by
    rw [hok.inv.end_eq]
    exact Nat.mod_lt _ DATASIZE_pos
  cnt_le := hok.inv.cnt_le
  end_mod := by
    rw [hok.inv.end_eq]
    exact Nat.mod_modEq _ _
  perm := Circular.perm_map_range hlt hok.inv.inj
  distinct p hp q hq hne heq := hne (hok.inv.inj p hp q hq heq)

end DataRing

/-- What becomes of a program that frees a slot that is not allocated. -/
def DOUBLE_FREE : String := "free(): double free detected"

/-- The loop of `RING_DEALLOC`, for the places left, where `live` are the slots allocated. -/
def freeLoop (ds : ℕ → ℕ) : List ℕ → List ℕ → Except String (List ℕ)
  | [], live => .ok live
  | i :: places, live =>
    if ds i ∈ live then freeLoop ds places (live.erase (ds i)) else .error DOUBLE_FREE

/-- The loop frees every slot once if the places left have just the slots allocated. -/
theorem freeLoop_perm {ds : ℕ → ℕ} {places live : List ℕ} (h : (places.map ds).Perm live) :
    freeLoop ds places live = .ok [] := by
  induction places generalizing live with
  | nil =>
    rw [List.map_nil, List.nil_perm] at h
    rw [h]
    rfl
  | cons i places ih =>
    rw [List.map_cons] at h
    obtain ⟨hmem, hrest⟩ := List.cons_perm_iff_perm_erase.1 h
    rw [freeLoop, if_pos hmem]
    exact ih hrest

namespace DataRing

variable {r : DataRing}

/-- The slots that are allocated. -/
def live (r : DataRing) : List ℕ := if r.slotSize.isSome then List.range DATASIZE else []

/-- `RING_DEALLOC` with its calls of `free`. -/
def deallocE (r : DataRing) : Except String DataRing := do
  let _ ← freeLoop r.dataStore (List.range DATASIZE) r.live
  return r.dealloc

/-- Where the pointers are those that `RING_ALLOC` made, the loop does not stop `RING_DEALLOC`. -/
theorem SlotsOk.deallocE_eq (h : r.SlotsOk) (hsize : r.slotSize.isSome = true) :
    r.deallocE = .ok r.dealloc := by
  have hloop : freeLoop r.dataStore (List.range DATASIZE) (List.range DATASIZE) = .ok [] :=
    freeLoop_perm h.perm
  rw [deallocE, live, if_pos hsize, hloop]
  rfl

end DataRing

/-- **The slot array stays a permutation.**  After any sequence of `RING_STORE`s into a fresh ring
the pointers are those that `RING_ALLOC` made, each at one place, and `RING_DEALLOC` frees each of
them once. -/
theorem slots_storeAll (size : ℕ) (mem : ℕ → Datastore) (packets : List (PacketInfo × Bfr)) :
    ∃ r : DataRing, storeAll packets (.alloc size mem) = .ok r ∧ r.SlotsOk ∧
      r.slots.Perm (DataRing.alloc size mem).slots ∧
      freeLoop r.dataStore (List.range DATASIZE) (DataRing.alloc size mem).slots = .ok [] := by
  have hrun : ∀ r : DataRing, r.Ok → (∀ p < DATASIZE, r.dataStore p < DATASIZE) →
      ∃ r' : DataRing, storeAll packets r = .ok r' ∧ r'.Ok ∧
        ∀ p < DATASIZE, r'.dataStore p < DATASIZE := by
    induction packets with
    | nil => exact fun r hok hlt => ⟨r, rfl, hok, hlt⟩
    | cons packet packets ih =>
      intro r hok hlt
      obtain ⟨taken, r₁, hstore, hok₁, -, -⟩ := DataRing.store_spec hok packet.1 packet.2
      have hlt₁ : ∀ p < DATASIZE, r₁.dataStore p < DATASIZE := by
        intro p hp
        obtain ⟨q, hq, heq⟩ := DataRing.store_from hok hstore p hp
        rw [heq]
        exact hlt q hq
      obtain ⟨r₂, hrest, hok₂, hlt₂⟩ := ih r₁ hok₁ hlt₁
      refine ⟨r₂, ?_, hok₂, hlt₂⟩
      rw [storeAll, List.foldlM_cons, hstore]
      exact hrest
  obtain ⟨r, hstore, hok, hlt⟩ := hrun _ (DataRing.ok_alloc size mem) fun p hp => hp
  have hslots := hok.slotsOk hlt
  have hperm := hslots.perm
  rw [← DataRing.slots_alloc size mem] at hperm
  exact ⟨r, hstore, hslots, hperm, freeLoop_perm hperm⟩

end SdrProxy
