import SdrProxy.DataBfr
import SdrProxy.Lib.BoundedMap
import SdrProxy.Lib.Circular

/-!
# The data ring as a list

What the data ring holds, read from `datar_start` on for `datar_cnt` positions, and what the moves
of `databfr.c` do to it.

* `DataRing.Inv` : the two indexes and the count fit together, and no two places share a slot;
* `Opened ds ds' s i c` : `ds'` is the pointer array `ds` with the slot at offset `c` from `s`
  brought to offset `i` and what lay between moved up; `datarRotateRight_opened` says that the
  rotation does this, also when it runs across the end of the array;
* `entries_insert` : a store into the place opened inserts one entry into the list, and drops the
  first one if the ring was full;
* `searchDataBfr_found` : the result code and index of the search, in terms of the list.
-/

namespace SdrProxy

/-! ### Indexes -/

theorem DATASIZE_pos : 0 < DATASIZE := by decide

theorem datarNormalize_natCast (n : ℕ) : datarNormalize n = n % DATASIZE := by
  rw [datarNormalize, ← Nat.cast_add, ← Int.natCast_mod, Int.toNat_natCast, Nat.add_mod_right]

theorem datarNormalize_succ (n : ℕ) : datarNormalize (n + 1) = (n + 1) % DATASIZE :=
  datarNormalize_natCast (n + 1)

theorem datarNormalize_pred (s j : ℕ) :
    datarNormalize (((s + (j + 1)) % DATASIZE : ℕ) - 1) = (s + j) % DATASIZE := by
  have hpos := DATASIZE_pos
  have hcast : (((s + (j + 1)) % DATASIZE : ℕ) : ℤ) - 1 + DATASIZE =
      (((s + (j + 1)) % DATASIZE + (DATASIZE - 1) : ℕ) : ℤ) := by omega
  rw [datarNormalize, hcast, ← Int.natCast_mod, Int.toNat_natCast, Nat.mod_add_mod,
    show s + (j + 1) + (DATASIZE - 1) = s + j + DATASIZE by omega, Nat.add_mod_right]

/-! ### Rotating the pointer array -/

/-- `ds'` is `ds` with the slot at offset `c` from `s` brought to offset `i`, and those at offsets
`i` to `c - 1` moved up. -/
structure Opened (ds ds' : ℕ → ℕ) (s i c : ℕ) : Prop where
  place : ds' ((s + i) % DATASIZE) = ds ((s + c) % DATASIZE)
  moved : ∀ j, i ≤ j → j < c → ds' ((s + (j + 1)) % DATASIZE) = ds ((s + j) % DATASIZE)
  kept : ∀ j < i, c < j + DATASIZE → ds' ((s + j) % DATASIZE) = ds ((s + j) % DATASIZE)
  inj : (∀ p < DATASIZE, ∀ q < DATASIZE, ds p = ds q → p = q) →
    ∀ p < DATASIZE, ∀ q < DATASIZE, ds' p = ds' q → p = q

/-- Opening the place behind all entries moves nothing. -/
theorem Opened.refl (ds : ℕ → ℕ) (s c : ℕ) : Opened ds ds s c c where
  place := rfl
  moved j h₁ h₂ := by omega
  kept _ _ _ := rfl
  inj h := h

namespace DataRing

theorem rotateLoop_apply {start t : ℕ} (hstart : start < DATASIZE) (ht : t + 1 < DATASIZE)
    {fuel : ℕ} (hfuel : t ≤ fuel) (ds : ℕ → ℕ) {j : ℕ} (hj : j < DATASIZE) :
    rotateLoop start fuel ((start + t) % DATASIZE) ds ((start + j) % DATASIZE) =
      if 2 ≤ j ∧ j ≤ t + 1 then ds ((start + (j - 1)) % DATASIZE)
      else ds ((start + j) % DATASIZE) := by
  induction t generalizing fuel ds with
  | zero =>
    have hno : ¬ (2 ≤ j ∧ j ≤ 0 + 1) := by omega
    rw [Nat.add_zero, Nat.mod_eq_of_lt hstart, if_neg hno]
    cases fuel with
    | zero => rfl
    | succ fuel => simp only [rotateLoop, ↓reduceIte]
  | succ t ih =>
    obtain ⟨fuel, rfl⟩ : ∃ f, fuel = f + 1 := ⟨fuel - 1, by omega⟩
    have hne : (start + (t + 1)) % DATASIZE ≠ start := by
      intro h
      have := Circular.offset_inj (by omega) DATASIZE_pos
        (h.trans (by rw [Nat.add_zero, Nat.mod_eq_of_lt hstart]))
      omega
    have hdest : datarNormalize (((start + (t + 1)) % DATASIZE : ℕ) + 1) =
        (start + (t + 2)) % DATASIZE := by
      rw [datarNormalize_succ, Nat.mod_add_mod]
      rfl
    simp only [rotateLoop, hne, ↓reduceIte, datarNormalize_pred, hdest]
    rw [ih (by omega) (by omega)]
    have hcell : ∀ k < DATASIZE, (start + k) % DATASIZE = (start + (t + 2)) % DATASIZE →
        k = t + 2 := fun k hk => Circular.offset_inj hk (by omega)
    split_ifs with h₁ h₂ h₂
    · rw [Function.update_of_ne fun h => by have := hcell _ (by omega) h; omega]
    · omega
    · obtain rfl : j = t + 2 := by omega
      rw [Function.update_self]
      rfl
    · rw [Function.update_of_ne fun h => by have := hcell _ hj h; omega]

/-- The rotation, by offsets from `start`: which old place each new one gets its pointer from. -/
theorem datarRotateRight_apply {start m : ℕ} (hstart : start < DATASIZE) (hm : 1 ≤ m)
    (hlt : m < DATASIZE) (r : DataRing) {j : ℕ} (hj : j < DATASIZE) :
    (r.datarRotateRight start ((start + m) % DATASIZE)).dataStore ((start + j) % DATASIZE) =
      r.dataStore ((start + if j = 0 then m else if j ≤ m then j - 1 else j) % DATASIZE) := by
  obtain ⟨t, rfl⟩ : ∃ t, m = t + 1 := ⟨m - 1, by omega⟩
  have hcell : ∀ k < DATASIZE, (start + j) % DATASIZE = (start + k) % DATASIZE → j = k :=
    fun k hk => Circular.offset_inj hj hk
  have hcell0 : (start + j) % DATASIZE = start → j = 0 := fun h =>
    hcell 0 DATASIZE_pos (h.trans (by rw [Nat.add_zero, Nat.mod_eq_of_lt hstart]))
  have hloop : ∀ {k}, k < DATASIZE →
      rotateLoop start DATASIZE ((start + t) % DATASIZE) r.dataStore ((start + k) % DATASIZE) =
        if 2 ≤ k ∧ k ≤ t + 1 then r.dataStore ((start + (k - 1)) % DATASIZE)
        else r.dataStore ((start + k) % DATASIZE) :=
    fun hk => rotateLoop_apply hstart hlt (by omega) _ hk
  have hzero : rotateLoop start DATASIZE ((start + t) % DATASIZE) r.dataStore start =
      r.dataStore start := by
    have := hloop DATASIZE_pos
    rwa [Nat.add_zero, Nat.mod_eq_of_lt hstart, if_neg (by omega)] at this
  simp only [DataRing.datarRotateRight, datarNormalize_pred, datarNormalize_succ, hzero]
  rcases Nat.eq_zero_or_pos j with rfl | hpos
  · -- the last write of the rotation, of the pointer saved first
    have h0 : (start + 0) % DATASIZE = start := Nat.mod_eq_of_lt hstart
    rw [h0, Function.update_self, if_pos rfl]
  · rw [Function.update_of_ne fun h => by have := hcell0 h; omega, if_neg (by omega)]
    by_cases h1 : j = 1
    · subst h1
      rw [Function.update_self, if_pos (by omega), Nat.sub_self, Nat.add_zero,
        Nat.mod_eq_of_lt hstart]
    · rw [Function.update_of_ne fun h => h1 (hcell 1 (by omega) h), hloop hj]
      by_cases hjt : j ≤ t + 1
      · rw [if_pos ⟨by omega, hjt⟩, if_pos hjt]
      · rw [if_neg (by omega), if_neg hjt]

/-- **The rotation opens a place**, wherever the places lie on the circle. -/
theorem datarRotateRight_opened {s i c : ℕ} (hic : i < c) (hlt : c - i < DATASIZE) (r : DataRing) :
    Opened r.dataStore
      (r.datarRotateRight ((s + i) % DATASIZE) ((s + c) % DATASIZE)).dataStore s i c := by
  have hpos := DATASIZE_pos
  have hend : (s + c) % DATASIZE = ((s + i) % DATASIZE + (c - i)) % DATASIZE := by
    rw [Nat.mod_add_mod]
    congr 1
    omega
  have hstart : (s + i) % DATASIZE < DATASIZE := Nat.mod_lt _ hpos
  have happ : ∀ j < DATASIZE,
      (r.datarRotateRight ((s + i) % DATASIZE) ((s + c) % DATASIZE)).dataStore
          ((s + (i + j)) % DATASIZE) =
        r.dataStore ((s + (i + if j = 0 then c - i else if j ≤ c - i then j - 1 else j)) %
          DATASIZE) := by
    intro j hj
    have := datarRotateRight_apply hstart (by omega) hlt r hj
    rwa [← hend, Nat.mod_add_mod, Nat.mod_add_mod, Nat.add_assoc, Nat.add_assoc] at this
  refine ⟨?_, ?_, ?_, ?_⟩
  · have := happ 0 hpos
    rwa [if_pos rfl, Nat.add_zero, Nat.add_sub_cancel' hic.le] at this
  · intro j hj hjc
    have := happ (j + 1 - i) (by omega)
    rw [if_neg (by omega), if_pos (by omega)] at this
    rw [show j + 1 = i + (j + 1 - i) by omega, this]
    congr 2
    omega
  · -- a place before the opened one is reached by going once around the circle
    intro j hj hjc
    have := happ (j + DATASIZE - i) (by omega)
    rw [if_neg (by omega), if_neg (by omega),
      show s + (i + (j + DATASIZE - i)) = s + j + DATASIZE by omega, Nat.add_mod_right] at this
    exact this
  · -- two places with one pointer got it from the same old place
    intro hinj p hp q hq h
    obtain ⟨a, ha, rfl⟩ := Circular.exists_offset hstart hp
    obtain ⟨b, hb, rfl⟩ := Circular.exists_offset hstart hq
    have hmod : ∀ k, ((s + i) % DATASIZE + k) % DATASIZE = (s + (i + k)) % DATASIZE := fun k => by
      rw [Nat.mod_add_mod, Nat.add_assoc]
    rw [hmod, hmod, happ a ha, happ b hb] at h
    have heq := hinj _ (Nat.mod_lt _ hpos) _ (Nat.mod_lt _ hpos) h
    rw [← hmod, ← hmod] at heq
    have hoff := Circular.offset_inj (by split_ifs <;> omega) (by split_ifs <;> omega) heq
    have hab : a = b := by split_ifs at hoff <;> omega
    rw [hab]

/-! ### The list of entries -/

/-- An entry of the cache: the time of a packet, its info and its bytes. -/
abbrev Entry := PacketTime × PacketInfo × List UInt8

/-- The entry that a packet makes. -/
def entry (element : PacketInfo) (pktImg : Bfr) : Entry :=
  (element.packetTime, element, pktImg.read 0 element.packetLen)

/-- The slots met on `n` places from `s` on. -/
def walk (ds : ℕ → ℕ) (s n : ℕ) : List ℕ :=
  (List.range n).map fun j => ds ((s + j) % DATASIZE)

/-- The entries met on a walk of `datar_cnt` places from `datar_start`. -/
def entries (r : DataRing) : List Entry :=
  (walk r.dataStore r.datarStart r.datarCnt).map fun a =>
    entry (r.heap a).packetInfo (r.heap a).sdrPacket

/-- The indexes and the count fit together, and no two places share a slot. -/
structure Inv (r : DataRing) : Prop where
  start_lt : r.datarStart < DATASIZE
  cnt_le : r.datarCnt ≤ DATASIZE
  end_eq : r.datarEnd = (r.datarStart + r.datarCnt) % DATASIZE
  inj : ∀ p < DATASIZE, ∀ q < DATASIZE, r.dataStore p = r.dataStore q → p = q

variable {r : DataRing} {ds ds' : ℕ → ℕ} {s i c o : ℕ} {element : PacketInfo} {pktImg : Bfr}

@[simp] theorem length_walk (ds : ℕ → ℕ) (s n : ℕ) : (walk ds s n).length = n := by simp [walk]

@[simp] theorem getElem_walk {n j : ℕ} (h : j < (walk ds s n).length) :
    (walk ds s n)[j] = ds ((s + j) % DATASIZE) := by
  simp [walk]

@[simp] theorem length_entries (r : DataRing) : r.entries.length = r.datarCnt := by
  simp [entries]

theorem getElem_entries {j : ℕ} (h : j < r.entries.length) :
    r.entries[j] = entry (r.slot ((r.datarStart + j) % DATASIZE)).packetInfo
      (r.slot ((r.datarStart + j) % DATASIZE)).sdrPacket := by
  simp [entries, slot]

theorem inv_alloc (size : ℕ) (mem : ℕ → Datastore) : (alloc size mem).Inv where
  start_lt := DATASIZE_pos
  cnt_le := Nat.zero_le _
  end_eq := rfl
  inj _ _ _ _ h := h

@[simp] theorem entries_alloc (size : ℕ) (mem : ℕ → Datastore) : (alloc size mem).entries = [] :=
  rfl

/-- The walk over a pointer array with a place opened, from offset `o` on. -/
theorem walk_opened (h : Opened ds ds' s i c) (hoi : o ≤ i) (hic : i ≤ c)
    (hc : c < o + DATASIZE) :
    walk ds' ((s + o) % DATASIZE) (c + 1 - o) =
      ((walk ds s c).take i).drop o ++ ds ((s + c) % DATASIZE) :: (walk ds s c).drop i := by
  apply List.ext_getElem
  · simp only [length_walk, List.length_append, List.length_drop, List.length_take,
      List.length_cons]
    omega
  · intro j h₁ h₂
    rw [length_walk] at h₁
    rw [getElem_walk, Nat.mod_add_mod, Nat.add_assoc]
    rcases Nat.lt_trichotomy (o + j) i with hj | hj | hj
    · -- before the opened place nothing moved
      rw [List.getElem_append_left (by simp; omega), List.getElem_drop, List.getElem_take,
        getElem_walk, h.kept (o + j) hj (by omega)]
    · have hlen : (((walk ds s c).take i).drop o).length = j := by simp; omega
      rw [List.getElem_append_right (by omega), hj, h.place]
      simp [hlen]
    · -- behind it each place has the slot of the one before
      obtain ⟨k, hk⟩ : ∃ k, o + j = k + 1 := ⟨o + j - 1, by omega⟩
      have hlen : (((walk ds s c).take i).drop o).length = i - o := by simp; omega
      rw [List.getElem_append_right (by omega), hk, h.moved k (by omega) (by omega)]
      obtain ⟨d, hd⟩ : ∃ d, j - (((walk ds s c).take i).drop o).length = d + 1 :=
        ⟨j - (i - o) - 1, by omega⟩
      simp only [hd, List.getElem_cons_succ, List.getElem_drop, getElem_walk]
      congr 3
      omega

/-- The slot taken for a new entry is none of those that stay. -/
theorem place_not_mem (hinj : ∀ p < DATASIZE, ∀ q < DATASIZE, ds p = ds q → p = q)
    (hc : c < o + DATASIZE) :
    ds ((s + c) % DATASIZE) ∉ (walk ds s c).drop o := by
  intro hmem
  obtain ⟨j, hj, heq⟩ := List.mem_iff_getElem.1 hmem
  rw [List.length_drop, length_walk] at hj
  rw [List.getElem_drop, getElem_walk] at heq
  have hpos := DATASIZE_pos
  have hcell := hinj _ (Nat.mod_lt _ hpos) _ (Nat.mod_lt _ hpos) heq
  have hmod : (s + (o + j) + 0) % DATASIZE = (s + (o + j) + (c - (o + j))) % DATASIZE := by
    rw [Nat.add_zero, hcell]
    congr 1
    omega
  have := Circular.offset_inj hpos (by omega) hmod
  omega

/-- How many entries make room for a new one. -/
def overflow (r : DataRing) : ℕ := if r.isFull then 1 else 0

theorem overflow_eq (r : DataRing) : r.overflow = if r.datarCnt = DATASIZE then 1 else 0 := by
  simp [overflow, isFull]

theorem grow_eq (hinv : r.Inv) : r.grow =
    { r with
      datarEnd := (r.datarEnd + 1) % DATASIZE
      datarStart := (r.datarStart + r.overflow) % DATASIZE
      datarCnt := r.datarCnt + 1 - r.overflow } := by
  unfold grow overflow
  rw [datarNormalize_succ, datarNormalize_succ]
  split_ifs
  · rfl
  · have hstart : (r.datarStart + 0) % DATASIZE = r.datarStart := Nat.mod_eq_of_lt hinv.start_lt
    rw [hstart]
    rfl

/-- The slot written holds the entry of the packet. -/
theorem entry_storeElement (index : ℕ) :
    entry ((r.storeElement index element pktImg).heap (r.dataStore index)).packetInfo
      ((r.storeElement index element pktImg).heap (r.dataStore index)).sdrPacket =
      entry element pktImg := by
  simp only [storeElement, Function.update_self, entry]
  have := Bfr.read_load (r.slot index).sdrPacket 0 (pktImg.read 0 element.packetLen)
  rw [Bfr.length_read] at this
  rw [this]

theorem map_entry_storeElement {index : ℕ} {l : List ℕ} (h : r.dataStore index ∉ l) :
    (l.map fun a => entry ((r.storeElement index element pktImg).heap a).packetInfo
      ((r.storeElement index element pktImg).heap a).sdrPacket) =
      l.map fun a => entry (r.heap a).packetInfo (r.heap a).sdrPacket := by
  apply List.map_congr_left
  intro a ha
  have hne : a ≠ r.dataStore index := by
    rintro rfl
    exact h ha
  simp only [storeElement, Function.update_of_ne hne]

/-- **A store into an opened place inserts one entry**, and drops the first one if the ring was
full. -/
theorem entries_insert (hinv : r.Inv) (hopen : Opened r.dataStore ds' r.datarStart i r.datarCnt)
    (hoi : r.overflow ≤ i) (hic : i ≤ r.datarCnt) (element : PacketInfo) (pktImg : Bfr) :
    (({ r with dataStore := ds' }.storeElement ((r.datarStart + i) % DATASIZE) element
        pktImg).grow).entries =
      (r.entries.take i).drop r.overflow ++ entry element pktImg :: r.entries.drop i := by
  have hcnt : r.datarCnt < r.overflow + DATASIZE := by
    have := hinv.cnt_le
    rw [overflow_eq]
    split_ifs <;> omega
  set q : DataRing := { r with dataStore := ds' } with hq
  set w := walk r.dataStore r.datarStart r.datarCnt with hw
  -- the slot written is the one behind the entries: empty, or the oldest one's in a full ring
  have hplace : q.dataStore ((r.datarStart + i) % DATASIZE) =
      r.dataStore ((r.datarStart + r.datarCnt) % DATASIZE) := hopen.place
  have hnot : q.dataStore ((r.datarStart + i) % DATASIZE) ∉ w.drop r.overflow := by
    rw [hplace]
    exact place_not_mem hinv.inj hcnt
  have hnot₁ : q.dataStore ((r.datarStart + i) % DATASIZE) ∉ (w.take i).drop r.overflow :=
    fun hm => hnot ((List.take_sublist i w).drop r.overflow |>.subset hm)
  have hnot₂ : q.dataStore ((r.datarStart + i) % DATASIZE) ∉ w.drop i :=
    fun hm => hnot (List.drop_subset_drop_left w hoi hm)
  have hqinv : (q.storeElement ((r.datarStart + i) % DATASIZE) element pktImg).Inv :=
    ⟨hinv.start_lt, hinv.cnt_le, hinv.end_eq, hopen.inj hinv.inj⟩
  rw [grow_eq hqinv, entries]
  change List.map _ (walk ds' ((r.datarStart + r.overflow) % DATASIZE)
    (r.datarCnt + 1 - r.overflow)) = _
  rw [walk_opened hopen hoi hic hcnt, ← hw, ← hplace, List.map_append, List.map_cons,
    entry_storeElement, map_entry_storeElement hnot₁, map_entry_storeElement hnot₂]
  simp only [entries, ← List.map_drop, ← List.map_take, ← hw, hq]

theorem inv_insert (hinv : r.Inv) (hopen : Opened r.dataStore ds' r.datarStart i r.datarCnt)
    (index : ℕ) (element : PacketInfo) (pktImg : Bfr) :
    (({ r with dataStore := ds' }.storeElement index element pktImg).grow).Inv := by
  have hqinv : ({ r with dataStore := ds' }.storeElement index element pktImg).Inv :=
    ⟨hinv.start_lt, hinv.cnt_le, hinv.end_eq, hopen.inj hinv.inj⟩
  rw [grow_eq hqinv]
  refine ⟨Nat.mod_lt _ DATASIZE_pos, ?_, ?_, hopen.inj hinv.inj⟩
  · change r.datarCnt + 1 - r.overflow ≤ DATASIZE
    have := hinv.cnt_le
    rw [overflow_eq]
    split_ifs <;> omega
  · change (r.datarEnd + 1) % DATASIZE = ((r.datarStart + r.overflow) % DATASIZE +
      (r.datarCnt + 1 - r.overflow)) % DATASIZE
    rw [hinv.end_eq, Nat.mod_add_mod, Nat.mod_add_mod]
    congr 1
    rw [overflow_eq]
    have := DATASIZE_pos
    split_ifs <;> omega

theorem entries_storeElement (hinv : r.Inv) (hi : i < r.datarCnt) (element : PacketInfo)
    (pktImg : Bfr) :
    (r.storeElement ((r.datarStart + i) % DATASIZE) element pktImg).entries =
      r.entries.set i (entry element pktImg) := by
  have hcnt := hinv.cnt_le
  apply List.ext_getElem
  · simp [storeElement]
  · intro j h₁ h₂
    rw [length_entries] at h₁
    have hj : j < r.datarCnt := h₁
    simp only [entries, List.getElem_map, getElem_walk, List.getElem_set]
    by_cases hij : i = j
    · subst hij
      rw [if_pos rfl]
      exact entry_storeElement _
    · have hne : r.dataStore ((r.datarStart + j) % DATASIZE) ≠
          r.dataStore ((r.datarStart + i) % DATASIZE) := fun h => hij
        (Circular.offset_inj (by omega) (by omega)
          (hinv.inj _ (Nat.mod_lt _ DATASIZE_pos) _ (Nat.mod_lt _ DATASIZE_pos) h)).symm
      rw [if_neg hij]
      simp only [storeElement, Function.update_of_ne hne]

theorem Inv.storeElement (hinv : r.Inv) (index : ℕ) (element : PacketInfo) (pktImg : Bfr) :
    (r.storeElement index element pktImg).Inv :=
  ⟨hinv.start_lt, hinv.cnt_le, hinv.end_eq, hinv.inj⟩

/-! ### The search -/

/-- What a result code and an index of `search_data_bfr` say about the entries. -/
inductive Found (r : DataRing) (target : PacketTime) : ℤ × ℤ → Prop
  /-- The ring is empty. -/
  | empty : r.datarCnt = 0 → Found r target (-2, -1)
  /-- The target is newer than all entries. -/
  | newer (index : ℤ) : r.datarCnt ≠ 0 → (∀ e ∈ r.entries, e.1 < target) →
      Found r target (-1, index)
  /-- The target is older than all entries. -/
  | older : r.datarCnt ≠ 0 → (∀ e ∈ r.entries, target < e.1) → Found r target (1, r.datarStart)
  /-- The entry at offset `i` has the target time. -/
  | exact (i : ℕ) (h : i < r.entries.length) : r.entries[i].1 = target →
      Found r target (0, ((r.datarStart + i) % DATASIZE : ℕ))
  /-- The target lies between the entries before offset `i` and those from there on. -/
  | between (i : ℕ) : 0 < i → i < r.datarCnt → (∀ e ∈ r.entries.take i, e.1 < target) →
      (∀ e ∈ r.entries.drop i, target < e.1) →
      Found r target (2, ((r.datarStart + i) % DATASIZE : ℕ))

variable {target : PacketTime}

theorem compareIndex_neg {j : ℕ} (h : j < r.entries.length) :
    r.compareIndex target ((r.datarStart + j) % DATASIZE) < 0 ↔ target < r.entries[j].1 := by
  rw [getElem_entries]
  simp only [compareIndex, entry]
  split_ifs with h₁ h₂
  · simpa using h₁.le
  · simpa using h₂
  · simpa using h₂

theorem compareIndex_pos {j : ℕ} (h : j < r.entries.length) :
    0 < r.compareIndex target ((r.datarStart + j) % DATASIZE) ↔ r.entries[j].1 < target := by
  rw [getElem_entries]
  simp only [compareIndex, entry]
  split_ifs with h₁ h₂
  · simpa using h₁
  · simpa using h₂.le
  · simpa using h₁

theorem compareIndex_eq_zero {j : ℕ} (h : j < r.entries.length) :
    r.compareIndex target ((r.datarStart + j) % DATASIZE) = 0 ↔ r.entries[j].1 = target := by
  rw [getElem_entries]
  simp only [compareIndex, entry]
  split_ifs with h₁ h₂
  · simpa using h₁.ne
  · simpa using h₂.ne'
  · simpa using le_antisymm (not_lt.1 h₂) (not_lt.1 h₁)

/-- In an increasing list a bound on one key bounds those on its side. -/
theorem lt_of_mem_take {l : List Entry} (hinc : FinMap.Increasing l) {n : ℕ} (hn : n < l.length)
    (h : l[n].1 < target) : ∀ e ∈ l.take (n + 1), e.1 < target := by
  intro e he
  obtain ⟨j, hj, rfl⟩ := List.mem_iff_getElem.1 he
  rw [List.length_take] at hj
  rw [List.getElem_take]
  rcases Nat.lt_or_ge j n with hjn | hjn
  · exact lt_trans (List.pairwise_iff_getElem.1 hinc j n (by omega) hn hjn) h
  · obtain rfl : j = n := by omega
    exact h

theorem lt_of_mem_drop {l : List Entry} (hinc : FinMap.Increasing l) {n : ℕ} (hn : n < l.length)
    (h : target < l[n].1) : ∀ e ∈ l.drop n, target < e.1 := by
  intro e he
  obtain ⟨j, hj, rfl⟩ := List.mem_iff_getElem.1 he
  rw [List.length_drop] at hj
  rw [List.getElem_drop]
  rcases Nat.eq_zero_or_pos j with rfl | hpos
  · exact h
  · exact lt_trans h (List.pairwise_iff_getElem.1 hinc n (n + j) hn (by omega) (by omega))

theorem Inv.start_eq (hinv : r.Inv) : (r.datarStart + 0) % DATASIZE = r.datarStart :=
  Nat.mod_eq_of_lt hinv.start_lt

theorem datarNormalize_start_add (r : DataRing) (j : ℕ) :
    datarNormalize ((r.datarStart : ℤ) + j) = (r.datarStart + j) % DATASIZE := by
  rw [← Nat.cast_add, datarNormalize_natCast]

/-- The test of the binary search: the target is before the packet `mid` places behind the
start. -/
def past (target : PacketTime) (r : DataRing) (mid : ℕ) : Bool :=
  r.compareIndex target (datarNormalize (r.datarStart + mid)) < 0

theorem past_iff {j : ℕ} (h : j < r.entries.length) :
    r.past target j = true ↔ target < r.entries[j].1 := by
  rw [past, datarNormalize_start_add, decide_eq_true_eq, compareIndex_neg h]

theorem past_eq_false {j : ℕ} (h : j < r.entries.length) :
    r.past target j = false ↔ r.entries[j].1 ≤ target := by
  rw [← Bool.not_eq_true, past_iff h, not_lt]

/-- The loop ends at the last entry that is not newer than the target. -/
theorem lastNotPast_upperBound (hinc : FinMap.Increasing r.entries) (hzero : r.datarCnt ≠ 0)
    (hfirst : r.past target 0 = false) :
    LastNotPast (r.past target) 0 (r.datarCnt - 1)
      (upperBound (r.past target) r.datarCnt 0 (r.datarCnt - 1)) := by
  have hlen := length_entries r
  refine upperBound_spec (by omega) (Nat.zero_le _) le_rfl hfirst (fun j k hjk hk hj => ?_)
    fun j hj hj' => by omega
  rw [past_iff (by omega)] at hj ⊢
  exact lt_of_mem_drop hinc (by omega) hj _
    (List.mem_drop_iff_getElem.2 ⟨k - j, by omega, by simp only [Nat.add_sub_cancel' hjk]⟩)

theorem Inv.last_eq (hinv : r.Inv) (hzero : r.datarCnt ≠ 0) :
    datarNormalize (r.datarEnd - 1) = (r.datarStart + (r.datarCnt - 1)) % DATASIZE := by
  rw [hinv.end_eq]
  nth_rewrite 1 [show r.datarCnt = r.datarCnt - 1 + 1 by omega]
  exact datarNormalize_pred _ _

/-- **The binary search over the circle finds the place of a time.** -/
theorem searchDataBfr_found (hinv : r.Inv) (hinc : FinMap.Increasing r.entries)
    (target : PacketTime) : Found r target (r.searchDataBfr target) := by
  have hlen := length_entries r
  unfold searchDataBfr
  split_ifs with hzero hnew hold
  · exact .empty hzero
  · rw [hinv.last_eq hzero, compareIndex_pos (by omega)] at hnew
    apply Found.newer _ hzero
    intro e he
    apply lt_of_mem_take hinc (by omega) hnew e
    rwa [List.take_of_length_le (by omega)]
  · rw [← hinv.start_eq, compareIndex_neg (by omega)] at hold
    exact .older hzero (lt_of_mem_drop hinc (by omega) hold)
  · rw [hinv.last_eq hzero, compareIndex_pos (by omega), not_lt] at hnew
    rw [← hinv.start_eq, compareIndex_neg (by omega), not_lt] at hold
    have hspec : LastNotPast (r.past target) 0 (r.datarCnt - 1) (upperBound
        (fun mid => r.compareIndex target (datarNormalize (r.datarStart + mid)) < 0)
        r.datarCnt 0 (r.datarCnt - 1)) :=
      lastNotPast_upperBound hinc hzero ((past_eq_false (by omega)).2 hold)
    generalize upperBound (fun mid => decide (r.compareIndex target
      (datarNormalize (r.datarStart + mid)) < 0)) r.datarCnt 0 (r.datarCnt - 1) = i at hspec ⊢
    have hile := hspec.le
    have hnot := (past_eq_false (by omega)).1 hspec.not_past
    simp only [datarNormalize_start_add]
    split_ifs with hexact
    · exact .exact i (by omega) ((compareIndex_eq_zero (by omega)).1 hexact)
    · rw [compareIndex_eq_zero (by omega)] at hexact
      have hlt : r.entries[i].1 < target := lt_of_le_of_ne hnot hexact
      have hne : i ≠ r.datarCnt - 1 := by
        -- the newest entry is not older than the target, so the search stopped before it
        rintro rfl
        exact absurd hnew (not_le.2 hlt)
      have hnext : datarNormalize (((r.datarStart + i) % DATASIZE : ℕ) + 1) =
          (r.datarStart + (i + 1)) % DATASIZE := by
        rw [datarNormalize_succ, Nat.mod_add_mod, Nat.add_assoc]
      rw [hnext]
      refine .between (i + 1) (by omega) (by omega) (lt_of_mem_take hinc (by omega) hlt)
        (lt_of_mem_drop hinc (by omega) ?_)
      exact (past_iff (by omega)).1 (hspec.past_after (i + 1) (by omega) (by omega))

end DataRing

end SdrProxy
