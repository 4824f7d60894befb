import SdrProxy.DataWalk

/-!
# The packet cache is a bounded sorted map

The purpose of the data ring, stated without its indexes and pointers: a finite map from packet
times to packets with room for `DATASIZE` entries (`FinMap.offer`), asked for the first packet
after a time (`FinMap.next`).

* `DataRing.StoreMove` : what a `RING_STORE` can do (`DataRing.store_move`);
* `DataRing.store_spec`, `DataRing.retr_spec` : one `RING_STORE` is one `offer`, one `RING_RETR`
  one `next`, and the entries stay in strictly increasing order;
* `cache_refines` : every sequence of calls after a `RING_ALLOC` is answered as the map answers
  it, and never ends the program.
-/

namespace SdrProxy

namespace DataRing

variable {r : DataRing} {element : PacketInfo} {pktImg : Bfr}

/-- The map the ring stands for. -/
def map (r : DataRing) : FinMap PacketTime (PacketInfo × List UInt8) := FinMap.ofList r.entries

/-- The value stored for a packet. -/
def value (element : PacketInfo) (pktImg : Bfr) : PacketInfo × List UInt8 :=
  (element, pktImg.read 0 element.packetLen)

/-- The ring in a state that calls of `data_ring_ops` reach. -/
structure Ok (r : DataRing) : Prop where
  inv : r.Inv
  increasing : FinMap.Increasing r.entries

theorem ok_alloc (size : ℕ) (mem : ℕ → Datastore) : (alloc size mem).Ok :=
  ⟨inv_alloc size mem, List.Pairwise.nil⟩

/-- What `RING_STORE` has to do: the result code and the ring of one `offer`. -/
def Offered (element : PacketInfo) (pktImg : Bfr) (r : DataRing)
    (result : Except String (ℤ × DataRing)) : Prop :=
  ∃ (taken : Bool) (r' : DataRing), result = .ok (if taken then 0 else 1, r') ∧ r'.Ok ∧
    r'.slotSize = r.slotSize ∧
    r.map.offer DATASIZE element.packetTime (value element pktImg) = (taken, r'.map)

theorem slotSize_grow (r : DataRing) : r.grow.slotSize = r.slotSize := by
  unfold grow
  split_ifs <;> rfl

theorem grow_eq_of_not_full (h : r.datarCnt ≠ DATASIZE) : r.grow =
    { r with
      datarEnd := datarNormalize (r.datarEnd + 1)
      datarCnt := r.datarCnt + 1 } := by
  simp only [grow, isFull, h, decide_false, Bool.false_eq_true, ↓reduceIte]

/-- The pointers are as they were, or those from a place on moved up by a rotation. -/
def Rotated (r : DataRing) (ds' : ℕ → ℕ) : Prop :=
  ds' = r.dataStore ∨ ∃ start < DATASIZE, ds' = (r.datarRotateRight start r.datarEnd).dataStore

/-- What a `RING_STORE` can do, with its result code. -/
inductive StoreMove (element : PacketInfo) (pktImg : Bfr) (r : DataRing) :
    Except String (ℤ × DataRing) → Prop
  /-- The ring is full, and the packet older than all others. -/
  | refused : r.datarCnt = DATASIZE → (∀ e ∈ r.entries, element.packetTime < e.1) →
      StoreMove element pktImg r (.ok (1, r))
  /-- The packet takes the place of the one of its time. -/
  | replaced (i : ℕ) (h : i < r.entries.length) : r.entries[i].1 = element.packetTime →
      StoreMove element pktImg r
        (.ok (0, r.storeElement ((r.datarStart + i) % DATASIZE) element pktImg))
  /-- The packet gets a place opened at offset `i`, where the order of times puts it. -/
  | placed (i : ℕ) (ds' : ℕ → ℕ) : r.Rotated ds' →
      Opened r.dataStore ds' r.datarStart i r.datarCnt → r.overflow ≤ i → i ≤ r.datarCnt →
      (∀ e ∈ r.entries.take i, e.1 < element.packetTime) →
      (∀ e ∈ r.entries.drop i, element.packetTime < e.1) →
      StoreMove element pktImg r (.ok (0, ({ r with dataStore := ds' }.storeElement
        ((r.datarStart + i) % DATASIZE) element pktImg).grow))

/-- A store into the place behind all entries. -/
theorem storeMove_behind (h : r.Ok) (hall : ∀ e ∈ r.entries, e.1 < element.packetTime)
    (pktImg : Bfr) : StoreMove element pktImg r
      (.ok (0, (r.storeElement r.datarEnd element pktImg).grow)) := by
  have hcnt := h.inv.cnt_le
  have hover := overflow_eq r
  have hpos := DATASIZE_pos
  rw [h.inv.end_eq]
  refine .placed r.datarCnt r.dataStore (.inl rfl) (Opened.refl _ _ _) ?_ le_rfl ?_ ?_
  · rw [hover]
    split_ifs <;> omega
  · exact fun e he => hall e (List.mem_of_mem_take he)
  · rw [← length_entries r, List.drop_length]
    simp

theorem storeMove_between (h : r.Ok) {i : ℕ} (hi : i < r.datarCnt)
    (hlt : r.datarCnt - i < DATASIZE) (hover : r.overflow ≤ i)
    (hpre : ∀ e ∈ r.entries.take i, e.1 < element.packetTime)
    (hpost : ∀ e ∈ r.entries.drop i, element.packetTime < e.1) (pktImg : Bfr) :
    StoreMove element pktImg r (.ok (0, ((r.datarRotateRight ((r.datarStart + i) % DATASIZE)
      r.datarEnd).storeElement ((r.datarStart + i) % DATASIZE) element pktImg).grow)) := by
  refine .placed i _ (.inr ⟨_, Nat.mod_lt _ DATASIZE_pos, rfl⟩) ?_ hover hi.le hpre hpost
  rw [h.inv.end_eq]
  exact datarRotateRight_opened hi hlt r

/-- **What a `RING_STORE` does.** -/
theorem store_move (h : r.Ok) (element : PacketInfo) (pktImg : Bfr) :
    StoreMove element pktImg r (r.store element pktImg) := by
  have hlen := length_entries r
  have hcnt := h.inv.cnt_le
  have hover := overflow_eq r
  have hpos := DATASIZE_pos
  unfold store
  simp only [isEmpty, decide_eq_true_eq, isFull]
  by_cases hempty : r.datarCnt = 0
  · -- the first packet goes where the next one would
    have hnil : r.entries = [] := List.length_eq_zero_iff.1 (hlen.trans hempty)
    have hnf : r.datarCnt ≠ DATASIZE := by omega
    have hmove : StoreMove element pktImg r
        (.ok (0, (r.storeElement r.datarEnd element pktImg).grow)) :=
      storeMove_behind h (fun e he => by simp [hnil] at he) pktImg
    rw [grow_eq_of_not_full (by exact hnf)] at hmove
    rwa [if_pos hempty]
  · rw [if_neg hempty]
    have hfound := searchDataBfr_found h.inv h.increasing element.packetTime
    generalize r.searchDataBfr element.packetTime = found at hfound
    cases hfound with
    | empty hzero => exact absurd hzero hempty
    | older _ hall =>
      -- all packets move up by one place, unless the ring is full
      rw [if_pos rfl]
      split_ifs with hfull
      · exact .refused hfull hall
      · have hmove := storeMove_between h (Nat.pos_of_ne_zero hempty) (by omega)
          (by rw [hover, if_neg hfull]) (by simp) (by rwa [List.drop_zero]) pktImg
        rw [h.inv.start_eq, grow_eq_of_not_full (by exact hfull)] at hmove
        exact hmove
    | newer index _ hall => exact storeMove_behind h hall pktImg
    | exact i hi htime => exact .replaced i hi htime
    | between i h0 hi hpre hpost =>
      -- those from offset `i` on move up by one place
      exact storeMove_between h hi (by omega) (by rw [hover]; split_ifs <;> omega) hpre hpost pktImg

theorem offered_insert (h : r.Ok) {ds' : ℕ → ℕ} {i : ℕ}
    (hopen : Opened r.dataStore ds' r.datarStart i r.datarCnt) (hoi : r.overflow ≤ i)
    (hic : i ≤ r.datarCnt) (hpre : ∀ e ∈ r.entries.take i, e.1 < element.packetTime)
    (hpost : ∀ e ∈ r.entries.drop i, element.packetTime < e.1) (pktImg : Bfr) :
    Offered element pktImg r (.ok (0, ({ r with dataStore := ds' }.storeElement
      ((r.datarStart + i) % DATASIZE) element pktImg).grow)) := by
  have hlen := length_entries r
  have hcnt := h.inv.cnt_le
  have hsplit : r.entries.take i ++ r.entries.drop i = r.entries := List.take_append_drop i _
  have hinc : FinMap.Increasing (r.entries.take i ++ entry element pktImg :: r.entries.drop i) :=
    FinMap.Increasing.insert (hsplit.symm ▸ h.increasing) hpre hpost _
  have hoffer : (FinMap.ofList (r.entries.take i ++ r.entries.drop i)).offer DATASIZE
      element.packetTime (value element pktImg) = (true, FinMap.ofList
        ((r.entries.take i).drop r.overflow ++ entry element pktImg :: r.entries.drop i)) :=
    FinMap.offer_ofList_place hinc (by rw [hsplit, hlen, overflow_eq])
      (by rw [List.length_take]; omega) (by rw [hsplit]; omega)
  rw [hsplit, ← entries_insert h.inv hopen hoi hic element pktImg] at hoffer
  refine ⟨true, _, rfl, ⟨inv_insert h.inv hopen _ element pktImg, ?_⟩, slotSize_grow _, hoffer⟩
  rw [entries_insert h.inv hopen hoi hic]
  exact hinc.sublist ((List.drop_sublist _ _).append_right _)

theorem offered_reject (h : r.Ok) (hfull : r.datarCnt = DATASIZE)
    (hall : ∀ e ∈ r.entries, element.packetTime < e.1) (pktImg : Bfr) :
    Offered element pktImg r (.ok (1, r)) := by
  have hlen := length_entries r
  have hpos := DATASIZE_pos
  obtain ⟨e, l, hl⟩ := List.exists_cons_of_length_pos (show 0 < r.entries.length by omega)
  have hinc : FinMap.Increasing (entry element pktImg :: e :: l) :=
    List.pairwise_cons.2 ⟨hl ▸ hall, hl ▸ h.increasing⟩
  refine ⟨false, r, rfl, h, rfl, ?_⟩
  rw [map, hl]
  exact FinMap.offer_ofList_reject hinc (by rw [← hl]; omega)

theorem offered_replace (h : r.Ok) {i : ℕ} (hi : i < r.entries.length)
    (htime : r.entries[i].1 = element.packetTime) (pktImg : Bfr) :
    Offered element pktImg r
      (.ok (0, r.storeElement ((r.datarStart + i) % DATASIZE) element pktImg)) := by
  have hlen := length_entries r
  obtain ⟨w, hw⟩ : ∃ w, r.entries[i] = (element.packetTime, w) :=
    ⟨(r.entries[i]).2, by rw [← htime]⟩
  have hsplit : r.entries.take i ++ (element.packetTime, w) :: r.entries.drop (i + 1) =
      r.entries := by
    rw [← hw, ← List.drop_eq_getElem_cons, List.take_append_drop]
  have hset : (r.storeElement ((r.datarStart + i) % DATASIZE) element pktImg).entries =
      r.entries.take i ++ entry element pktImg :: r.entries.drop (i + 1) := by
    rw [entries_storeElement h.inv (by omega), List.set_eq_take_append_cons_drop,
      if_pos (by omega)]
  have hinc : FinMap.Increasing
      (r.entries.take i ++ (element.packetTime, w) :: r.entries.drop (i + 1)) :=
    hsplit.symm ▸ h.increasing
  have hoffer : (FinMap.ofList (r.entries.take i ++ (element.packetTime, w) ::
      r.entries.drop (i + 1))).offer DATASIZE element.packetTime (value element pktImg) =
        (true, FinMap.ofList
          (r.entries.take i ++ entry element pktImg :: r.entries.drop (i + 1))) :=
    FinMap.offer_ofList_replace hinc
  rw [hsplit, ← hset] at hoffer
  exact ⟨true, _, rfl, ⟨h.inv.storeElement _ _ _, hset ▸ hinc.replace _⟩, rfl, hoffer⟩

/-- **One `RING_STORE` is one `offer`.** -/
theorem store_spec (h : r.Ok) (element : PacketInfo) (pktImg : Bfr) :
    Offered element pktImg r (r.store element pktImg) := by
  have hmove := store_move h element pktImg
  generalize r.store element pktImg = result at hmove ⊢
  cases hmove with
  | refused hfull hall => exact offered_reject h hfull hall pktImg
  | replaced i hi htime => exact offered_replace h hi htime pktImg
  | placed i ds' _ hopen hoi hic hpre hpost =>
    exact offered_insert h hopen hoi hic hpre hpost pktImg

theorem find?_entries {target : PacketTime} {i : ℕ} (hi : i < r.entries.length)
    (hpre : ∀ e ∈ r.entries.take i, e.1 < target) (hle : target ≤ r.entries[i].1) :
    (r.entries.find? fun e => target ≤ e.1) = some r.entries[i] := by
  have hsplit : r.entries = r.entries.take i ++ r.entries[i] :: r.entries.drop (i + 1) := by
    rw [← List.drop_eq_getElem_cons, List.take_append_drop]
  rw [List.find?_eq_some_iff_append]
  refine ⟨by simpa using hle, r.entries.take i, r.entries.drop (i + 1), hsplit, ?_⟩
  intro e he
  simpa using hpre e he

/-- What `RING_RETR` reports for the entry found. -/
def retrieved : Option Entry → ℤ × Option (PacketInfo × List UInt8)
  | some e => (0, some e.2)
  | none => (1, none)

/-- **One `RING_RETR` is one `next`**, a millisecond after the time asked for. -/
theorem retr_spec (h : r.Ok) (targetTime : PacketTime) :
    r.retr targetTime = retrieved (r.map.next (targetTime + 1 / 1000)) := by
  have hlen := length_entries r
  unfold retr
  rw [map, FinMap.next_ofList h.increasing]
  have hfound := searchDataBfr_found h.inv h.increasing (targetTime + 1 / 1000)
  generalize targetTime + 1 / 1000 = target at hfound ⊢
  -- the three results that name an index name the first entry that reaches the target
  have hat : ∀ i (hi : i < r.entries.length), (∀ e ∈ r.entries.take i, e.1 < target) →
      target ≤ r.entries[i].1 → (0, some (r.retrElement ((r.datarStart + i) % DATASIZE))) =
        retrieved (r.entries.find? fun e => target ≤ e.1) := by
    intro i hi hpre hle
    rw [find?_entries hi hpre hle, getElem_entries]
    rfl
  generalize r.searchDataBfr target = found at hfound
  cases hfound with
  | empty hzero =>
    rw [List.length_eq_zero_iff.1 (hlen.trans hzero)]
    rfl
  | newer index hne hall =>
    have hnone : (r.entries.find? fun e => target ≤ e.1) = none :=
      List.find?_eq_none.2 fun e he => by simpa using hall e he
    rw [hnone]
    rfl
  | older hne hall =>
    have := hat 0 (by omega) (by simp) (hall _ (List.getElem_mem _)).le
    rw [h.inv.start_eq] at this
    exact this
  | exact i hi htime =>
    refine hat i hi ?_ htime.ge
    intro e he
    obtain ⟨j, hj, rfl⟩ := List.mem_iff_getElem.1 he
    rw [List.length_take] at hj
    rw [List.getElem_take, ← htime]
    exact List.pairwise_iff_getElem.1 h.increasing j i (by omega) hi (by omega)
  | between i h0 hi hpre hpost =>
    exact hat i (by omega) hpre (hpost _ (List.mem_drop_iff_getElem.2 ⟨0, by omega, rfl⟩)).le

/-- What `RING_RETR` hands back is the first entry from a millisecond after the time on. -/
theorem retr_snd (h : r.Ok) (targetTime : PacketTime) : (r.retr targetTime).2 =
    (r.entries.find? fun e => targetTime + 1 / 1000 ≤ e.1).map Prod.snd := by
  rw [retr_spec h, map, FinMap.next_ofList h.increasing]
  cases r.entries.find? fun e => targetTime + 1 / 1000 ≤ e.1 <;> rfl

/-! ### What the ring holds -/

theorem ok_dealloc (h : r.Ok) : r.dealloc.Ok :=
  ⟨⟨DATASIZE_pos, Nat.zero_le _, rfl, h.inv.inj⟩, List.Pairwise.nil⟩

@[simp] theorem entries_dealloc (r : DataRing) : r.dealloc.entries = [] := rfl

theorem mem_entries_store (h : r.Ok) {ret : ℤ} {r' : DataRing}
    (hstore : r.store element pktImg = .ok (ret, r')) : r'.Ok ∧
      ∀ e ∈ r'.entries, ret = 0 ∧ e = entry element pktImg ∨ e ∈ r.entries := by
  obtain ⟨taken, r'', hresult, hok, -, hoffer⟩ := store_spec h element pktImg
  rw [hstore] at hresult
  obtain ⟨rfl, rfl⟩ := Prod.mk.inj (Except.ok.inj hresult)
  refine ⟨hok, ?_⟩
  intro e he
  have hget : r'.map.get e.1 = some e.2 := (FinMap.get_ofList hok.increasing).2 he
  rcases FinMap.get_offer hoffer hget with ⟨rfl, hk, hv⟩ | hold
  · exact .inl ⟨rfl, Prod.ext hk hv⟩
  · exact .inr ((FinMap.get_ofList h.increasing).1 hold)

theorem find?_of_retr (h : r.Ok) {targetTime : PacketTime} {element : PacketInfo}
    {pkt : List UInt8} (hretr : (r.retr targetTime).2 = some (element, pkt)) :
    (r.entries.find? fun e => targetTime + 1 / 1000 ≤ e.1) =
      some (element.packetTime, element, pkt) := by
  rw [retr_snd h] at hretr
  cases hfind : r.entries.find? fun e => targetTime + 1 / 1000 ≤ e.1 with
  | none =>
    rw [hfind] at hretr
    cases hretr
  | some e =>
    rw [hfind] at hretr
    have hmem := List.mem_of_find?_eq_some hfind
    have hval : e.2 = (element, pkt) := Option.some.inj hretr
    have hkey : e.1 = e.2.1.packetTime := by
      obtain ⟨a, -, rfl⟩ := List.mem_map.1 hmem
      rfl
    exact congrArg some (Prod.ext (by rw [hkey, hval]) hval)

theorem mem_entries_retr (h : r.Ok) {targetTime : PacketTime} {element : PacketInfo}
    {pkt : List UInt8} (hretr : (r.retr targetTime).2 = some (element, pkt)) :
    (element.packetTime, element, pkt) ∈ r.entries :=
  List.mem_of_find?_eq_some (find?_of_retr h hretr)

end DataRing

/-! ### Runs -/

/-- A call of `data_ring_ops`. -/
inductive Call where
  /-- `RING_STORE` of the packet `pktImg` with its info. -/
  | store (element : PacketInfo) (pktImg : Bfr)
  /-- `RING_RETR` of the next packet after a time. -/
  | retr (targetTime : PacketTime)

/-- The result code of a call and what it handed back. -/
abbrev Reply := ℤ × Option (PacketInfo × List UInt8)

/-- One call on the ring. -/
def dataRingOps : Call → DataRing → Except String (Reply × DataRing)
  | .store element pktImg, r => (r.store element pktImg).map fun (ret, r') => ((ret, none), r')
  | .retr targetTime, r => .ok (r.retr targetTime, r)

/-- A sequence of calls on the ring, with the replies. -/
def runCalls : List Call → DataRing → Except String (List Reply × DataRing)
  | [], r => .ok ([], r)
  | call :: calls, r => do
    let (reply, r) ← dataRingOps call r
    let (replies, r) ← runCalls calls r
    return (reply :: replies, r)

/-- One call on a bounded sorted map of packets. -/
def mapOps : Call → FinMap PacketTime (PacketInfo × List UInt8) →
    Reply × FinMap PacketTime (PacketInfo × List UInt8)
  | .store element pktImg, m =>
    let (taken, m') := m.offer DATASIZE element.packetTime (DataRing.value element pktImg)
    ((if taken then 0 else 1, none), m')
  | .retr targetTime, m => (DataRing.retrieved (m.next (targetTime + 1 / 1000)), m)

/-- A sequence of calls on the map, with the replies. -/
def runMap : List Call → FinMap PacketTime (PacketInfo × List UInt8) →
    List Reply × FinMap PacketTime (PacketInfo × List UInt8)
  | [], m => ([], m)
  | call :: calls, m =>
    let (reply, m) := mapOps call m
    let (replies, m) := runMap calls m
    (reply :: replies, m)

/-- One call keeps the ring in order and is answered as on the map. -/
theorem dataRingOps_spec {r : DataRing} (h : r.Ok) (call : Call) :
    ∃ r' : DataRing, dataRingOps call r = .ok ((mapOps call r.map).1, r') ∧ r'.Ok ∧
      (mapOps call r.map).2 = r'.map := by
  cases call with
  | store element pktImg =>
    obtain ⟨taken, r', hstore, hok, -, hoffer⟩ := DataRing.store_spec h element pktImg
    exact ⟨r', by simp [dataRingOps, hstore, mapOps, hoffer, Except.map], hok,
      by simp [mapOps, hoffer]⟩
  | retr targetTime => exact ⟨r, by simp [dataRingOps, mapOps, DataRing.retr_spec h], h, rfl⟩

theorem runCalls_spec (calls : List Call) {r : DataRing} (h : r.Ok) :
    ∃ r' : DataRing, runCalls calls r = .ok ((runMap calls r.map).1, r') ∧ r'.Ok ∧
      (runMap calls r.map).2 = r'.map := by
  induction calls generalizing r with
  | nil => exact ⟨r, rfl, h, rfl⟩
  | cons call calls ih =>
    obtain ⟨r₁, hcall, hok₁, hmap₁⟩ := dataRingOps_spec h call
    obtain ⟨r₂, hrun, hok₂, hmap₂⟩ := ih hok₁
    refine ⟨r₂, ?_, hok₂, ?_⟩
    · rw [runCalls, hcall]
      change (do let (replies, r) ← runCalls calls r₁; return _) = _
      rw [hrun, ← hmap₁]
      rfl
    · rw [← hmap₂, ← hmap₁]
      rfl

/-- **The packet cache refines a bounded sorted map.**  Every sequence of `RING_STORE` and
`RING_RETR` calls after a `RING_ALLOC` ends, is answered as the map answers it, and leaves a ring
whose entries are strictly increasing in time and are those of the map. -/
theorem cache_refines (size : ℕ) (mem : ℕ → Datastore) (calls : List Call) :
    ∃ r' : DataRing, runCalls calls (DataRing.alloc size mem) =
        .ok ((runMap calls FinMap.empty).1, r') ∧
      FinMap.Increasing r'.entries ∧ FinMap.ofList r'.entries = (runMap calls FinMap.empty).2 := by
  obtain ⟨r', hrun, hok, hmap⟩ := runCalls_spec calls (DataRing.ok_alloc size mem)
  rw [DataRing.map, DataRing.entries_alloc, FinMap.ofList_nil] at hrun hmap
  exact ⟨r', hrun, hok.increasing, hmap.symm⟩

end SdrProxy
