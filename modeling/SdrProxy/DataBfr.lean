import SdrProxy.Basic
import SdrProxy.Lib.BinarySearch

/-!
# The data ring

`databfr.c`: the packet cache, a circular array of pointers to packet slots that is kept in the
order of packet times.

* `DataRing` holds the globals of the file.  `data_store_g` maps an index to the address of a slot
  and the slots live in `heap`, so that moving a pointer and writing a slot stay different things.
  `slotSize` is what `sdr_pkt_size` was when the slots were allocated; no operation of the source
  compares with it.
* An `Except` result is the end of the program by `fail`, with its text.
-/

namespace SdrProxy

/-- `struct datastore`. -/
structure Datastore where
  /-- What is known about the packet. -/
  packetInfo : PacketInfo
  /-- The bytes of the packet. -/
  sdrPacket : Bfr

/-- The global variables of `databfr.c`. -/
structure DataRing where
  /-- The pointer array `data_store_g`: the address of the slot at an index. -/
  dataStore : ℕ → ℕ
  /-- The slot at an address. -/
  heap : ℕ → Datastore
  /-- Bytes of a slot, `none` when the slots were freed. -/
  slotSize : Option ℕ
  /-- Index of the first packet. -/
  datarStart : ℕ
  /-- Index of the place of the next packet. -/
  datarEnd : ℕ
  /-- How many packets are stored. -/
  datarCnt : ℕ

/-- `datar_normalize`. -/
def datarNormalize (offset : ℤ) : ℕ := ((offset + DATASIZE) % DATASIZE).toNat

namespace DataRing

/-- `DATAR_ISEMPTY`. -/
def isEmpty (r : DataRing) : Bool := r.datarCnt = 0

/-- `DATAR_ISFULL`. -/
def isFull (r : DataRing) : Bool := r.datarCnt = DATASIZE

/-- The slot at an index of the pointer array. -/
def slot (index : ℕ) (r : DataRing) : Datastore := r.heap (r.dataStore index)

/-- `compare_index`: where the target time lies relative to the packet at `index`. -/
def compareIndex (target : PacketTime) (index : ℕ) (r : DataRing) : ℤ :=
  let elementtime := (r.slot index).packetInfo.packetTime
  if elementtime < target then 1
  else if target < elementtime then -1
  else 0

/-- `search_data_bfr`: the result code and the index. -/
def searchDataBfr (target : PacketTime) (r : DataRing) : ℤ × ℤ :=
  if r.datarCnt = 0 then (-2, -1)
  else if 0 < r.compareIndex target (datarNormalize (r.datarEnd - 1)) then
    (-1, datarNormalize (r.datarEnd - 1))
  else if r.compareIndex target r.datarStart < 0 then (1, r.datarStart)
  else
    let min := upperBound
      (fun mid => r.compareIndex target (datarNormalize (r.datarStart + mid)) < 0)
      r.datarCnt 0 (r.datarCnt - 1)
    let index := datarNormalize (r.datarStart + min)
    if r.compareIndex target index = 0 then (0, index)
    else (2, datarNormalize (index + 1))

/-- `store_element`: the packet `sdrPkt` with its info into the slot at `index`.  The copy is not
bounded by the size of the slot, and is the source's for packets that fit. -/
def storeElement (index : ℕ) (element : PacketInfo) (sdrPkt : Bfr) (r : DataRing) : DataRing :=
  { r with
    heap := Function.update r.heap (r.dataStore index)
      { packetInfo := element
        sdrPacket := (r.slot index).sdrPacket.load 0 (sdrPkt.read 0 element.packetLen) } }

/-- `retr_element`: the packet at `index` with its info. -/
def retrElement (index : ℕ) (r : DataRing) : PacketInfo × List UInt8 :=
  ((r.slot index).packetInfo,
    (r.slot index).sdrPacket.read 0 (r.slot index).packetInfo.packetLen)

/-- The loop of `datar_rotate_right`: the pointers from `dest` down to the one behind `start` move
up by one place. -/
def rotateLoop (start : ℕ) : ℕ → ℕ → (ℕ → ℕ) → ℕ → ℕ
  | 0, _, ds => ds
  | fuel + 1, dest, ds =>
    if dest = start then ds
    else rotateLoop start fuel (datarNormalize (dest - 1))
      (Function.update ds (datarNormalize (dest + 1)) (ds dest))

/-- `datar_rotate_right`. -/
def datarRotateRight (start end_ : ℕ) (r : DataRing) : DataRing :=
  let tempPtr := r.dataStore end_
  let ds := rotateLoop start DATASIZE (datarNormalize (end_ - 1)) r.dataStore
  let ds := Function.update ds (datarNormalize (start + 1)) (ds start)
  { r with dataStore := Function.update ds start tempPtr }

/-- `RING_ALLOC` with slots of `size` bytes, in memory that holds `mem`. -/
def alloc (size : ℕ) (mem : ℕ → Datastore) : DataRing where
  dataStore := id
  heap := mem
  slotSize := some size
  datarStart := 0
  datarEnd := 0
  datarCnt := 0

/-- `RING_DEALLOC`. -/
def dealloc (r : DataRing) : DataRing :=
  { r with slotSize := none, datarStart := 0, datarEnd := 0, datarCnt := 0 }

/-- The end of the branches that add a packet behind the others: `datar_end` moves on, and so
does `datar_start` if the ring was full, else the count. -/
def grow (r : DataRing) : DataRing :=
  if r.isFull then
    { r with
      datarEnd := datarNormalize (r.datarEnd + 1)
      datarStart := datarNormalize (r.datarStart + 1) }
  else
    { r with
      datarEnd := datarNormalize (r.datarEnd + 1)
      datarCnt := r.datarCnt + 1 }

/-- `RING_STORE`: 0 if the packet was stored, 1 if it was too old for a full ring. -/
def store (element : PacketInfo) (pktImg : Bfr) (r : DataRing) : Except String (ℤ × DataRing) :=
  if r.isEmpty then
    let r' := r.storeElement r.datarEnd element pktImg
    .ok (0, { r' with
      datarEnd := datarNormalize (r.datarEnd + 1)
      datarCnt := r.datarCnt + 1 })
  else
    let (result, location) := r.searchDataBfr element.packetTime
    if result = 1 then
      if r.isFull then .ok (1, r)
      else
        let r' := (r.datarRotateRight r.datarStart r.datarEnd).storeElement r.datarStart element
          pktImg
        .ok (0, { r' with
          datarEnd := datarNormalize (r.datarEnd + 1)
          datarCnt := r.datarCnt + 1 })
    else if result = -1 then .ok (0, (r.storeElement r.datarEnd element pktImg).grow)
    else if result = 2 then
      .ok (0, ((r.datarRotateRight location.toNat r.datarEnd).storeElement location.toNat element
        pktImg).grow)
    else if result = 0 then .ok (0, r.storeElement location.toNat element pktImg)
    else .error "data_ring_ops: OOps...  Logic error in RING_STORE"

/-- `RING_RETR`: 0 with the next packet after `targetTime`, 1 if there is none.  Times are exact
milliseconds; the source adds 0.001 to a `double`. -/
def retr (targetTime : PacketTime) (r : DataRing) : ℤ × Option (PacketInfo × List UInt8) :=
  let (result, location) := r.searchDataBfr (targetTime + 1 / 1000)
  if 0 ≤ result then (0, some (r.retrElement location.toNat)) else (1, none)

/-- What `RING_RETR` hands back has the length that its info says. -/
theorem length_of_retr {r : DataRing} {time : PacketTime} {element : PacketInfo}
    {pkt : List UInt8} (h : (r.retr time).2 = some (element, pkt)) :
    pkt.length = element.packetLen := by
  unfold retr at h
  dsimp only at h
  split_ifs at h
  · have hval := Option.some.inj h
    rw [retrElement, Prod.mk.injEq] at hval
    obtain ⟨rfl, rfl⟩ := hval
    exact Bfr.length_read _ _ _

end DataRing

end SdrProxy
