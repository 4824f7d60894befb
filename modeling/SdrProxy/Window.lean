import SdrProxy.Arrival

/-!
# The window of the cache

What the cache holds after any packets were stored, with times that may repeat.

* `lastOf` : the packet that was last stored for a time;
* `DataRing.refuses_iff` : when a `RING_STORE` is refused;
* `window_of_stores` : the cache holds the last packet for each of the newest `DATASIZE` times, and
  refuses exactly what is older than all of them.
-/

namespace SdrProxy

/-- The entry that was last stored for a time. -/
def lastOf (packets : List (PacketInfo × Bfr)) (time : PacketTime) : Option DataRing.Entry :=
  (entriesOf packets).reverse.find? fun e => e.1 = time

namespace DataRing

variable {r : DataRing} {element : PacketInfo} {pktImg : Bfr}

/-- **When a `RING_STORE` is refused**: the ring is full and the packet older than all others. -/
theorem refuses_iff (h : r.Ok) (element : PacketInfo) (pktImg : Bfr) :
    (∃ r', r.store element pktImg = .ok (1, r')) ↔
      r.datarCnt = DATASIZE ∧ ∀ e ∈ r.entries, element.packetTime < e.1 := by
  have hmove := store_move h element pktImg
  generalize r.store element pktImg = result at hmove
  cases hmove with
  | refused hfull hall => exact ⟨fun _ => ⟨hfull, hall⟩, fun _ => ⟨r, rfl⟩⟩
  | replaced i hi htime =>
    constructor
    · rintro ⟨r', h'⟩
      cases h'
    · rintro ⟨-, hall⟩
      exact absurd (hall _ (List.getElem_mem hi)) (by rw [htime]; exact lt_irrefl _)
  | placed i ds' _ _ hoi hic hpre _ =>
    constructor
    · rintro ⟨r', h'⟩
      cases h'
    · rintro ⟨hfull, hall⟩
      -- a full ring has an entry in front of the place
      have hlen := length_entries r
      have hpos := DATASIZE_pos
      rw [overflow_eq, if_pos hfull] at hoi
      obtain ⟨e, l, hl⟩ := List.exists_cons_of_length_pos (show 0 < r.entries.length by omega)
      have hmem : e ∈ r.entries.take i := by
        rw [hl, List.mem_take_iff_getElem]
        exact ⟨0, by rw [List.length_cons]; omega, rfl⟩
      exact absurd (hpre e hmem) (lt_asymm (hall e (List.mem_of_mem_take hmem)))

end DataRing

/-- **The cache is a window of the newest packets.**  After any packets were stored into a fresh
ring, in any order and with times that may repeat, the entries are the last ones in the order of
times among the packets that were last stored for their time, at most `DATASIZE` of them.  A further
packet is refused exactly if as many times that are newer than its own have been stored. -/
theorem window_of_stores (packets : List (PacketInfo × Bfr)) (size : ℕ) (mem : ℕ → Datastore) :
    ∃ s, FinMap.Increasing s ∧ (∀ e, e ∈ s ↔ lastOf packets e.1 = some e) ∧ ∃ r : DataRing,
      storeAll packets (DataRing.alloc size mem) = .ok r ∧
      r.entries = s.drop (s.length - DATASIZE) ∧
      ∀ element pktImg, (∃ r', r.store element pktImg = .ok (1, r')) ↔
        DATASIZE ≤ (s.filter fun e => element.packetTime < e.1).length := by
  obtain ⟨r, hstore, hok, hmap⟩ := DataRing.storeAll_spec packets (DataRing.ok_alloc size mem)
  rw [DataRing.map, DataRing.map, DataRing.entries_alloc, FinMap.ofList_nil] at hmap
  obtain ⟨s, hinc, hput, hoffer⟩ := FinMap.offerAll_putAll DATASIZE_pos (entriesOf packets)
  have hentries : r.entries = s.drop (s.length - DATASIZE) :=
    hok.increasing.eq_of_ofList_eq (hinc.sublist (List.drop_sublist _ s)) (hmap.trans hoffer)
  refine ⟨s, hinc, ?_, r, hstore, hentries, ?_⟩
  · rintro ⟨time, value⟩
    rw [← FinMap.get_ofList hinc, hput, FinMap.get_putAll]
    rfl
  · intro element pktImg
    have hlen := DataRing.length_entries r
    have hcount := congrArg List.length hentries
    rw [List.length_drop] at hcount
    rw [DataRing.refuses_iff hok, hinc.le_length_filter, ← hentries]
    refine and_congr_left fun _ => ?_
    omega

end SdrProxy
