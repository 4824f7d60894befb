import SdrProxy.Cache

/-!
# Packets that arrive out of order

What is left in the cache after packets were stored in some order: a store is an `offer` to the map
that the ring stands for, and the order of offers does not matter.

* `storeAll` : `RING_STORE` of one packet after the other;
* `DataRing.storeAll_spec` : it is `FinMap.offerAll`;
* `stored_of_arrival` : whatever the order, the newest `DATASIZE` packets are left.
-/

namespace SdrProxy

/-- `RING_STORE` of the packets of a list, one after the other. -/
def storeAll (packets : List (PacketInfo × Bfr)) (r : DataRing) : Except String DataRing :=
  packets.foldlM (fun r packet => (r.store packet.1 packet.2).map Prod.snd) r

/-- The entries that the packets of a list make. -/
def entriesOf (packets : List (PacketInfo × Bfr)) : List DataRing.Entry :=
  packets.map fun packet => DataRing.entry packet.1 packet.2

namespace DataRing

/-- Storing a list of packets is offering their entries. -/
theorem storeAll_spec (packets : List (PacketInfo × Bfr)) {r : DataRing} (h : r.Ok) :
    ∃ r' : DataRing, storeAll packets r = .ok r' ∧ r'.Ok ∧
      r'.map = FinMap.offerAll DATASIZE (entriesOf packets) r.map := by
  induction packets generalizing r with
  | nil => exact ⟨r, rfl, h, rfl⟩
  | cons packet packets ih =>
    obtain ⟨taken, r₁, hstore, hok₁, -, hoffer⟩ := store_spec h packet.1 packet.2
    obtain ⟨r₂, hrest, hok₂, hmap₂⟩ := ih hok₁
    refine ⟨r₂, ?_, hok₂, ?_⟩
    · rw [storeAll, List.foldlM_cons, hstore]
      exact hrest
    · rw [hmap₂, ← show (r.map.offer DATASIZE packet.1.packetTime
        (value packet.1 packet.2)).2 = r₁.map by rw [hoffer]]
      rfl

end DataRing

/-- After the packets of a list were stored into a fresh ring, its entries are the last ones in the
order of times. -/
theorem entries_storeAll {packets : List (PacketInfo × Bfr)}
    (h : (packets.map fun packet => packet.1.packetTime).Nodup) (size : ℕ)
    (mem : ℕ → Datastore) :
    ∃ s, s.Perm (entriesOf packets) ∧ FinMap.Increasing s ∧ ∃ r : DataRing,
      storeAll packets (DataRing.alloc size mem) = .ok r ∧ r.Ok ∧
      r.entries = s.drop (s.length - DATASIZE) := by
  obtain ⟨r, hstore, hok, hmap⟩ := DataRing.storeAll_spec packets (DataRing.ok_alloc size mem)
  rw [DataRing.map, DataRing.map, DataRing.entries_alloc, FinMap.ofList_nil] at hmap
  have hkeys : ((entriesOf packets).map Prod.fst).Nodup := by
    rw [entriesOf, List.map_map]
    exact h
  obtain ⟨s, hperm, hinc, heq⟩ := FinMap.offerAll_eq DATASIZE_pos hkeys
  refine ⟨s, hperm, hinc, r, hstore, hok, ?_⟩
  exact hok.increasing.eq_of_ofList_eq (hinc.sublist (List.drop_sublist _ s)) (hmap.trans heq)

/-- **The cache does not depend on the order of arrival.**  If no time repeats, the packets stored
into a fresh ring in any order leave the same entries in the same order: of all the entries, in the
order of times, the last `DATASIZE`. -/
theorem stored_of_arrival {packets packets' : List (PacketInfo × Bfr)}
    (h : (packets.map fun packet => packet.1.packetTime).Nodup) (hperm : packets'.Perm packets)
    (size size' : ℕ) (mem mem' : ℕ → Datastore) :
    ∃ s, s.Perm (entriesOf packets) ∧ FinMap.Increasing s ∧ ∃ r r' : DataRing,
      storeAll packets (DataRing.alloc size mem) = .ok r ∧
      storeAll packets' (DataRing.alloc size' mem') = .ok r' ∧
      r.entries = s.drop (s.length - DATASIZE) ∧ r'.entries = r.entries ∧
      r.entries.length = min packets.length DATASIZE := by
  have h' : (packets'.map fun packet => packet.1.packetTime).Nodup :=
    (hperm.map _).nodup_iff.2 h
  obtain ⟨s, hs, hinc, r, hstore, -, hentries⟩ := entries_storeAll h size mem
  obtain ⟨s', hs', hinc', r', hstore', -, hentries'⟩ := entries_storeAll h' size' mem'
  have hsame : s' = s := by
    refine hinc'.eq_of_perm hinc (hs'.trans ?_)
    exact (hperm.map _).trans hs.symm
  have hlen : s.length = packets.length := by
    rw [hs.length_eq, entriesOf, List.length_map]
  refine ⟨s, hs, hinc, r, r', hstore, hstore', hentries, ?_, ?_⟩
  · rw [hentries', hentries, hsame]
  · rw [hentries, List.length_drop, hlen]
    omega

/-- A packet of no bytes of the second `sec`. -/
def packetAt (sec : ℕ) : PacketInfo × Bfr :=
  ({ packetLen := 0, packetTime := sec, packetId := 1, valid := true }, fun _ => 0)

/-- Two packets, the newer one last or first. -/
theorem stored_of_arrival_two : ∃ s, s.Perm (entriesOf [packetAt 1, packetAt 2]) ∧
    FinMap.Increasing s ∧ ∃ r r' : DataRing,
      storeAll [packetAt 1, packetAt 2] (.alloc 0 fun _ => ⟨(packetAt 0).1, fun _ => 0⟩) = .ok r ∧
      storeAll [packetAt 2, packetAt 1] (.alloc 8 fun _ => ⟨(packetAt 0).1, fun _ => 1⟩) = .ok r' ∧
      r.entries = s.drop (s.length - DATASIZE) ∧ r'.entries = r.entries ∧
      r.entries.length = min 2 DATASIZE :=
  stored_of_arrival (by decide) (List.Perm.swap _ _ []) _ _ _ _

end SdrProxy
