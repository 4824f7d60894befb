import SdrProxy.Items
import SdrProxy.Lib.Checksum

/-!
# Which packets are cached

What `get_adc_data` does with a packet that has wholly arrived, and what its check byte is worth.

* `GoodPacket` : what every packet handed to `RING_STORE` is; `goodPacket_of_stored` says so for
  every turn of `check_data`;
* `crcOk_iff` : the test of the source is that all bytes from the length field on, the check byte
  among them, cancel;
* `GoodPacket.not_set` : no two good packets differ in one byte;
* `getAdcData_exact` : exactly the packets with a right check byte are cached.
-/

namespace SdrProxy

/-- A whole packet of A/D data with a right check byte. -/
structure GoodPacket (pkt : List UInt8) : Prop where
  length_eq : pkt.length = PREHDRLEN + datalen pkt
  low_ne : pkt.getD 4 0 ≠ 0
  crc : CrcOk pkt
  type : pkt.getD 6 0 = ADC_AD_DATA

variable {pkt s : List UInt8} {t : Turn} {inhibitAdc : Bool}

theorem GoodPacket.length_lt (h : GoodPacket pkt) : PREHDRLEN < pkt.length := by
  have hmod := datalen_mod_ne h.low_ne
  rw [h.length_eq]
  omega

/-- The first bytes of a packet are those of the ring it starts. -/
theorem getD_take {n j : ℕ} (hj : j < n) : (s.take n).getD j 0 = s.getD j 0 := by
  rw [List.getD_eq_getElem?_getD, List.getD_eq_getElem?_getD, List.getElem?_take, if_pos hj]

theorem datalen_take {n : ℕ} (hn : PREHDRLEN ≤ n) : datalen (s.take n) = datalen s := by
  have hpre : PREHDRLEN = 8 := rfl
  rw [datalen, datalen, getD_take (by omega), getD_take (by omega)]

/-- What `get_adc_data` hands on is a good packet that has wholly arrived. -/
theorem adcTurn_item (h : adcTurn s = some t) (hitem : t.item = some (.adc pkt)) :
    PREHDRLEN + datalen s ≤ s.length ∧ s.take (PREHDRLEN + datalen s) = pkt ∧ GoodPacket pkt := by
  have hpre : PREHDRLEN = 8 := rfl
  unfold adcTurn at h
  dsimp only at h
  split_ifs at h with hhdr hlow hall hgood
  · obtain rfl := Option.some.inj h
    obtain rfl : s.take (PREHDRLEN + datalen s) = pkt := by simpa using hitem
    refine ⟨hall, rfl, ?_, ?_, hgood.1, hgood.2⟩
    · rw [datalen_take (by omega), List.length_take, Nat.min_eq_left hall]
    · rwa [getD_take (by omega)]
  all_goals
    obtain rfl := Option.some.inj h
    cases hitem

theorem turn_item (h : turn inhibitAdc s = some t) (hitem : t.item = some (.adc pkt)) :
    GoodPacket pkt := by
  rcases turn_cases inhibitAdc s with ⟨-, -, heq⟩ | ⟨c, -, -, heq⟩ | ⟨a, -, -, heq⟩
  · rw [heq] at h
    obtain rfl := Option.some.inj h
    cases hitem
  · rw [heq] at h
    obtain rfl := Option.some.inj h
    exact absurd hitem (chanTurn_item_ne _ _)
  · rw [heq] at h
    exact (adcTurn_item h hitem).2.2

/-- **Every packet that a turn of `check_data` hands to `RING_STORE` is a good one.** -/
theorem goodPacket_of_stored {junk : Bfr} {again : Bool} {p p' : RcvPath} {events : List RcvEvent}
    {element : PacketInfo} {ret : ℤ}
    (h : checkDataIter inhibitAdc junk p = .ok (again, p', events))
    (he : RcvEvent.stored element pkt ret ∈ events) : GoodPacket pkt := by
  obtain ⟨t, ht, -, hagrees⟩ := checkDataIter_ok h
  exact turn_item ht (hagrees.handed.stored he).1

/-! ### The check byte -/

/-- The exclusive or of all bytes. -/
def xorAll (l : List UInt8) : UInt8 := l.foldl (fun crc b => crc ^^^ b) 0

theorem undoable_xor : Undoable fun crc b : UInt8 => crc ^^^ b where
  value b _ _ h := (UInt8.xor_left_inj b).1 h
  symbol crc _ _ h := (UInt8.xor_right_inj crc).1 h

/-- The check of the source says that the bytes from the length field on cancel. -/
theorem crcOk_iff (h : PREHDRLEN < pkt.length) : CrcOk pkt ↔ xorAll (pkt.drop 4) = 0 := by
  have hpre : PREHDRLEN = 8 := rfl
  have hlast : pkt.drop 4 =
      (pkt.drop 4).take (pkt.length - 5) ++ [pkt.getD (pkt.length - 1) 0] := by
    have hdrop : (pkt.drop 4).drop (pkt.length - 5) = [pkt.getD (pkt.length - 1) 0] := by
      rw [List.drop_drop, show 4 + (pkt.length - 5) = pkt.length - 1 by omega,
        List.drop_eq_getElem_cons (by omega), List.getD_eq_getElem _ _ (by omega),
        List.drop_eq_nil_of_le (by omega)]
    rw [← hdrop, List.take_append_drop]
  rw [hlast, xorAll, List.foldl_append, List.foldl_cons, List.foldl_nil, UInt8.xor_eq_zero_iff,
    CrcOk]

/-- **One changed byte is noticed.**  A good packet with another byte in one place behind the length
field is not a good packet. -/
theorem GoodPacket.not_set (h : GoodPacket pkt) {k : ℕ} (hk : 6 ≤ k) (hlt : k < pkt.length)
    {b : UInt8} (hne : b ≠ pkt[k]) : ¬ GoodPacket (pkt.set k b) := by
  intro h'
  have hlt' : k - 4 < (pkt.drop 4).length := by
    rw [List.length_drop]
    omega
  have hget : (pkt.drop 4)[k - 4] = pkt[k] := by
    rw [List.getElem_drop]
    congr 1
    omega
  have hset : (pkt.set k b).drop 4 = (pkt.drop 4).set (k - 4) b := by
    rw [List.drop_set, if_neg (by omega)]
  have hcrc := (crcOk_iff h.length_lt).1 h.crc
  have hcrc' := (crcOk_iff h'.length_lt).1 h'.crc
  rw [hset] at hcrc'
  exact undoable_xor.foldl_set_ne hlt' (by rwa [hget]) 0 (hcrc'.trans hcrc.symm)

/-- Two packets of one length that differ in one byte behind the length field. -/
def DifferInOneByte (pkt pkt' : List UInt8) : Prop :=
  pkt'.length = pkt.length ∧ ∃ k, 6 ≤ k ∧ k < pkt.length ∧ pkt'.getD k 0 ≠ pkt.getD k 0 ∧
    ∀ j, j ≠ k → pkt'.getD j 0 = pkt.getD j 0

/-- Such packets are not both good. -/
theorem GoodPacket.not_both {pkt' : List UInt8} (h : GoodPacket pkt)
    (hdiff : DifferInOneByte pkt pkt') : ¬ GoodPacket pkt' := by
  obtain ⟨hlen, k, hk, hlt, hne, hsame⟩ := hdiff
  have hset : pkt' = pkt.set k (pkt'.getD k 0) := by
    apply List.ext_getElem
    · rw [List.length_set, hlen]
    · intro j h₁ h₂
      rw [List.getElem_set]
      split_ifs with hjk
      · subst hjk
        rw [List.getD_eq_getElem _ _ h₁]
      · have := hsame j (Ne.symm hjk)
        rwa [List.getD_eq_getElem _ _ h₁, List.getD_eq_getElem _ _ (by omega)] at this
  rw [List.getD_eq_getElem _ _ hlt] at hne
  rw [hset]
  exact h.not_set hk hlt hne

/-! ### One packet -/

/-- What becomes of a packet that was taken off the ring: `RING_STORE` gets its bytes as they are if
it is A/D data and all bytes from the length field on cancel, and is not called otherwise. -/
structure Judged (pkt : List UInt8) (p p' : RcvPath) (events : List RcvEvent) : Prop where
  cached : pkt.getD 6 0 = ADC_AD_DATA ∧ xorAll (pkt.drop 4) = 0 → ∃ element pktImg ret,
    pktImg.read 0 element.packetLen = pkt ∧
      p.dataRing.store element pktImg = .ok (ret, p'.dataRing) ∧
      events = [.stored element pkt ret]
  dropped : ¬ (pkt.getD 6 0 = ADC_AD_DATA ∧ xorAll (pkt.drop 4) = 0) →
    p'.dataRing = p.dataRing ∧ events = []

/-- Some turn of the loop of `check_data`, whatever the ring holds then, hands the bytes to
`RING_STORE`. -/
def EverStored (pkt : List UInt8) : Prop :=
  ∃ inhibitAdc junk p again p' events element ret,
    checkDataIter inhibitAdc junk p = .ok (again, p', events) ∧ .stored element pkt ret ∈ events

/-- The turn that takes a whole packet. -/
theorem adcTurn_whole (hmod : datalen s % 256 ≠ 0) (hall : PREHDRLEN + datalen s ≤ s.length) :
    adcTurn s = some ⟨true, s.drop (PREHDRLEN + datalen s),
      if CrcOk (s.take (PREHDRLEN + datalen s)) ∧
          (s.take (PREHDRLEN + datalen s)).getD 6 0 = ADC_AD_DATA
        then some (.adc (s.take (PREHDRLEN + datalen s))) else none⟩ := by
  have hhdr : PREHDRLEN < s.length := by omega
  have hlow : s.getD 4 0 ≠ 0 := by
    intro h0
    rw [datalen_mod, h0] at hmod
    exact hmod UInt8.toNat_zero
  simp only [adcTurn, hhdr, hlow, hall, ↓reduceIte]
  split_ifs <;> rfl

/-- **Exactly the packets with a right check byte are cached.**  A packet that has wholly arrived is
taken off the ring with the bytes before it, and stored if it is A/D data whose bytes from offset 4
on cancel; so of two packets that differ in one byte behind the length field, no run stores one and
no other run the other. -/
theorem getAdcData_exact (junk : Bfr) (p : RcvPath) {i d : ℕ}
    (hfirst : findSub ADCTOKEN p.ring.contents = some i)
    (hd : datalen (p.ring.contents.drop i) = d) (hmod : d % 256 ≠ 0)
    (hall : i + (PREHDRLEN + d) ≤ p.ring.contents.length) :
    (∃ p' events, getAdcData i junk p = .ok (0, p', events) ∧
      p'.ring.contents = p.ring.contents.drop (i + (PREHDRLEN + d)) ∧
      Judged ((p.ring.contents.drop i).take (PREHDRLEN + d)) p p' events) ∧
    ∀ pkt pkt', DifferInOneByte pkt pkt' → ¬ (EverStored pkt ∧ EverStored pkt') := by
  subst hd
  constructor
  · have hi : i ≤ p.ring.bytesStored := by
      rw [← RingSet.length_contents]
      omega
    have hspec := getAdcData_adcTurn junk hi (findSub_eq_some_iff.1 hfirst).2.1
    have hlen := List.length_drop (l := p.ring.contents) (i := i)
    rw [← List.drop_drop]
    generalize p.ring.contents.drop i = s at hspec hmod hall hlen ⊢
    rw [adcTurn_whole hmod (by omega)] at hspec
    obtain ⟨p', events, hrun, hagrees⟩ := hspec
    refine ⟨p', events, hrun, hagrees.contents, ?_⟩
    have hhanded := hagrees.handed
    have hlong : PREHDRLEN < (s.take (PREHDRLEN + datalen s)).length := by
      have hpos : datalen s ≠ 0 := fun h0 => hmod (by rw [h0])
      rw [List.length_take]
      omega
    generalize s.take (PREHDRLEN + datalen s) = pkt at hhanded hlong
    have hiff : CrcOk pkt ∧ pkt.getD 6 0 = ADC_AD_DATA ↔
        pkt.getD 6 0 = ADC_AD_DATA ∧ xorAll (pkt.drop 4) = 0 := by
      rw [crcOk_iff hlong, and_comm]
    by_cases hgood : pkt.getD 6 0 = ADC_AD_DATA ∧ xorAll (pkt.drop 4) = 0
    · rw [if_pos (hiff.2 hgood)] at hhanded
      refine ⟨fun _ => ?_, fun hnot => absurd hgood hnot⟩
      cases hhanded with
      | adc element pktImg _ ret hread _ hstore => exact ⟨element, pktImg, ret, hread, hstore, rfl⟩
    · rw [if_neg (mt hiff.1 hgood)] at hhanded
      refine ⟨fun h => absurd h hgood, fun _ => ?_⟩
      cases hhanded with
      | none _ hsame => exact ⟨hsame, rfl⟩
  · rintro pkt pkt' hdiff
      ⟨⟨_, _, _, _, _, _, _, _, hrun, hmem⟩, ⟨_, _, _, _, _, _, _, _, hrun', hmem'⟩⟩
    exact (goodPacket_of_stored hrun hmem).not_both hdiff (goodPacket_of_stored hrun' hmem')

/-- A ring with a byte in front of the shortest packet that there is. -/
def shortest : RcvPath where
  ring := ((RingSet.alloc BFRSIZE fun _ => 0).store (0 :: ADCTOKEN ++ [1, 0, 3, 0, 2])).2
  newChanInfo := .zero
  dataRing := .alloc (sdrPktSize .zero) fun _ => ⟨⟨0, 0, 0, false⟩, fun _ => 0⟩

/-- A packet whose length field is 1. -/
theorem getAdcData_shortest :
    (∃ p' events, getAdcData (1 : ℕ) (fun _ => 0) shortest = .ok (0, p', events) ∧
      p'.ring.contents = shortest.ring.contents.drop (1 + (PREHDRLEN + 1)) ∧
      Judged ((shortest.ring.contents.drop 1).take (PREHDRLEN + 1)) shortest p' events) ∧
    ∀ pkt pkt', DifferInOneByte pkt pkt' → ¬ (EverStored pkt ∧ EverStored pkt') :=
  getAdcData_exact _ _ (by decide +kernel) (by decide +kernel) (by decide) (by decide +kernel)

end SdrProxy
