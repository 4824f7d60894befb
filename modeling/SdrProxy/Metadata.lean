import SdrProxy.Packets

/-!
# What the metadata of a packet are decoded from

`get_adc_data` compares the length field of a packet with the bytes on the ring only, and
`add_to_data_ring` decodes the header at fixed offsets of `rcv_bfr`, however long the packet is.

* `packetInfo_congr` : the decoders read nothing behind the data header;
* `Decoded` : every element is decoded from a buffer that begins with its packet
  (`decoded_of_run`), so that it is a function of the packet if the packet has a whole header
  (`Decoded.unique`);
* `ShortPacket` : the packets that are stored without one;
* `ownMetadata_iff` : the metadata come from the packets alone in the runs that meet none of these.
-/

namespace SdrProxy

/-! ### The bytes that the decoders read -/

section Congr

variable {b b' : Bfr} {n pos : ℕ}

theorem Bfr.u16_congr (h : ∀ j < n, b j = b' j) (hpos : pos + 1 < n) : b.u16 pos = b'.u16 pos := by
  rw [Bfr.u16, Bfr.u16, h pos (by omega), h (pos + 1) hpos]

theorem Bfr.i16_congr (h : ∀ j < n, b j = b' j) (hpos : pos + 1 < n) : b.i16 pos = b'.i16 pos := by
  rw [Bfr.i16, Bfr.i16, Bfr.u16_congr h hpos]

theorem Bfr.i32_congr (h : ∀ j < n, b j = b' j) (hpos : pos + 3 < n) : b.i32 pos = b'.i32 pos := by
  have hlow := Bfr.u16_congr h (by omega : pos + 1 < n)
  have hhigh := Bfr.u16_congr h (by omega : pos + 2 + 1 < n)
  rw [Bfr.i32, Bfr.i32, hlow, hhigh]

theorem decodePktTime_congr (h : ∀ j < n, b j = b' j) (hpos : pos + 15 < n) :
    decodePktTime b pos = decodePktTime b' pos := by
  have hfield : ∀ rel ≤ DATAHDR_POS_MSEC_REL, b.i16 (pos + rel) = b'.i16 (pos + rel) := by
    intro rel hrel
    apply Bfr.i16_congr h
    rw [DATAHDR_POS_MSEC_REL] at hrel
    omega
  rw [decodePktTime, decodePktTime, getPacketTime, getPacketTime,
    hfield DATAHDR_POS_YEAR_REL (by decide), hfield DATAHDR_POS_MON_REL (by decide),
    hfield DATAHDR_POS_DOM_REL (by decide), hfield DATAHDR_POS_HOUR_REL (by decide),
    hfield DATAHDR_POS_MIN_REL (by decide), hfield DATAHDR_POS_SEC_REL (by decide),
    hfield DATAHDR_POS_MSEC_REL le_rfl]

/-- The `packetinfo` that `add_to_data_ring` makes of a packet of `pktLen` bytes. -/
def packetInfo (packet : Bfr) (pktLen : ℕ) : PacketInfo where
  packetLen := pktLen
  packetTime := decodePktTime packet PREHDRLEN
  packetId := packet.i32 DATAHDR_POS_PACKETID
  valid := true

/-- **The header is all that is read.** -/
theorem packetInfo_congr (h : ∀ j < n, b j = b' j) (hn : PREHDRLEN + DATAHDRLEN ≤ n) (pktLen : ℕ) :
    packetInfo b pktLen = packetInfo b' pktLen := by
  have hpre : PREHDRLEN = 8 := rfl
  have hhdr : DATAHDRLEN = 22 := rfl
  have hid : DATAHDR_POS_PACKETID = 24 := rfl
  rw [packetInfo, packetInfo, decodePktTime_congr h (by omega), Bfr.i32_congr h (by omega)]

end Congr

/-! ### Where elements come from -/

/-- The element was decoded from a buffer that begins with the packet. -/
def Decoded (element : PacketInfo) (pkt : List UInt8) : Prop :=
  ∃ rcvBfr : Bfr, rcvBfr.read 0 pkt.length = pkt ∧ element = packetInfo rcvBfr pkt.length

variable {element element' : PacketInfo} {pkt : List UInt8} {ret : ℤ}

theorem Decoded.packetLen (h : Decoded element pkt) : element.packetLen = pkt.length := by
  obtain ⟨rcvBfr, -, rfl⟩ := h
  rfl

/-- What stands behind a packet with a whole header makes no difference. -/
theorem Decoded.unique (h : Decoded element pkt) (h' : Decoded element' pkt)
    (hlen : PREHDRLEN + DATAHDRLEN ≤ pkt.length) : element' = element := by
  obtain ⟨b, hb, rfl⟩ := h
  obtain ⟨b', hb', rfl⟩ := h'
  refine packetInfo_congr ?_ hlen pkt.length
  intro j hj
  have hsame : b'.read 0 pkt.length = b.read 0 pkt.length := hb'.trans hb.symm
  have hget := List.getElem_of_eq hsame (by rwa [Bfr.length_read] : j < _)
  simpa using hget

theorem addToDataRing_decoded {packet : Bfr} {pktLen : ℕ} {r r' : DataRing}
    {events : List RcvEvent} (h : addToDataRing packet pktLen r = .ok (r', events))
    (he : .stored element pkt ret ∈ events) : Decoded element pkt := by
  obtain ⟨⟨ret', r₁⟩, -, h⟩ := bind_eq_ok.1 h
  cases h
  obtain ⟨rfl, rfl, rfl⟩ := by simpa using he
  refine ⟨packet, ?_, ?_⟩
  · rw [Bfr.length_read]
  · rw [Bfr.length_read]
    rfl

theorem getChanInfo_stored (index : ℤ) (p : RcvPath) :
    .stored element pkt ret ∉ (getChanInfo index p).2.2 := by
  rw [getChanInfo_eq]
  split_ifs
  · dsimp only
    split <;> simp
  · simp

theorem checkDataIter_decoded {inhibitAdc again : Bool} {junk : Bfr} {p p' : RcvPath}
    {events : List RcvEvent} (h : checkDataIter inhibitAdc junk p = .ok (again, p', events))
    (he : .stored element pkt ret ∈ events) : Decoded element pkt := by
  unfold checkDataIter at h
  dsimp only at h
  generalize (if inhibitAdc then -1 else searchRing ADCTOKEN p.ring) = adcidx at h
  split_ifs at h
  · cases h
    exact absurd he (getChanInfo_stored _ _)
  · obtain ⟨⟨rv, p₁, events₁⟩, hget, h⟩ := bind_eq_ok.1 h
    have hevents : events = events₁ := by
      dsimp only at h
      split_ifs at h <;> cases h <;> rfl
    subst hevents
    rcases (getAdcData_cases hget).2 with rfl | ⟨packet, pktLen, dataRing, hadd⟩
    · cases he
    · exact addToDataRing_decoded hadd he
  · cases h
    exact absurd he (getChanInfo_stored _ _)
  · cases h
    cases he

theorem ClientThread.step_decoded {io : ClientIO} {c c' : ClientThread} {comm comm' : ClientComm}
    {r r' : DataRing} {es : List Event} (h : c.step io comm r = .ok (c', comm', r', es))
    (he : .rcv (.stored element pkt ret) ∈ es) : Decoded element pkt := by
  have hmove := ClientThread.step_cases h
  unfold ClientThread.step at h
  cases hpc : c.pc <;> simp only [hpc] at h
  case checking =>
    obtain ⟨⟨c₁, r₁, es₁⟩, hcheck, h⟩ := bind_eq_ok.1 h
    cases h
    obtain ⟨⟨again, p, events⟩, hiter, hcheck⟩ := bind_eq_ok.1 hcheck
    cases hcheck
    obtain ⟨e, he, heq⟩ := List.mem_map.1 he
    cases heq
    exact checkDataIter_decoded hiter he
  -- the other steps store nothing
  all_goals cases hmove <;> simp_all

/-- **Every element that a step of the program stores is decoded so.** -/
theorem decoded_of_step {s s' : Core} {l : Label} {es : List Event}
    (h : proxy.step s l = some (s', es)) (he : .rcv (.stored element pkt ret) ∈ es) :
    Decoded element pkt := by
  cases l with
  | main mem =>
    cases Core.step_cases h with
    | main hmain => cases hmain <;> simp at he
    | fail _ _ => cases he
  | server io =>
    cases Core.step_cases h with
    | server _ _ hserver => cases hserver <;> simp at he
    | fail _ _ => cases he
  | client io =>
    change s.step (.client io) = _ at h
    unfold Core.step at h
    split_ifs at h
    simp only [Core.clientStep, Option.some.injEq] at h
    cases hstep : s.client.step io s.comm s.dataRing with
    | error msg =>
      rw [hstep] at h
      cases h
      cases he
    | ok r =>
      rw [hstep] at h
      cases h
      exact ClientThread.step_decoded hstep he

/-- Some run of the program stores the element for the packet. -/
def EverCached (element : PacketInfo) (pkt : List UInt8) : Prop :=
  ∃ clientNo failtimer mem ls s es ret,
    proxy.run (.init clientNo failtimer mem) ls = some (s, es) ∧
      .rcv (.stored element pkt ret) ∈ es

/-- **Every element that a run stores is decoded so.** -/
theorem decoded_of_run (h : EverCached element pkt) : Decoded element pkt := by
  obtain ⟨clientNo, failtimer, mem, ls, s, es, ret, hrun, he⟩ := h
  refine Machine.run_ind (fun _ es => ∀ element pkt ret,
    .rcv (.stored element pkt ret) ∈ es → Decoded element pkt) ?_ ?_ hrun element pkt ret he
  · intro _ _ _ hnil
    cases hnil
  · intro s l s' es es' ih hstep element pkt ret he
    rcases List.mem_append.1 he with he | he
    · exact ih element pkt ret he
    · exact decoded_of_step hstep he

/-! ### Packets without a header -/

/-- A whole good packet starts here whose data are shorter than a header and the check byte. -/
structure ShortPacket (s : List UInt8) : Prop where
  whole : PREHDRLEN + datalen s ≤ s.length
  short : datalen s < DATAHDRLEN + CRCLEN
  good : GoodPacket (s.take (PREHDRLEN + datalen s))

/-- `get_adc_data` takes it. -/
theorem ShortPacket.adcTurn {s : List UInt8} (h : ShortPacket s) :
    adcTurn s = some ⟨true, s.drop (PREHDRLEN + datalen s),
      some (.adc (s.take (PREHDRLEN + datalen s)))⟩ := by
  have hpre : PREHDRLEN = 8 := rfl
  have hmod : datalen s % 256 ≠ 0 := by
    have hlow := h.good.low_ne
    rw [getD_take (by omega)] at hlow
    exact datalen_mod_ne hlow
  rw [adcTurn_whole hmod h.whole, if_pos ⟨h.good.crc, h.good.type⟩]

/-- A pass that stores packets has come to such a packet. -/
def Core.AtShortPacket (s : Core) : Prop :=
  s.client.pc = .checking ∧ s.client.inhibitAdc = false ∧
    ∃ a, findSub ADCTOKEN s.client.rcvRing.contents = some a ∧
      (∀ c, chanAt s.client.rcvRing.contents = some c → a ≤ c) ∧
      ShortPacket (s.client.rcvRing.contents.drop a)

/-- An element that is stored has the length of a packet with a whole header, and every run that
stores the same packet stores the same element for it. -/
def Event.Own : Event → Prop
  | rcv (.stored element pkt _) => PREHDRLEN + DATAHDRLEN + CRCLEN ≤ element.packetLen ∧
      ∀ element', EverCached element' pkt → element' = element
  | _ => True

/-- The elements that a step stores are such. -/
def OwnMetadata (_ : Core) (_ : Label) (es : List Event) (_ : Core) : Prop := ∀ e ∈ es, e.Own

/-- The step does not take a packet without a header. -/
def MeetsNoShort (s : Core) (l : Label) (_ : List Event) (_ : Core) : Prop :=
  l.ofClient = true → ¬ s.AtShortPacket

section Step

variable {s s' : Core} {l : Label} {es : List Event}

/-- Only the client thread stores packets. -/
theorem Core.ofClient_of_stored (h : proxy.step s l = some (s', es))
    (he : .rcv (.stored element pkt ret) ∈ es) : l.ofClient = true := by
  rcases (Core.step_cases h).client_cases with ⟨-, -, hnone, -⟩ | ⟨hl, -⟩
  · cases hnone _ he
  · exact hl

/-- A packet of a wrong length that is stored is one of these. -/
theorem Core.atShortPacket_of_stored (h : proxy.step s l = some (s', es))
    (he : .rcv (.stored element pkt ret) ∈ es)
    (hlt : pkt.length < PREHDRLEN + DATAHDRLEN + CRCLEN) : s.AtShortPacket := by
  obtain ⟨hpc, hinh, -, t, ht, hitem⟩ := (Core.step_cases h).stored_cases he
  rcases turn_cases false s.client.rcvRing.contents with
    ⟨-, -, heq⟩ | ⟨c, -, -, heq⟩ | ⟨a, ha, hfirst, heq⟩
  · rw [heq] at ht
    cases ht
    cases hitem
  · rw [heq] at ht
    cases ht
    exact absurd hitem (chanTurn_item_ne _ _)
  · rw [heq] at ht
    obtain ⟨hwhole, rfl, hgood⟩ := adcTurn_item ht hitem
    rw [List.length_take, Nat.min_eq_left hwhole] at hlt
    exact ⟨hpc, hinh, a, ha, hfirst, hwhole, by omega, hgood⟩

theorem Core.AtShortPacket.stores (h : s.AtShortPacket) (hl : l.ofClient = true)
    (hstep : proxy.step s l = some (s', es)) : ∃ element pkt ret,
      .rcv (.stored element pkt ret) ∈ es ∧
        element.packetLen < PREHDRLEN + DATAHDRLEN + CRCLEN := by
  obtain ⟨hpc, hinh, a, ha, hfirst, hshort⟩ := h
  have hadc : adcAt s.client.inhibitAdc s.client.rcvRing.contents = some a := by
    rw [hinh]
    exact ha
  have hturn := (turn_eq_adc hadc hfirst).trans hshort.adcTurn
  cases Core.step_cases hstep with
  | main _ => cases hl
  | server _ _ _ => cases hl
  | fail msg hmay =>
    rcases hmay.client hl with hpc' | hpc' | hpc' | ⟨-, hnone⟩
    · rw [hpc] at hpc'
      cases hpc'
    · rw [hpc] at hpc'
      cases hpc'
    · rw [hpc] at hpc'
      cases hpc'
    · rw [hturn] at hnone
      cases hnone
  | client hclient =>
    cases hclient with
    | quiet hpc' => rcases hpc' with hpc' | hpc' | hpc' <;> simp [hpc] at hpc'
    | sample hpc' | raise hpc' _ | keep hpc' _ => simp [hpc] at hpc'
    | check t _ ht _ _ _ _ _ _ hhanded =>
      rw [hturn] at ht
      obtain rfl := Option.some.inj ht
      cases hhanded with
      | adc element pktImg pkt ret himg =>
        refine ⟨element, _, ret, List.mem_singleton.2 rfl, ?_⟩
        have hlen := congrArg List.length himg
        rw [Bfr.length_read, List.length_take, Nat.min_eq_left hshort.whole] at hlen
        have := hshort.short
        omega

theorem ownMetadata_step_iff (hstep : proxy.step s l = some (s', es)) :
    OwnMetadata s l es s' ↔ MeetsNoShort s l es s' := by
  constructor
  · intro h hl hshort
    obtain ⟨element, pkt, ret, he, hlt⟩ := hshort.stores hl hstep
    have hlen := (h _ he).1
    omega
  · intro h e he
    unfold Event.Own
    split
    · next element pkt ret =>
      have hdec := decoded_of_step hstep he
      have hlen : PREHDRLEN + DATAHDRLEN + CRCLEN ≤ pkt.length := by
        by_contra hlt
        exact h (Core.ofClient_of_stored hstep he)
          (Core.atShortPacket_of_stored hstep he (Nat.not_le.1 hlt))
      refine ⟨by rwa [hdec.packetLen], fun element' hcached => ?_⟩
      exact hdec.unique (decoded_of_run hcached) (by omega)
    · trivial

end Step

/-- **When the metadata of packets come from their own bytes.**  In every run of the program, from
whatever memory: the elements that its steps store have the length of a packet with a whole header
and are the same in every run that stores the same packet, exactly if the run takes no packet
without a header. -/
theorem ownMetadata_iff (clientNo failtimer : ℤ) (mem : Memory) (ls : List Label) :
    proxy.Always OwnMetadata (.init clientNo failtimer mem) ls ↔
      proxy.Always MeetsNoShort (.init clientNo failtimer mem) ls := by
  refine Machine.always_iff (fun _ => True) trivial ?_ ls
  intro s l s' es _ hstep
  exact ⟨ownMetadata_step_iff hstep, fun _ => trivial⟩

/-- A packet of nine bytes. -/
def ninePacket : List UInt8 := ADCTOKEN ++ [1, 0, ADC_AD_DATA, 0, 2]

/-- It arrives and is taken, while `rcv_bfr` holds `b` wherever no packet was copied to. -/
def nineRun (b : UInt8) : List Label :=
  clientConnects ++ [clientRecv ninePacket, clientQuiet,
    .client ⟨true, true, some (true, true), .again, 3, 0, none, ⟨7, .EAGAIN⟩, fun _ => b⟩]

/-- It is stored with the times and numbers that were left in `rcv_bfr`. -/
theorem ninePacket_mixed : ¬ proxy.Always OwnMetadata (.init (-1) 0 .zero) (nineRun 0) ∧
    EverCached ⟨9, -1, 0, true⟩ ninePacket ∧
    EverCached ⟨9, -743 / 1000, 16843009, true⟩ ninePacket := by
  have hzeros : (proxy.run (.init (-1) 0 .zero) (nineRun 0)).map Prod.snd =
      some [.sampled false, .rcv (.stored ⟨9, -1, 0, true⟩ ninePacket 0)] := by decide +kernel
  have hones : (proxy.run (.init (-1) 0 .zero) (nineRun 1)).map Prod.snd =
      some [.sampled false, .rcv (.stored ⟨9, -743 / 1000, 16843009, true⟩ ninePacket 0)] := by
    decide +kernel
  obtain ⟨⟨s₀, _⟩, hrun₀, rfl⟩ := Option.map_eq_some_iff.1 hzeros
  obtain ⟨⟨s₁, _⟩, hrun₁, rfl⟩ := Option.map_eq_some_iff.1 hones
  refine ⟨fun h => ?_, ⟨_, _, _, _, s₀, _, 0, hrun₀, by simp⟩,
    ⟨_, _, _, _, s₁, _, 0, hrun₁, by simp⟩⟩
  have hown : PREHDRLEN + DATAHDRLEN + CRCLEN ≤ 9 :=
    (Machine.of_mem_run h hrun₀ (List.mem_cons_of_mem _ List.mem_cons_self)).1
  exact absurd hown (by decide)

end SdrProxy
