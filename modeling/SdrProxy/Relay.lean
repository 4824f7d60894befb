import SdrProxy.Fragmentation
import SdrProxy.Framing
import SdrProxy.Provenance
import SdrProxy.Reception

/-!
# From one proxy to the next

The protocol on both sides of the program is the same, so a program can be the remote server of
another one.

* `CachedPacket` : the packets that the cache holds in every run (`cached_wellFormed`);
* `AdcMessage.decode` : a packet read field by field, the inverse of writing it
  (`AdcMessage.decode_encode`, `AdcMessage.encode_of_decode`);
* `relayed` : what one program sends on a connection, cut anywhere, the receive path of the next one
  hands on message by message, in order and byte for byte.
-/

namespace SdrProxy

/-! ### Packets of the cache -/

/-- A packet as the cache holds it. -/
structure CachedPacket (pkt : List UInt8) : Prop where
  good : GoodPacket pkt
  token : ADCTOKEN <+: pkt
  length_le : pkt.length ≤ BFRSIZE

variable {pkt bytes : List UInt8} {inhibitAdc : Bool} {t : Turn}

/-- A packet that a turn hands on starts with the token, and has stood on the ring. -/
theorem turn_token (h : turn inhibitAdc bytes = some t) (hitem : t.item = some (.adc pkt)) :
    ADCTOKEN <+: pkt ∧ pkt.length ≤ bytes.length := by
  rcases turn_cases inhibitAdc bytes with ⟨-, -, heq⟩ | ⟨c, -, -, heq⟩ | ⟨a, ha, -, heq⟩
  · rw [heq] at h
    obtain rfl := Option.some.inj h
    cases hitem
  · rw [heq] at h
    obtain rfl := Option.some.inj h
    exact absurd hitem (chanTurn_item_ne _ _)
  · rw [heq] at h
    obtain ⟨hle, htake, hgood⟩ := adcTurn_item h hitem
    have hpre : pkt <+: bytes.drop a := htake ▸ List.take_prefix _ _
    have htoken : ADCTOKEN <+: bytes.drop a := by
      unfold adcAt at ha
      split_ifs at ha
      exact (findSub_eq_some_iff.1 ha).2.1
    have hlen : ADCTOKEN.length ≤ pkt.length := hgood.length_lt.le.trans' (by decide)
    refine ⟨List.prefix_of_prefix_length_le htoken hpre hlen, ?_⟩
    exact hpre.length_le.trans (by rw [List.length_drop]; omega)

theorem CachedPacket.split (h : CachedPacket pkt)
    (hlen : PREHDRLEN + DATAHDRLEN + CRCLEN ≤ pkt.length) : ∃ a b flags payload last,
      pkt = ADCTOKEN ++ ([a, b, ADC_AD_DATA, flags] ++ (payload ++ [last])) := by
  have htype := h.good.type
  obtain ⟨rest, rfl⟩ := h.token
  match rest, hlen with
  | a :: b :: type :: flags :: tail, hlen =>
    obtain rfl : type = ADC_AD_DATA := htype
    have hne : tail ≠ [] := by
      rintro rfl
      simp [ADCTOKEN, PREHDRLEN, DATAHDRLEN, CRCLEN] at hlen
    exact ⟨a, b, flags, tail.dropLast, tail.getLast hne, by
      rw [List.dropLast_append_getLast hne]; rfl⟩

section Fields

variable {a b type flags last : UInt8} {payload : List UInt8}

theorem datalen_fields : datalen (ADCTOKEN ++ ([a, b, type, flags] ++ (payload ++ [last]))) =
    a.toNat + 256 * b.toNat := rfl

theorem length_fields : (ADCTOKEN ++ ([a, b, type, flags] ++ (payload ++ [last]))).length =
    PREHDRLEN + (payload.length + CRCLEN) := by
  simp only [List.length_append, List.length_cons, List.length_nil, ADCTOKEN, PREHDRLEN, CRCLEN]
  omega

theorem crc_fields (h : CrcOk (ADCTOKEN ++ ([a, b, type, flags] ++ (payload ++ [last])))) :
    ([a, b, type, flags] ++ payload).foldl (fun crc b => crc ^^^ b) 0 = last := by
  have hpre : PREHDRLEN = 8 := rfl
  have hcrclen : CRCLEN = 1 := rfl
  have hbody : ([a, b, type, flags] ++ payload).length = payload.length + 4 := by
    simp
  have hlast : (ADCTOKEN ++ ([a, b, type, flags] ++ payload)).length = payload.length + 8 := by
    simp [ADCTOKEN]
  rw [CrcOk, length_fields, hpre, hcrclen, List.drop_left' (by rfl), ← List.append_assoc,
    show 8 + (payload.length + 1) - 5 = ([a, b, type, flags] ++ payload).length by omega,
    List.take_left, ← List.append_assoc,
    show 8 + (payload.length + 1) - 1 =
      (ADCTOKEN ++ ([a, b, type, flags] ++ payload)).length by omega,
    List.getD_append_right _ _ _ _ le_rfl, Nat.sub_self] at h
  exact h

end Fields

instance : Decidable (GoodPacket pkt) :=
  decidable_of_iff (pkt.length = PREHDRLEN + datalen pkt ∧ pkt.getD 4 0 ≠ 0 ∧ CrcOk pkt ∧
    pkt.getD 6 0 = ADC_AD_DATA)
    ⟨fun h => ⟨h.1, h.2.1, h.2.2.1, h.2.2.2⟩, fun h => ⟨h.length_eq, h.low_ne, h.crc, h.type⟩⟩

instance : Decidable (CachedPacket pkt) :=
  decidable_of_iff (GoodPacket pkt ∧ ADCTOKEN <+: pkt ∧ pkt.length ≤ BFRSIZE)
    ⟨fun h => ⟨h.1, h.2.1, h.2.2⟩, fun h => ⟨h.good, h.token, h.length_le⟩⟩

/-- A packet that is long enough for a data header, read field by field. -/
def AdcMessage.decode (pkt : List UInt8) : Option AdcMessage :=
  let payload := (pkt.drop PREHDRLEN).dropLast
  if h : CachedPacket pkt ∧ PREHDRLEN + DATAHDRLEN + CRCLEN ≤ pkt.length then
    have hlen : PREHDRLEN + (payload.length + CRCLEN) = pkt.length := by
      have hcrc : CRCLEN = 1 := rfl
      rw [List.length_dropLast, List.length_drop]
      omega
    some ⟨pkt.getD 7 0, payload, by omega, hlen.trans_le h.1.length_le, by
      have hdatalen := h.1.good.length_eq
      rw [show payload.length + CRCLEN = datalen pkt by omega]
      exact datalen_mod_ne h.1.good.low_ne⟩
  else none

/-- What a server sends is a packet that can be in the cache. -/
theorem AdcMessage.cachedPacket_encode (m : AdcMessage) : CachedPacket m.encode :=
  ⟨⟨by rw [m.length_encode, m.datalen_encode], m.getD_four_ne, m.crcOk_encode, m.getD_six⟩,
    m.token_isPrefixOf, by rw [m.length_encode]; exact m.max_datalen⟩

theorem AdcMessage.decode_encode (m : AdcMessage) : AdcMessage.decode m.encode = some m := by
  have hlen : PREHDRLEN + DATAHDRLEN + CRCLEN ≤ m.encode.length := by
    have hmin := m.min_datalen
    have hlen : m.len = m.payload.length + CRCLEN := rfl
    rw [m.length_encode]
    omega
  have hpayload : (m.encode.drop PREHDRLEN).dropLast = m.payload := by
    have hdrop : m.encode.drop PREHDRLEN = m.payload ++ [m.body.foldl (fun crc b => crc ^^^ b) 0] :=
      rfl
    rw [hdrop, List.dropLast_concat]
  rw [decode, dif_pos ⟨m.cachedPacket_encode, hlen⟩]
  simp only [hpayload]
  rfl

theorem AdcMessage.fields_of_decode {m : AdcMessage} (h : AdcMessage.decode pkt = some m) :
    (CachedPacket pkt ∧ PREHDRLEN + DATAHDRLEN + CRCLEN ≤ pkt.length) ∧
      m.flags = pkt.getD 7 0 ∧ m.payload = (pkt.drop PREHDRLEN).dropLast := by
  rw [decode] at h
  dsimp only at h
  split_ifs at h with hread
  obtain rfl := Option.some.inj h
  exact ⟨hread, rfl, rfl⟩

theorem AdcMessage.encode_of_decode {m : AdcMessage} (h : AdcMessage.decode pkt = some m) :
    m.encode = pkt := by
  obtain ⟨⟨hcached, hlong⟩, hflags, hpayload⟩ := AdcMessage.fields_of_decode h
  obtain ⟨a, b, flags, payload, last, rfl⟩ := hcached.split hlong
  have hdrop : (ADCTOKEN ++ ([a, b, ADC_AD_DATA, flags] ++ (payload ++ [last]))).drop PREHDRLEN =
      payload ++ [last] := rfl
  rw [hdrop, List.dropLast_concat] at hpayload
  have hdata : m.len = a.toNat + 256 * b.toNat := by
    have hdlen := hcached.good.length_eq
    rw [datalen_fields, length_fields] at hdlen
    rw [len, hpayload]
    omega
  have ha : UInt8.ofNat (m.len % 256) = a := by
    have hlt := a.toNat_lt
    rw [hdata, Nat.add_mul_mod_self_left, Nat.mod_eq_of_lt hlt, UInt8.ofNat_toNat]
  have hb : UInt8.ofNat (m.len / 256) = b := by
    have hlt := a.toNat_lt
    rw [hdata, Nat.add_mul_div_left _ _ (by norm_num), Nat.div_eq_of_lt hlt, Nat.zero_add,
      UInt8.ofNat_toNat]
  have hbody : m.body = [a, b, ADC_AD_DATA, flags] ++ payload := by
    rw [body, ha, hb, hflags, hpayload]
    rfl
  rw [encode, hbody, crc_fields hcached.good.crc, List.append_assoc, List.append_assoc]

/-- **A packet of the cache is one as a server sends it**, if it is long enough for a data
header. -/
theorem CachedPacket.exists_message (h : CachedPacket pkt)
    (hlen : PREHDRLEN + DATAHDRLEN + CRCLEN ≤ pkt.length) :
    ∃ m, AdcMessage.decode pkt = some m ∧ m.encode = pkt := by
  obtain ⟨m, hm⟩ : ∃ m, AdcMessage.decode pkt = some m := by
    rw [AdcMessage.decode, dif_pos ⟨h, hlen⟩]
    exact ⟨_, rfl⟩
  exact ⟨m, hm, AdcMessage.encode_of_decode hm⟩

/-! ### The cache in every run -/

theorem bfrsize_clientRcvToRing (res : RecvResult) (ring : RingSet) :
    (clientRcvToRing res ring).2.bfrsize = ring.bfrsize := by
  unfold clientRcvToRing
  dsimp only
  split_ifs
  · rfl
  · cases res with
    | again => rfl
    | error => rfl
    | bytes l =>
      dsimp only
      split_ifs
      · exact RingSet.bfrsize_store _ _
      · rfl

theorem ClientThread.bfrsize_of_step {io : ClientIO} {c c' : ClientThread} {comm comm' : ClientComm}
    {dataRing dataRing' : DataRing} {es : List Event}
    (h : c.step io comm dataRing = .ok (c', comm', dataRing', es)) :
    c'.rcvRing.bfrsize = c.rcvRing.bfrsize := by
  unfold step at h
  cases hpc : c.pc <;> simp only [hpc] at h
  case start =>
    split_ifs at h
    cases h
    rfl
  case top =>
    obtain ⟨c₁, hrcv, h⟩ := bind_eq_ok.1 h
    obtain ⟨c₂, hdisp, h⟩ := bind_eq_ok.1 h
    cases h
    have hsame : c₁.rcvRing.bfrsize = c.rcvRing.bfrsize := by
      cases receiveStage_cases hrcv with
      | skipped _ => rfl
      | idle _ _ _ _ _ => rfl
      | called _ _ _ _ =>
        rw [noteReceived_rcvRing]
        exact bfrsize_clientRcvToRing _ _
    cases dispatch_cases hdisp <;> exact hsame
  case sample =>
    cases h
    rfl
  case checking =>
    obtain ⟨⟨c₁, r, events⟩, hcheck, h⟩ := bind_eq_ok.1 h
    cases h
    obtain ⟨⟨again, p, events⟩, hiter, hcheck⟩ := bind_eq_ok.1 hcheck
    cases hcheck
    obtain ⟨t, -, -, hagrees⟩ := checkDataIter_ok hiter
    show (ite _ _ _ : RingSet).bfrsize = _
    split_ifs
    · exact hagrees.bfrsize
    · exact (bfrsize_purge _ _).trans hagrees.bfrsize
  case publish => split_ifs at h <;> cases h <;> rfl
  case sending =>
    obtain ⟨c₁, hsend, h⟩ := bind_eq_ok.1 h
    cases h
    rcases sendStage_cases hsend with rfl | ⟨rv, ring, rfl⟩ <;> rfl

namespace Core

variable {s s' : Core} {l : Label} {es : List Event}

/-- The cache holds packets only. -/
structure HoldsPackets (s : Core) : Prop where
  size : s.client.rcvRing.bfrsize = BFRSIZE + 1
  ring_ok : s.dataRing.Ok
  cache : ∀ e ∈ s.dataRing.entries, CachedPacket e.2.2

/-- A turn of `check_data` caches packets only. -/
theorem HoldsPackets.handed (h : s.HoldsPackets) {inhibitAdc : Bool} {t : Turn} {p p' : RcvPath}
    {events : List RcvEvent} (ht : turn inhibitAdc s.client.rcvRing.contents = some t)
    (hhanded : Handed t.item p p' events) (hring : p.dataRing = s.dataRing) :
    ∀ e ∈ p'.dataRing.entries, CachedPacket e.2.2 := by
  have htoken : ∀ pkt, t.item = some (.adc pkt) →
      ADCTOKEN <+: pkt ∧ pkt.length ≤ s.client.rcvRing.contents.length := fun _ => turn_token ht
  have hgood : ∀ pkt, t.item = some (.adc pkt) → GoodPacket pkt := fun _ => turn_item ht
  generalize t.item = item at hhanded htoken hgood
  cases hhanded with
  | none _ hsame => exact hsame ▸ hring ▸ h.cache
  | chan c _ hsame => exact hsame ▸ hring ▸ h.cache
  | adc element pktImg pkt ret himg _ hstore =>
    rw [hring] at hstore
    intro e he
    rcases (DataRing.mem_entries_store h.ring_ok hstore).2 e he with ⟨-, rfl⟩ | hmem
    · have hlen : s.client.rcvRing.contents.length ≤ BFRSIZE := by
        have hlt := s.client.rcvRing.bytesStored_lt
        rw [RingSet.length_contents]
        have := h.size
        omega
      show CachedPacket (pktImg.read 0 element.packetLen)
      rw [himg]
      exact ⟨hgood pkt rfl, (htoken pkt rfl).1, (htoken pkt rfl).2.trans hlen⟩
    · exact h.cache e hmem

theorem HoldsPackets.step (h : s.HoldsPackets) (hstep : proxy.step s l = some (s', es))
    (hexited' : s'.exited = none) : s'.HoldsPackets := by
  have hmove := step_cases hstep
  refine ⟨?_, hmove.ring_ok h.ring_ok, ?_⟩
  · cases l with
    | client io =>
      exact (ClientThread.bfrsize_of_step (client_of_step hstep hexited')).trans h.size
    | main mem =>
      cases hmove with
      | fail _ _ => exact h.size
      | main hmain => cases hmain <;> exact h.size
    | server io =>
      cases hmove with
      | fail _ _ => exact h.size
      | server _ _ _ => exact h.size
  · cases hmove with
    | fail _ _ => exact h.cache
    | server _ _ _ => exact h.cache
    | main hmain =>
      cases hmain with
      | dealloc _ => simp
      | alloc mem _ => simp
      | _ => exact h.cache
    | client hclient =>
      cases hclient with
      | check t _ ht _ _ _ _ _ hdata hhanded =>
        show ∀ e ∈ DataRing.entries _, _
        rw [hdata]
        exact h.handed ht hhanded rfl
      | _ => exact h.cache

end Core

/-- **The cache holds packets as a server sends them.**  In every run of the three threads each
entry of the cache starts with the token, has the right length and check byte; and if it is long
enough for a data header, then it can be read, and writing what was read gives its bytes.  Reading
what was written gives it back for every packet. -/
theorem cached_wellFormed (clientNo failtimer : ℤ) (mem : Memory) (ls : List Label) :
    (∀ m : AdcMessage, AdcMessage.decode m.encode = some m) ∧
    proxy.Always (fun _ _ _ s' => s'.exited = none → ∀ e ∈ s'.dataRing.entries,
        CachedPacket e.2.2 ∧ (PREHDRLEN + DATAHDRLEN + CRCLEN ≤ e.2.2.length →
          ∃ m, AdcMessage.decode e.2.2 = some m ∧ m.encode = e.2.2))
      (.init clientNo failtimer mem) ls := by
  refine ⟨AdcMessage.decode_encode, ?_⟩
  refine Machine.always_of_inv (fun s => s.exited = none → s.HoldsPackets) ?_ ?_ ls
  · intro _
    refine ⟨rfl, DataRing.ok_alloc _ _, ?_⟩
    show ∀ e ∈ (DataRing.alloc _ _).entries, _
    simp
  · intro s l s' es h hstep
    have hnext : s'.exited = none → s'.HoldsPackets :=
      (h (Core.exited_of_step hstep)).step hstep
    refine ⟨hnext, fun hexited' e he => ?_⟩
    have hcached := (hnext hexited').cache e he
    exact ⟨hcached, hcached.exists_message⟩

/-! ### Two programs -/

/-- The caches that are served hold packets, long enough for a data header. -/
def ServicePass.Sound (p : ServicePass) : Prop :=
  ∀ e ∈ p.dataRing.entries, CachedPacket e.2.2 ∧ PREHDRLEN + DATAHDRLEN + CRCLEN ≤ e.2.2.length

/-- What is placed on a send ring is the encoding of a message. -/
theorem Framed.exists_messages {data : ConnectionData} {passes : List ServicePass}
    {es : List FrameEvent} (h : Framed data passes es) (hsound : ∀ p ∈ passes, p.Sound) :
    ∃ ms : List Message, messages es = ms.map Message.encode := by
  have hwhole := h.whole
  generalize messages es = msgs at hwhole
  induction msgs with
  | nil => exact ⟨[], rfl⟩
  | cons msg msgs ih =>
    obtain ⟨ms, rfl⟩ := ih fun m hm => hwhole m (List.mem_cons_of_mem _ hm)
    obtain ⟨p, hp, ⟨rfl, -⟩ | ⟨element, hmem, -⟩⟩ := hwhole msg List.mem_cons_self
    · exact ⟨.chan p.chanInfoG p.valid :: ms, rfl⟩
    · obtain ⟨hcached, hlen⟩ := hsound p hp _ hmem
      obtain ⟨m, -, rfl⟩ := hcached.exists_message hlen
      exact ⟨.adc m :: ms, rfl⟩

/-- **One program behind another.**  A connection is opened and served any number of times; what
`send` took reaches the receive path of the next program in chunks that fit its ring.  Then the
messages handed on there are the first of those that were placed on the send ring, in order and byte
for byte, and the receive ring holds what has arrived of the next one. -/
theorem relayed (junk : ℕ → ℕ → Bfr) (mem : Bfr) (newChanInfo : ChannelInfo) (dataRing : DataRing)
    {io : ServerIO} {chanInfoG : ChannelInfo} {listenerNo conn : ℕ} {t t' : ServerThread}
    {data : ConnectionData} {passes : List ServicePass} {es : List FrameEvent}
    {chunks : List (List UInt8)} {rest : List UInt8}
    (hopen : t.getNewConnection io chanInfoG listenerNo = .ok (t', [.opened conn]))
    (hrun : (connMachine conn).run (t'.connData conn) passes = some (data, es))
    (hsound : ∀ p ∈ passes, p.Sound)
    (hcut : chunks.flatten ++ rest = wire es)
    (hfits : Fits junk chunks ⟨RingSet.alloc BFRSIZE mem, newChanInfo, dataRing⟩) :
    ∃ ms done todo p' events, messages es = ms.map Message.encode ∧ ms = done ++ todo ∧
      deliverAll junk chunks ⟨RingSet.alloc BFRSIZE mem, newChanInfo, dataRing⟩ =
        .ok (p', events) ∧
      events.map RcvEvent.item = done.map Message.item ∧
      encodeAll done ++ p'.ring.contents = chunks.flatten ∧
      Incomplete p'.ring.contents todo := by
  have hframed : Framed data passes es := by
    rcases getNewConnection_cases hopen with ⟨-, hes⟩ | ⟨remoteIp, newConn, -, -, hopen', hes⟩
    · cases hes
    · cases hes
      obtain ⟨record, hdata⟩ := openConnection_connData hopen'
      refine Machine.run_ind_labels Framed ?_ ?_ hrun
      · rw [hdata, Function.update_self]
        exact Framed.opened io chanInfoG record
      · exact fun _ _ _ _ _ _ h hstep => h.step (passMove_of_step hstep)
  obtain ⟨ms, hms⟩ := hframed.exists_messages hsound
  have hnil := RingSet.contents_alloc BFRSIZE mem
  have hstream : (RingSet.alloc BFRSIZE mem).contents ++ chunks.flatten ++
      (rest ++ data.sendRing.contents) = encodeAll ms := by
    rw [hnil, List.nil_append, ← List.append_assoc, hcut, hframed.stream, hms, encodeAll,
      List.flatMap_def]
  have hinc : Incomplete (RingSet.alloc BFRSIZE mem).contents ms := by
    rw [hnil]
    cases ms with
    | nil => rfl
    | cons m ms => exact ⟨List.nil_prefix, m.length_encode_pos⟩
  obtain ⟨done, todo, p', events, hsplit, hall, hparsed⟩ :=
    deliverAll_messages junk hfits hstream hinc
  have hbytes := hparsed.bytes
  rw [hnil, List.nil_append] at hbytes
  exact ⟨ms, done, todo, p', events, hms, hsplit, hall, hparsed.items, hbytes, hparsed.rest⟩

/-- A client that connects and requests data, the text for it and the start of the next one. -/
theorem relayed_text : ∃ t' data es,
    (ServerThread.init fun _ => 0).getNewConnection connects ⟨10, 1, 1⟩ 0 =
      .ok (t', [.opened 0]) ∧
    (connMachine 0).run (t'.connData 0) (List.replicate 4 requestPass) = some (data, es) ∧
    (wire es).length = 28 ∧
    ∃ ms done todo p' events, messages es = ms.map Message.encode ∧ ms = done ++ todo ∧
      deliverAll (fun _ _ _ => 0) [wire es]
        ⟨RingSet.alloc BFRSIZE fun _ => 0, .zero, .alloc 0 Memory.zero.slots⟩ = .ok (p', events) ∧
      events.map RcvEvent.item = done.map Message.item ∧
      encodeAll done ++ p'.ring.contents = [wire es].flatten ∧
      Incomplete p'.ring.contents todo := by
  have hopen : (ServerThread.init fun _ => 0).getNewConnection connects ⟨10, 1, 1⟩ 0 =
      .ok (_, [.opened 0]) := rfl
  have hfacts : ((connMachine 0).run (.opened connects ⟨10, 1, 1⟩ (some 0))
      (List.replicate 4 requestPass)).any (fun r => decide ((wire r.2).length = 28 ∧
        Fits (fun _ _ _ => 0) [wire r.2]
          ⟨RingSet.alloc BFRSIZE fun _ => 0, .zero, .alloc 0 Memory.zero.slots⟩)) = true := by
    decide +kernel
  obtain ⟨⟨data, es⟩, hrun, htrue⟩ := (Option.any_eq_true _ _).1 hfacts
  obtain ⟨hlen, hfits⟩ := of_decide_eq_true htrue
  have hsound : ∀ p ∈ List.replicate 4 requestPass, p.Sound := by
    intro p hp
    obtain rfl := List.eq_of_mem_replicate hp
    simp [ServicePass.Sound, requestPass]
  have hcut : [wire es].flatten ++ [] = wire es := by simp
  exact ⟨_, data, es, hopen, hrun, hlen, relayed _ _ _ _ hopen hrun hsound hcut hfits⟩

end SdrProxy
