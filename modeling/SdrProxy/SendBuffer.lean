import SdrProxy.Arrival
import SdrProxy.Containment

/-!
# The buffer of a send

`send_to_client` copies all of the send ring into a buffer of `MAXPACKETSIZE` bytes, the length of
a packet of `MAXDATAPERSEC` samples.  The ring has room for one second of samples, of whatever
configuration `check_channel_info` accepts.

* `sendMachine` : a connection under `put_channel_data`, `put_adc_data` and `send_to_client`, called
  in any order;
* `CopyFits` : what is on the ring never exceeds the buffer;
* `bfrsize_of_step` : the capacity of the ring stays that of the configuration;
* `exists_overflow` : two packets of 3500 bytes exceed the buffer, if the ring has room for both;
* `copyFits_iff` : the copy fits exactly for configurations of up to `MAXDATAPERSEC` samples a
  second; `copy_overflows` is about one that has more.
-/

namespace SdrProxy

/-- A cache of packets that are no longer than `sdr_pkt_size` and `BFRSIZE`. -/
structure SizedCache (c : ChannelInfo) where
  /-- The data ring. -/
  dataRing : DataRing
  ring_ok : dataRing.Ok
  length_le : ∀ e ∈ dataRing.entries, e.2.2.length ≤ sdrPktSize c ∧ e.2.2.length ≤ BFRSIZE

/-- A call that works on the send ring of a connection. -/
inductive SendMove (c : ChannelInfo) where
  /-- `put_channel_data`. -/
  | text
  /-- `put_adc_data`. -/
  | adc (now : ℤ) (cache : SizedCache c)
  /-- `send_to_client`, with the outcome of `send`. -/
  | send (res : SendResult)

/-- The calls for one connection, in any order. -/
def sendMachine (c : ChannelInfo) : Machine Conn (SendMove c) Event where
  step s l := match l with
    | .text =>
      let (_, data, es) := putChannelData c 0 s.data
      some ({ s with data := data }, es)
    | .adc now cache => match putAdcData cache.dataRing now 0 s with
      | .ok (_, s', es) => some (s', es)
      | .error _ => none
    | .send res => match sendToClient res s.data with
      | .ok (_, data) => some ({ s with data := data }, [])
      | .error _ => none

/-- After whatever calls for a connection opened under `c`, the send ring holds no more bytes than
the buffer that `send_to_client` copies them to. -/
def CopyFits (c : ChannelInfo) : Prop :=
  ∀ (io : ServerIO) (record : Option ℕ) (hist : HistHeap) (moves : List (SendMove c)) (s : Conn)
    (es : List Event), (sendMachine c).run ⟨.opened io c record, hist⟩ moves = some (s, es) →
    s.data.sendRing.bytesStored ≤ MAXPACKETSIZE

variable {c : ChannelInfo} {s s' : Conn} {l : SendMove c} {es : List Event}

/-- No call changes the capacity of the ring. -/
theorem bfrsize_of_step (h : (sendMachine c).step s l = some (s', es)) :
    s'.data.sendRing.bfrsize = s.data.sendRing.bfrsize := by
  cases l with
  | text =>
    simp only [sendMachine, putChannelData] at h
    split_ifs at h <;> cases h
    · exact RingSet.bfrsize_store _ _
    · rfl
  | adc now cache =>
    simp only [sendMachine] at h
    cases hput : putAdcData cache.dataRing now 0 s with
    | error msg =>
      rw [hput] at h
      cases h
    | ok r =>
      obtain ⟨rv, s₁, es₁⟩ := r
      rw [hput] at h
      cases h
      obtain ⟨record, -, hmove⟩ := putMove_of_eq hput
      cases hmove with
      | nothing _ => rfl
      | full _ _ _ _ => rfl
      | placed element pkt _ _ => exact RingSet.bfrsize_store _ _
  | send res =>
    simp only [sendMachine] at h
    cases hsend : sendToClient res s.data with
    | error msg =>
      rw [hsend] at h
      cases h
    | ok r =>
      obtain ⟨rv, data⟩ := r
      rw [hsend] at h
      cases h
      unfold sendToClient at hsend
      dsimp only at hsend
      split_ifs at hsend
      · split at hsend <;> cases hsend <;> rfl
      · cases hsend
        exact RingSet.bfrsize_delete _ _

theorem sendBfrSize_eq (c : ChannelInfo) :
    ServerThread.sendBfrSize c = 31 + 4 * (c.sps * c.numChannels) := by
  simp only [ServerThread.sendBfrSize, PREHDRLEN, DATAHDRLEN, ADCDATASIZE]
  omega

/-- **A ring that is no larger than the buffer is copied in full.** -/
theorem copyFits_of_le (h : c.sps * c.numChannels ≤ MAXDATAPERSEC) : CopyFits c := by
  intro io record hist moves s es hrun
  have hsize : s.data.sendRing.bfrsize = ServerThread.sendBfrSize c + 1 := by
    refine Machine.run_ind (fun s _ => s.data.sendRing.bfrsize = ServerThread.sendBfrSize c + 1)
      (RingSet.bfrsize_alloc _ _) ?_ hrun
    intro s l s' es es' hs hstep
    exact (bfrsize_of_step hstep).trans hs
  have hlt := s.data.sendRing.bytesStored_lt
  rw [hsize, sendBfrSize_eq] at hlt
  simp only [MAXDATAPERSEC] at h
  simp only [MAXPACKETSIZE, MAXDATAPERSEC, VMBYTES, PREHDRLEN, DATAHDRLEN, CRCLEN]
  omega

/-! ### Too many samples -/

/-- A packet of 3500 bytes of the second `sec`. -/
def longPacket (sec : ℕ) : PacketInfo × Bfr := (⟨3500, sec, sec, true⟩, fun _ => 0)

theorem length_longPacket (sec : ℕ) :
    (DataRing.entry (longPacket sec).1 (longPacket sec).2).2.2.length = 3500 := by
  rw [DataRing.entry, Bfr.length_read, longPacket]

/-- A cache with two such packets, of the seconds 1 and 2. -/
theorem exists_longPackets : ∃ r : DataRing, r.Ok ∧ (∀ e ∈ r.entries, e.2.2.length = 3500) ∧
    (∃ pkt, (r.retr 0).2 = some ((longPacket 1).1, pkt)) ∧
    ∃ pkt, (r.retr (longPacket 1).1.packetTime).2 = some ((longPacket 2).1, pkt) := by
  have htwo : ([longPacket 1, longPacket 2].map fun packet => packet.1.packetTime).Nodup := by
    decide
  obtain ⟨l, hperm, hinc, r, -, hok, hentries⟩ := entries_storeAll htwo 0 Memory.zero.slots
  have hl : l = entriesOf [longPacket 1, longPacket 2] := by
    refine hinc.eq_of_perm ?_ hperm
    rw [FinMap.Increasing]
    refine List.pairwise_pair.2 ?_
    show ((1 : ℕ) : ℚ) < (2 : ℕ)
    norm_num
  have hall : r.entries = [DataRing.entry (longPacket 1).1 (longPacket 1).2,
      DataRing.entry (longPacket 2).1 (longPacket 2).2] := by
    rw [hentries, hl]
    rfl
  refine ⟨r, hok, ?_, ⟨(longPacket 1).2.read 0 3500, ?_⟩, ⟨(longPacket 2).2.read 0 3500, ?_⟩⟩
  · intro e he
    rw [hall] at he
    rcases List.mem_pair.1 he with rfl | rfl
    · exact length_longPacket 1
    · exact length_longPacket 2
  · have hreach : (0 : PacketTime) + 1 / 1000 ≤ ((1 : ℕ) : ℚ) := by norm_num
    rw [DataRing.retr_snd hok, hall, List.find?_cons_of_pos (by exact decide_eq_true hreach)]
    rfl
  · have hbefore : ¬ ((1 : ℕ) : ℚ) + 1 / 1000 ≤ ((1 : ℕ) : ℚ) := by norm_num
    have hreach : ((1 : ℕ) : ℚ) + 1 / 1000 ≤ ((2 : ℕ) : ℚ) := by norm_num
    rw [DataRing.retr_snd hok, hall,
      List.find?_cons_of_neg (by exact fun h => hbefore (of_decide_eq_true h)),
      List.find?_cons_of_pos (by exact decide_eq_true hreach)]
    rfl

/-- Only 500 samples a second on 4 or more channels exceed the limit. -/
theorem valid_lt {c : ChannelInfo} (h : c.Valid) (hlt : MAXDATAPERSEC < c.sps * c.numChannels) :
    2000 ≤ c.sps * c.numChannels := by
  obtain ⟨⟨-, hch⟩, -, hsps⟩ := ChannelInfo.valid_iff.1 h
  simp only [valid_sps, List.mem_cons, List.not_mem_nil, or_false] at hsps
  simp only [MAXDATAPERSEC] at hlt
  have hle : c.sps ≤ 200 ∨ c.sps = 500 := by omega
  rcases hle with hle | heq
  · have := Nat.mul_le_mul hle hch
    omega
  · rw [heq] at hlt ⊢
    omega

theorem step_text_placed (hfits : CHANINFOLEN ≤ s.data.sendRing.bytesFree) : ∃ s',
    (sendMachine c).step s .text =
      some (s', [.chanPlaced 0 ((chanInfoText c).take CHANINFOLEN)]) ∧
      s'.data.sendRing.bytesStored = s.data.sendRing.bytesStored + CHANINFOLEN ∧
      s'.hist.deref s'.data.history = s.hist.deref s.data.history := by
  have hlen := length_take_chanInfoText c
  let ring := (s.data.sendRing.store ((chanInfoText c).take CHANINFOLEN)).2
  refine ⟨{ s with data := { s.data with sendRing := ring } }, ?_, ?_, rfl⟩
  · simp only [sendMachine, putChannelData, hfits, ↓reduceIte, ring]
  · show ring.bytesStored = _
    rw [RingSet.bytesStored_store (hlen.le.trans hfits), hlen]

theorem step_adc_placed (now : ℤ) (cache : SizedCache c) {record : ConnHistData}
    {element : PacketInfo} {pkt : List UInt8} (hrec : s.hist.deref s.data.history = .ok record)
    (hretr : (cache.dataRing.retr record.lastPacketTime).2 = some (element, pkt))
    (hfits : element.packetLen ≤ s.data.sendRing.bytesFree) : ∃ s',
    (sendMachine c).step s (.adc now cache) = some (s', [.packetPlaced 0 element pkt]) ∧
      s'.data.sendRing.bytesStored = s.data.sendRing.bytesStored + element.packetLen ∧
      s'.hist.deref s'.data.history =
        .ok { record with lastPacketTime := element.packetTime, lastUpdate := now } := by
  have hlen := DataRing.length_of_retr hretr
  refine ⟨_, by simp only [sendMachine, putAdcData_placed now 0 hrec hretr hfits]; rfl, ?_, ?_⟩
  · show (s.data.sendRing.store pkt).2.bytesStored = _
    rw [RingSet.bytesStored_store (hlen.le.trans hfits), hlen]
  · exact HistHeap.deref_modify hrec _

/-- **With more samples, a text and two packets that fit on the ring do not fit in the buffer.** -/
theorem exists_overflow (h : c.Valid) (hlt : MAXDATAPERSEC < c.sps * c.numChannels)
    (io : ServerIO) : ∃ (moves : List (SendMove c)) (s : Conn) (es : List Event),
      (sendMachine c).run ⟨.opened io c (some 0), newRecord⟩ moves = some (s, es) ∧
      MAXPACKETSIZE < s.data.sendRing.bytesStored := by
  have hn := valid_lt h hlt
  obtain ⟨r, hok, hlen, ⟨pkt₁, hretr₁⟩, pkt₂, hretr₂⟩ := exists_longPackets
  have hsize : 3500 ≤ sdrPktSize c := by
    simp only [sdrPktSize, dataBfrSize, PREHDRLEN, DATAHDRLEN, CRCLEN]
    split_ifs <;> omega
  let cache : SizedCache c := ⟨r, hok, fun e he =>
    ⟨(hlen e he).le.trans hsize, (hlen e he).le.trans (by decide)⟩⟩
  have hcap := sendBfrSize_eq c
  let s₀ : Conn := ⟨.opened io c (some 0), newRecord⟩
  have hsize₀ : s₀.data.sendRing.bfrsize = ServerThread.sendBfrSize c + 1 :=
    RingSet.bfrsize_alloc _ _
  have hstored₀ : s₀.data.sendRing.bytesStored = 0 := by
    rw [← RingSet.length_contents, show s₀.data.sendRing.contents = [] from
      RingSet.contents_alloc _ _, List.length_nil]
  have hsum₀ := s₀.data.sendRing.bytesStored_add_bytesFree
  have htext : CHANINFOLEN = 25 := rfl
  have hlong : (longPacket 1).1.packetLen = 3500 := rfl
  -- the text, and the two packets behind it
  obtain ⟨s₁, hstep₁, hstored₁, hrec₁⟩ := step_text_placed (s := s₀) (c := c) (by omega)
  have hsize₁ := bfrsize_of_step hstep₁
  have hsum₁ := s₁.data.sendRing.bytesStored_add_bytesFree
  obtain ⟨s₂, hstep₂, hstored₂, hrec₂⟩ := step_adc_placed 0 cache hrec₁ hretr₁
    (show 3500 ≤ _ by omega)
  have hsize₂ := bfrsize_of_step hstep₂
  have hsum₂ := s₂.data.sendRing.bytesStored_add_bytesFree
  obtain ⟨s₃, hstep₃, hstored₃, -⟩ := step_adc_placed 0 cache hrec₂ hretr₂
    (show 3500 ≤ _ by omega)
  refine ⟨[.text, .adc 0 cache, .adc 0 cache], s₃,
    [.chanPlaced 0 ((chanInfoText c).take CHANINFOLEN), .packetPlaced 0 (longPacket 1).1 pkt₁,
      .packetPlaced 0 (longPacket 2).1 pkt₂], ?_, ?_⟩
  · rw [Machine.run_cons hstep₁, Machine.run_cons hstep₂, Machine.run_cons hstep₃]
    rfl
  · rw [hstored₃, hstored₂, hstored₁, hstored₀]
    decide

/-- **What `send_to_client` copies fits its buffer** exactly for the configurations of up to
`MAXDATAPERSEC` samples a second. -/
theorem copyFits_iff {c : ChannelInfo} (h : c.Valid) :
    CopyFits c ↔ c.sps * c.numChannels ≤ MAXDATAPERSEC := by
  constructor
  · intro hfits
    by_contra hlt
    obtain ⟨moves, s, es, hrun, hover⟩ := exists_overflow h (not_le.1 hlt) (sendOutcome 0 .EAGAIN)
    exact absurd (hfits _ _ _ _ _ _ hrun) (not_le.2 hover)
  · exact copyFits_of_le

/-- The largest configuration of 200 samples a second. -/
theorem copyFits_iff_200 : CopyFits ⟨200, 8, 4⟩ ↔ 200 * 8 ≤ MAXDATAPERSEC :=
  copyFits_iff (by decide)

/-- 500 samples a second on 4 channels pass `check_channel_info`, but do not fit. -/
theorem copy_overflows : (⟨500, 4, 4⟩ : ChannelInfo).Valid ∧ ¬ CopyFits ⟨500, 4, 4⟩ := by
  have hvalid : (⟨500, 4, 4⟩ : ChannelInfo).Valid := by decide
  refine ⟨hvalid, ?_⟩
  intro hfits
  obtain ⟨moves, s, es, hrun, hover⟩ :=
    exists_overflow hvalid (by decide) (sendOutcome 0 .EAGAIN)
  exact absurd (hfits _ _ _ _ _ _ hrun) (not_le.2 hover)

end SdrProxy
