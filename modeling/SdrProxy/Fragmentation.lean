import SdrProxy.Scan

/-!
# The stream parser does not depend on fragmentation

A stream of well-formed messages, cut anywhere, stored on the receive ring piece by piece and
parsed after each piece.

* `Message` is what a well-behaved server sends: a channel info text or an A/D packet; a value of
  the type is well formed.
* `turn_encode`, `turn_of_isPrefixOf` : on a ring that starts on a message boundary one turn takes
  exactly the first message, and leaves an incomplete one alone, whatever tokens its payload
  contains;
* `deliverAll_messages`, `parse_fragmented` : so the messages handed on are those wholly
  delivered, in order, and the ring holds the delivered bytes of the next one.
-/

namespace SdrProxy

open Stdio

/-- An A/D packet as a server sends it. -/
structure AdcMessage where
  /-- The flags of the preheader. -/
  flags : UInt8
  /-- The bytes between the preheader and the check byte. -/
  payload : List UInt8
  min_datalen : DATAHDRLEN + CRCLEN ≤ payload.length + CRCLEN
  max_datalen : PREHDRLEN + (payload.length + CRCLEN) ≤ BFRSIZE
  low_byte : (payload.length + CRCLEN) % 256 ≠ 0

namespace AdcMessage

/-- The length field. -/
def len (m : AdcMessage) : ℕ := m.payload.length + CRCLEN

/-- The packet from the length field on, without its check byte. -/
def body (m : AdcMessage) : List UInt8 :=
  [UInt8.ofNat (m.len % 256), UInt8.ofNat (m.len / 256), ADC_AD_DATA, m.flags] ++ m.payload

/-- The bytes of the packet. -/
def encode (m : AdcMessage) : List UInt8 :=
  ADCTOKEN ++ m.body ++ [m.body.foldl (fun crc b => crc ^^^ b) 0]

variable (m : AdcMessage)

theorem length_encode : m.encode.length = PREHDRLEN + m.len := by
  simp only [encode, body, len, List.length_append, List.length_cons, List.length_nil, ADCTOKEN,
    PREHDRLEN, CRCLEN]
  omega

theorem token_isPrefixOf : ADCTOKEN <+: m.encode := by
  rw [encode, List.append_assoc]
  exact List.prefix_append _ _

theorem len_lt : m.len < 65536 := by
  have := m.max_datalen
  simp only [len, BFRSIZE, PREHDRLEN] at this ⊢
  omega

theorem len_pos : 0 < m.len := Nat.succ_pos _

theorem getD_four : m.encode.getD 4 0 = UInt8.ofNat (m.len % 256) := rfl

theorem getD_five : m.encode.getD 5 0 = UInt8.ofNat (m.len / 256) := rfl

theorem getD_six : m.encode.getD 6 0 = ADC_AD_DATA := rfl

theorem getD_four_ne : m.encode.getD 4 0 ≠ 0 := by
  rw [getD_four]
  intro h
  have := congrArg UInt8.toNat h
  rw [UInt8.toNat_ofNat'] at this
  have hlow := m.low_byte
  simp only [len] at this hlow
  have h0 : (0 : UInt8).toNat = 0 := rfl
  omega

theorem datalen_encode : datalen m.encode = m.len := by
  have := m.len_lt
  rw [datalen, getD_four, getD_five, UInt8.toNat_ofNat', UInt8.toNat_ofNat']
  omega

theorem crcOk_encode : CrcOk m.encode := by
  have hlen := m.length_encode
  have hbody : m.body.length = m.encode.length - 5 := by
    simp only [encode, List.length_append, ADCTOKEN, List.length_cons, List.length_nil]
    omega
  have hdrop : m.encode.drop 4 = m.body ++ [m.body.foldl (fun crc b => crc ^^^ b) 0] := rfl
  have hlast : m.encode.length - 1 = (ADCTOKEN ++ m.body).length := by
    simp only [encode, List.length_append, List.length_cons, List.length_nil]
    omega
  rw [CrcOk, hdrop, ← hbody, List.take_left, hlast, encode, List.getD_append_right _ _ _ _ le_rfl,
    Nat.sub_self]
  rfl

end AdcMessage

/-- A message of the remote server. -/
inductive Message where
  /-- The text of a configuration that `check_channel_info` accepts. -/
  | chan (c : ChannelInfo) (valid : c.Valid)
  /-- An A/D packet. -/
  | adc (m : AdcMessage)

namespace Message

/-- The bytes of a message. -/
def encode : Message → List UInt8
  | chan c _ => chanInfoText c
  | adc m => m.encode

/-- What the receive path has to hand on for a message. -/
def item : Message → Item
  | chan c _ => .chan c
  | adc m => .adc m.encode

end Message

theorem Message.length_encode_pos (m : Message) : 0 < m.encode.length := by
  cases m with
  | chan c hvalid =>
    rw [encode, length_chanInfoText hvalid]
    decide
  | adc m =>
    have := m.length_encode
    have := m.len_pos
    rw [encode]
    omega

/-- A valid text is accepted as what it says. -/
theorem acceptedInfo_chanInfoText {c : ChannelInfo} (h : c.Valid) :
    acceptedInfo (chanInfoText c) = some c := by
  have hcheck : checkChannelInfo c.sps c.numChannels c.type = 0 := h
  simp only [acceptedInfo, sscanf_chanInfoText, hcheck, ↓reduceIte, Int.toNat_natCast]

theorem chanToken_isPrefixOf (c : ChannelInfo) : CHANTOKEN <+: chanInfoText c := by
  simp only [chanInfoText, List.append_assoc]
  exact List.prefix_append _ _

theorem validText_chanInfoText {c : ChannelInfo} (h : c.Valid) : ValidText (chanInfoText c) c :=
  ⟨length_chanInfoText h, chanToken_isPrefixOf c, acceptedInfo_chanInfoText h⟩

/-- Bytes that cannot start a packet hide no token at their front. -/
theorem adcAt_ne_zero {s : List UInt8} {b : UInt8} (hb : b ≠ 0xAA) :
    adcAt false (b :: s) ≠ some 0 := by
  intro h
  obtain ⟨u, hu⟩ := (findSub_eq_some_iff.1 h).2.1
  exact hb (List.cons.inj hu).1.symm

/-- **On a message boundary one turn takes exactly the first message.** -/
theorem turn_encode (m : Message) (rest : List UInt8) :
    turn false (m.encode ++ rest) = some ⟨true, rest, some m.item⟩ := by
  cases m with
  | chan c hvalid =>
    have htext := validText_chanInfoText hvalid
    have hchan : chanAt (chanInfoText c ++ rest) = some 0 :=
      chanAt_eq_some.2 ⟨findSub_of_isPrefixOf (htext.token.trans (List.prefix_append _ _)),
        htext.chanTextAt [] rest⟩
    -- a packet may follow the text, but none begins where the text does
    have hadc : adcAt false (chanInfoText c ++ rest) ≠ some 0 := adcAt_ne_zero (by decide)
    have hfirst : ∀ a, adcAt false (chanInfoText c ++ rest) = some a → 0 < a := by
      intro a ha
      apply Nat.pos_of_ne_zero
      rintro rfl
      exact hadc ha
    rw [Message.encode, turn_eq_chan hchan hfirst, List.drop_zero, htext.chanTurn]
    rfl
  | adc m =>
    have hadc : adcAt false (m.encode ++ rest) = some 0 :=
      findSub_of_isPrefixOf (m.token_isPrefixOf.trans (List.prefix_append _ _))
    -- the header is that of the packet, whatever follows
    have hget : ∀ j < PREHDRLEN, (m.encode ++ rest).getD j 0 = m.encode.getD j 0 := by
      intro j hj
      exact getD_eq_of_isPrefixOf (List.prefix_append _ _) (by rw [m.length_encode]; omega)
    have hdata : datalen (m.encode ++ rest) = m.len := by
      rw [← m.datalen_encode, datalen, datalen, hget 4 (by decide), hget 5 (by decide)]
    have hturn : adcTurn (m.encode ++ rest) = some ⟨true, rest, some (.adc m.encode)⟩ := by
      have hlt : PREHDRLEN < (m.encode ++ rest).length := by
        have := m.len_pos
        rw [List.length_append, m.length_encode]
        omega
      have hle : PREHDRLEN + m.len ≤ (m.encode ++ rest).length := by
        rw [List.length_append, m.length_encode]
        omega
      have hne : (m.encode ++ rest).getD 4 0 ≠ 0 := by
        rw [hget 4 (by decide)]
        exact m.getD_four_ne
      have htake : (m.encode ++ rest).take (PREHDRLEN + m.len) = m.encode := by
        rw [← m.length_encode, List.take_left]
      have hdrop : (m.encode ++ rest).drop (PREHDRLEN + m.len) = rest := by
        rw [← m.length_encode, List.drop_left]
      simp only [adcTurn, hlt, hne, hdata, hle, htake, hdrop, m.crcOk_encode, m.getD_six, and_self,
        ↓reduceIte]
    rw [Message.encode, turn_eq_adc hadc fun _ _ => Nat.zero_le _, List.drop_zero, hturn]
    rfl

/-- No text stands in fewer bytes than a text has. -/
theorem chanAt_eq_none_of_length {s : List UInt8} (h : s.length < CHANINFOLEN) :
    chanAt s = none := by
  cases hc : chanAt s with
  | none => rfl
  | some i =>
    have := (chanAt_eq_some.1 hc).2.1
    omega

/-- **An incomplete message is left alone.** -/
theorem turn_of_isPrefixOf (m : Message) {s : List UInt8} (hp : s <+: m.encode)
    (hlt : s.length < m.encode.length) : turn false s = some ⟨false, s, none⟩ := by
  cases m with
  | chan c hvalid =>
    have hchan : chanAt s = none :=
      chanAt_eq_none_of_length (by rw [← length_chanInfoText hvalid]; exact hlt)
    have hadc : adcAt false s = none := by
      -- the text is plain characters, the token of a packet is not
      apply findSub_eq_none_of_not_mem (b := 0xAA) (by decide)
      intro hmem
      exact absurd (mem_chanInfoText (hp.subset hmem)).2 (by decide)
    exact turn_eq_none hchan hadc
  | adc m =>
    have hlen : s.length < PREHDRLEN + m.len := by rwa [← m.length_encode]
    have hget : ∀ j < s.length, s.getD j 0 = m.encode.getD j 0 := by
      intro j hj
      exact (getD_eq_of_isPrefixOf hp hj).symm
    have hturn : adcTurn s = some ⟨false, s, none⟩ := by
      by_cases hhdr : PREHDRLEN < s.length
      · have h8 : PREHDRLEN = 8 := rfl
        have hne : s.getD 4 0 ≠ 0 := by
          rw [hget 4 (by omega)]
          exact m.getD_four_ne
        have hdata : datalen s = m.len := by
          rw [← m.datalen_encode, datalen, datalen, hget 4 (by omega), hget 5 (by omega)]
        have hnot : ¬ PREHDRLEN + m.len ≤ s.length := by omega
        simp only [adcTurn, hhdr, hne, hdata, hnot, ↓reduceIte]
      · simp only [adcTurn, hhdr, ↓reduceIte]
    by_cases htok : ADCTOKEN.length ≤ s.length
    · -- the token is found, but the packet behind it is not whole
      have hadc : adcAt false s = some 0 :=
        findSub_of_isPrefixOf (List.prefix_of_prefix_length_le m.token_isPrefixOf hp htok)
      rw [turn_eq_adc hadc fun _ _ => Nat.zero_le _, List.drop_zero, hturn]
    · -- not even the token is whole
      have h4 : ADCTOKEN.length = 4 := rfl
      have h25 : CHANINFOLEN = 25 := rfl
      have hadc : adcAt false s = none := by
        apply findSub_eq_none_iff.2
        intro j _ h
        have := h.length_le
        rw [List.length_drop] at this
        omega
      exact turn_eq_none (chanAt_eq_none_of_length (by omega)) hadc

theorem turn_nil : turn false [] = some ⟨false, [], none⟩ := by decide

/-! ### Streams of messages -/

/-- The bytes of a stream of messages. -/
def encodeAll (ms : List Message) : List UInt8 := ms.flatMap Message.encode

theorem encodeAll_append (ms ms' : List Message) :
    encodeAll (ms ++ ms') = encodeAll ms ++ encodeAll ms' := List.flatMap_append

/-- `s` is what has arrived of the messages `ms`, less than the first of them. -/
def Incomplete (s : List UInt8) (ms : List Message) : Prop :=
  match ms with
  | [] => s = []
  | m :: _ => s <+: m.encode ∧ s.length < m.encode.length

/-- Of the bytes `got` of a stream of messages the messages `done` were handed on, and `held` is
kept, less than the first of the messages `todo`. -/
structure Parsed (done todo : List Message) (got held : List UInt8) (events : List RcvEvent) :
    Prop where
  items : events.map RcvEvent.item = done.map Message.item
  bytes : encodeAll done ++ held = got
  rest : Incomplete held todo

namespace Parsed

variable {done done' todo : List Message} {got held more mid : List UInt8}
variable {events events' : List RcvEvent}

/-- Nothing is handed on. -/
theorem of_incomplete (h : Incomplete held todo) (hnone : events.map RcvEvent.item = []) :
    Parsed [] todo held held events := ⟨hnone, rfl, h⟩

theorem cons {m : Message} (h : Parsed done todo got held events)
    (hfirst : events'.map RcvEvent.item = [m.item]) :
    Parsed (m :: done) todo (m.encode ++ got) held (events' ++ events) where
  items := by
    rw [List.map_append, hfirst, h.items]
    rfl
  bytes := by
    rw [← h.bytes, ← List.append_assoc]
    rfl
  rest := h.rest

theorem append (h : Parsed done (done' ++ todo) got mid events)
    (h' : Parsed done' todo (mid ++ more) held events') :
    Parsed (done ++ done') todo (got ++ more) held (events ++ events') where
  items := by rw [List.map_append, List.map_append, h.items, h'.items]
  bytes := by
    rw [encodeAll_append, List.append_assoc, h'.bytes, ← List.append_assoc, h.bytes]
  rest := h'.rest

end Parsed

/-- One pass takes the messages wholly on the ring and leaves what has arrived of the next. -/
theorem checkDataLoop_messages (junk : ℕ → Bfr) {ms : List Message} {rest : List UInt8} {fuel : ℕ}
    {p : RcvPath} (hfuel : p.ring.bytesStored < fuel)
    (hcut : p.ring.contents ++ rest = encodeAll ms) :
    ∃ done todo p' events, ms = done ++ todo ∧
      checkDataLoop false junk fuel p = .ok (false, p', events) ∧
      Parsed done todo p.ring.contents p'.ring.contents events := by
  induction fuel generalizing ms p with
  | zero => omega
  | succ fuel ih =>
    have hlen := RingSet.length_contents p.ring
    -- a turn that takes nothing ends the pass
    have hstop : turn false p.ring.contents = some ⟨false, p.ring.contents, none⟩ →
        Incomplete p.ring.contents ms → ∃ done todo p' events, ms = done ++ todo ∧
          checkDataLoop false junk (fuel + 1) p = .ok (false, p', events) ∧
          Parsed done todo p.ring.contents p'.ring.contents events := by
      intro hturn hinc
      obtain ⟨p', events, hloop, hagrees⟩ := checkDataLoop_stop hturn rfl
      refine ⟨[], ms, p', events, rfl, hloop, ?_⟩
      rw [hagrees.contents]
      exact .of_incomplete hinc hagrees.handed.map_item
    cases ms with
    | nil =>
      have hnil : p.ring.contents = [] := (List.append_eq_nil_iff.1 hcut).1
      exact hstop (by rw [hnil]; exact turn_nil) hnil
    | cons m ms =>
      have hcut' : p.ring.contents ++ rest = m.encode ++ encodeAll ms := hcut
      have hp₁ : p.ring.contents <+: m.encode ++ encodeAll ms := ⟨rest, hcut'⟩
      have hp₂ : m.encode <+: m.encode ++ encodeAll ms := List.prefix_append _ _
      by_cases hle : m.encode.length ≤ p.ring.contents.length
      · -- the first message is whole: one turn takes it, the loop goes on behind it
        obtain ⟨s, hs⟩ : m.encode <+: p.ring.contents :=
          List.prefix_of_prefix_length_le hp₂ hp₁ hle
        have hturn : turn false p.ring.contents = some ⟨true, s, some m.item⟩ := by
          rw [← hs, turn_encode]
        obtain ⟨p₁, events₁, hagrees, hgo⟩ := checkDataLoop_go hturn rfl
        have hcont : p₁.ring.contents = s := hagrees.contents
        have hshort : p₁.ring.bytesStored < fuel := by
          have hshorter := turn_length hturn rfl
          dsimp only at hshorter
          rw [← RingSet.length_contents, hcont]
          omega
        have hcut₁ : p₁.ring.contents ++ rest = encodeAll ms := by
          rw [hcont]
          rw [← hs, List.append_assoc] at hcut'
          exact List.append_cancel_left hcut'
        obtain ⟨done, todo, p', events, rfl, hloop, hparsed⟩ := ih hshort hcut₁
        refine ⟨m :: done, todo, p', events₁ ++ events, rfl, hgo _ _ _ hloop, ?_⟩
        rw [← hs, ← hcont]
        exact hparsed.cons hagrees.handed.map_item
      · have hpre : p.ring.contents <+: m.encode :=
          List.prefix_of_prefix_length_le hp₁ hp₂ (by omega)
        exact hstop (turn_of_isPrefixOf m hpre (by omega)) ⟨hpre, by omega⟩

/-! ### Chunks -/

/-- `RING_STORE` of a chunk on the receive ring and a pass of `check_data`. -/
def deliver (junk : ℕ → Bfr) (chunk : List UInt8) (p : RcvPath) :
    Except String (RcvPath × List RcvEvent) :=
  checkData false junk { p with ring := (p.ring.store chunk).2 }

/-- Chunks delivered one after the other, in passes with `inhibit_adc` clear; the buffer contents
differ from pass to pass. -/
def deliverAll (junk : ℕ → ℕ → Bfr) :
    List (List UInt8) → RcvPath → Except String (RcvPath × List RcvEvent)
  | [], p => .ok (p, [])
  | chunk :: chunks, p => do
    let (p, events) ← deliver (junk chunks.length) chunk p
    let (p, events') ← deliverAll junk chunks p
    return (p, events ++ events')

/-- Every chunk fits the free space the ring has when it arrives. -/
def Fits (junk : ℕ → ℕ → Bfr) : List (List UInt8) → RcvPath → Prop
  | [], _ => True
  | chunk :: chunks, p => chunk.length ≤ p.ring.bytesFree ∧
    match deliver (junk chunks.length) chunk p with
    | .ok (p, _) => Fits junk chunks p
    | .error _ => True

instance decidableFits (junk : ℕ → ℕ → Bfr) :
    (chunks : List (List UInt8)) → (p : RcvPath) → Decidable (Fits junk chunks p)
  | [], _ => .isTrue trivial
  | chunk :: chunks, p =>
    have : Decidable (match deliver (junk chunks.length) chunk p with
        | .ok (p, _) => Fits junk chunks p
        | .error _ => True) :=
      match deliver (junk chunks.length) chunk p with
      | .ok (p, _) => decidableFits junk chunks p
      | .error _ => .isTrue trivial
    inferInstanceAs (Decidable (_ ∧ _))

/-- One delivery takes the messages that are now wholly on the ring. -/
theorem deliver_messages_step (junk : ℕ → Bfr) {ms : List Message} {chunk rest : List UInt8}
    {p : RcvPath} (hfits : chunk.length ≤ p.ring.bytesFree)
    (hcut : p.ring.contents ++ chunk ++ rest = encodeAll ms) :
    ∃ done todo p' events, ms = done ++ todo ∧ deliver junk chunk p = .ok (p', events) ∧
      Parsed done todo (p.ring.contents ++ chunk) p'.ring.contents events := by
  have hstore := RingSet.contents_store hfits
  rw [← hstore] at hcut ⊢
  obtain ⟨done, todo, p', events, hms, hloop, hparsed⟩ :=
    checkDataLoop_messages (p := { p with ring := (p.ring.store chunk).2 }) junk
      (Nat.lt_succ_self _) hcut
  refine ⟨done, todo, p', events, hms, ?_, hparsed⟩
  simp only [deliver, checkData, hloop]
  rfl

/-- Deliveries that go on from a ring which holds part of a message. -/
theorem deliverAll_messages (junk : ℕ → ℕ → Bfr) {ms : List Message} {chunks : List (List UInt8)}
    {rest : List UInt8} {p : RcvPath} (hfits : Fits junk chunks p)
    (hcut : p.ring.contents ++ chunks.flatten ++ rest = encodeAll ms)
    (hinc : Incomplete p.ring.contents ms) :
    ∃ done todo p' events, ms = done ++ todo ∧ deliverAll junk chunks p = .ok (p', events) ∧
      Parsed done todo (p.ring.contents ++ chunks.flatten) p'.ring.contents events := by
  induction chunks generalizing ms p with
  | nil =>
    refine ⟨[], ms, p, [], rfl, rfl, ?_⟩
    rw [List.flatten_nil, List.append_nil]
    exact .of_incomplete hinc rfl
  | cons chunk chunks ih =>
    obtain ⟨hfit, hfits⟩ := hfits
    rw [List.flatten_cons, ← List.append_assoc, List.append_assoc _ chunks.flatten] at hcut
    obtain ⟨done, todo, p₁, events, rfl, hdeliver, hparsed⟩ :=
      deliver_messages_step (junk chunks.length) hfit hcut
    rw [hdeliver] at hfits
    rw [← hparsed.bytes, encodeAll_append, List.append_assoc] at hcut
    have hcut₁ : p₁.ring.contents ++ chunks.flatten ++ rest = encodeAll todo := by
      rw [List.append_assoc]
      exact List.append_cancel_left hcut
    obtain ⟨done', todo', p₂, events', rfl, hall, hparsed'⟩ := ih hfits hcut₁ hparsed.rest
    refine ⟨done ++ done', todo', p₂, events ++ events', (List.append_assoc _ _ _).symm, ?_, ?_⟩
    · simp only [deliverAll, hdeliver, bind, Except.bind, hall]
      rfl
    · rw [List.flatten_cons, ← List.append_assoc]
      exact hparsed.append hparsed'

/-- **The stream parser is independent of fragmentation.**  Whatever way the bytes of a sequence of
messages are cut into chunks that fit, after any number of chunks the messages handed on are those
wholly delivered, in order and byte for byte, and the ring holds the delivered bytes of the one
message that is not yet complete. -/
theorem parse_fragmented (junk : ℕ → ℕ → Bfr) (mem : Bfr) (newChanInfo : ChannelInfo)
    (dataRing : DataRing) (ms : List Message) (chunks : List (List UInt8)) (rest : List UInt8)
    (hcut : chunks.flatten ++ rest = encodeAll ms)
    (hfits : Fits junk chunks ⟨RingSet.alloc BFRSIZE mem, newChanInfo, dataRing⟩) :
    ∃ done todo p' events, ms = done ++ todo ∧
      deliverAll junk chunks ⟨RingSet.alloc BFRSIZE mem, newChanInfo, dataRing⟩ =
        .ok (p', events) ∧
      events.map RcvEvent.item = done.map Message.item ∧
      encodeAll done ++ p'.ring.contents = chunks.flatten ∧
      Incomplete p'.ring.contents todo := by
  have hnil := RingSet.contents_alloc BFRSIZE mem
  have hinc : Incomplete (RingSet.alloc BFRSIZE mem).contents ms := by
    rw [hnil]
    cases ms with
    | nil => rfl
    | cons m ms => exact ⟨List.nil_prefix, m.length_encode_pos⟩
  have hcut' : (RingSet.alloc BFRSIZE mem).contents ++ chunks.flatten ++ rest = encodeAll ms := by
    rw [hnil, List.nil_append, hcut]
  obtain ⟨done, todo, p', events, hms, hrun, hparsed⟩ :=
    deliverAll_messages junk hfits hcut' hinc
  have hbytes := hparsed.bytes
  rw [hnil, List.nil_append] at hbytes
  exact ⟨done, todo, p', events, hms, hrun, hparsed.items, hbytes, hparsed.rest⟩

/-- A text and a packet, cut inside the packet. -/
theorem parse_fragmented_two :
    let ms := [Message.chan ⟨100, 4, 1⟩ (by decide),
      .adc ⟨0, List.replicate 22 0, by decide, by decide, by decide⟩]
    let chunks := [(encodeAll ms).take 40, (encodeAll ms).drop 40]
    ∃ done todo p' events, ms = done ++ todo ∧
      deliverAll (fun _ _ _ => 0) chunks
        ⟨RingSet.alloc BFRSIZE fun _ => 0, .zero,
          .alloc 31 fun _ => ⟨⟨0, 0, 0, false⟩, fun _ => 0⟩⟩ = .ok (p', events) ∧
      events.map RcvEvent.item = done.map Message.item ∧
      encodeAll done ++ p'.ring.contents = chunks.flatten ∧
      Incomplete p'.ring.contents todo :=
  parse_fragmented _ _ _ _ _ _ [] (by decide) (by decide +kernel)

end SdrProxy
