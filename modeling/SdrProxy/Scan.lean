import SdrProxy.Client
import Mathlib.Data.List.GetD

/-!
# One turn of the receive loop on the bytes of the ring

What the loop of `check_data` does, stated on the list of bytes the ring holds: `turn` says which
bytes are taken off, what is handed on, and whether the loop goes on; its result `none` is the
`fail` of `get_adc_data`.

* `checkDataIter_turn` : the loop body of the source does this, whatever the pointers of the ring,
  the contents of the local buffer and the state of the data ring are;
* `turn_length` : a turn after which the loop goes on has taken bytes off the ring;
* `checkDataLoop_done` : the loop ends by its own condition;
* `checkData_terminates` : there is no endless run of turns, whatever the bytes are.
-/

namespace SdrProxy

open Stdio

/-- What a turn of the loop hands on: an accepted channel info or a packet for the data ring. -/
inductive Item where
  /-- `get_chan_info` accepts a channel info. -/
  | chan (c : ChannelInfo)
  /-- A packet is handed to `RING_STORE`. -/
  | adc (pkt : List UInt8)
  deriving DecidableEq

/-- The effect of a turn on the bytes. -/
structure Turn where
  /-- The loop goes on. -/
  again : Bool
  /-- The bytes left. -/
  rest : List UInt8
  /-- What was handed on. -/
  item : Option Item
  deriving DecidableEq

/-- The configuration a text announces, if it scans and passes `check_channel_info`. -/
def acceptedInfo (text : List UInt8) : Option ChannelInfo :=
  match sscanf CHANINFOSCANFMT text with
  | [sps, chans, type] =>
    if checkChannelInfo sps chans type = 0 then some ⟨sps.toNat, chans.toNat, type.toNat⟩
    else none
  | _ => none

/-- `get_chan_info` on bytes that start at the text. -/
def chanTurn (s : List UInt8) : Turn :=
  if CHANINFOLEN ≤ s.length then
    match acceptedInfo (s.take CHANINFOLEN) with
    | some c => ⟨true, s.drop CHANINFOLEN, some (.chan c)⟩
    | none => ⟨false, s.drop CHANINFOLEN, none⟩
  else ⟨false, s, none⟩

/-- The length field of the packet that starts here. -/
def datalen (s : List UInt8) : ℕ := (s.getD 4 0).toNat + 256 * (s.getD 5 0).toNat

/-- The low byte of the length field. -/
theorem datalen_mod (s : List UInt8) : datalen s % 256 = (s.getD 4 0).toNat := by
  have hlt := (s.getD 4 0).toNat_lt
  rw [datalen]
  omega

theorem datalen_mod_ne {s : List UInt8} (h : s.getD 4 0 ≠ 0) : datalen s % 256 ≠ 0 := by
  rw [datalen_mod]
  exact fun h0 => h (UInt8.toNat_inj.1 h0)

/-- The last byte is the exclusive or of those from offset 4 up to it. -/
def CrcOk (pkt : List UInt8) : Prop :=
  ((pkt.drop 4).take (pkt.length - 5)).foldl (fun crc b => crc ^^^ b) 0 =
    pkt.getD (pkt.length - 1) 0

instance (pkt : List UInt8) : Decidable (CrcOk pkt) := inferInstanceAs (Decidable (_ = _))

/-- `get_adc_data` on bytes that start at the token. -/
def adcTurn (s : List UInt8) : Option Turn :=
  if PREHDRLEN < s.length then
    if s.getD 4 0 = 0 then none
    else if PREHDRLEN + datalen s ≤ s.length then
      let pkt := s.take (PREHDRLEN + datalen s)
      if CrcOk pkt ∧ pkt.getD 6 0 = ADC_AD_DATA then
        some ⟨true, s.drop (PREHDRLEN + datalen s), some (.adc pkt)⟩
      else some ⟨true, s.drop (PREHDRLEN + datalen s), none⟩
    else some ⟨false, s, none⟩
  else some ⟨false, s, none⟩

/-- Where the first packet starts, for a pass that may take packets. -/
def adcAt (inhibitAdc : Bool) (s : List UInt8) : Option ℕ :=
  if inhibitAdc then none else findSub ADCTOKEN s

/-- One turn of the loop. -/
def turn (inhibitAdc : Bool) (s : List UInt8) : Option Turn :=
  match chanAt s, adcAt inhibitAdc s with
  | some c, some a => if c < a then some (chanTurn (s.drop c)) else adcTurn (s.drop a)
  | some c, none => some (chanTurn (s.drop c))
  | none, some a => adcTurn (s.drop a)
  | none, none => some ⟨false, s, none⟩

/-! ### Valid texts -/

/-- A channel info text that `get_chan_info` accepts as `c`: 25 bytes that begin with the token. -/
structure ValidText (text : List UInt8) (c : ChannelInfo) : Prop where
  length_eq : text.length = CHANINFOLEN
  token : CHANTOKEN <+: text
  accepted : acceptedInfo text = some c

section ValidText

variable {text : List UInt8} {c : ChannelInfo}

/-- What is accepted has been scanned to three numbers. -/
theorem length_sscanf_of_accepted (h : acceptedInfo text = some c) :
    (sscanf CHANINFOSCANFMT text).length = 3 := by
  unfold acceptedInfo at h
  split at h
  case h_1 heq => rw [heq]; rfl
  case h_2 => cases h

theorem ValidText.chanTextAt (h : ValidText text c) (u rest : List UInt8) :
    ChanTextAt (u ++ (text ++ rest)) u.length := by
  refine ⟨?_, ?_⟩
  · rw [List.length_append, List.length_append, h.length_eq]
    omega
  · rw [List.drop_left, ← h.length_eq, List.take_left, length_sscanf_of_accepted h.accepted]

theorem ValidText.chanTurn (h : ValidText text c) (rest : List UInt8) :
    chanTurn (text ++ rest) = ⟨true, rest, some (.chan c)⟩ := by
  have hle : CHANINFOLEN ≤ (text ++ rest).length := by
    rw [List.length_append, h.length_eq]
    omega
  have htake : (text ++ rest).take CHANINFOLEN = text := by rw [← h.length_eq, List.take_left]
  have hdrop : (text ++ rest).drop CHANINFOLEN = rest := by rw [← h.length_eq, List.drop_left]
  simp only [SdrProxy.chanTurn, hle, ↓reduceIte, htake, h.accepted, hdrop]

end ValidText

/-! ### Turns -/

section Turn

variable {inhibitAdc : Bool} {s : List UInt8}

theorem turn_eq_chan {c : ℕ} (hc : chanAt s = some c)
    (ha : ∀ a, adcAt inhibitAdc s = some a → c < a) :
    turn inhibitAdc s = some (chanTurn (s.drop c)) := by
  unfold turn
  cases h : adcAt inhibitAdc s with
  | none => simp only [hc]
  | some a => simp only [hc, ha a h, ↓reduceIte]

theorem turn_eq_adc {a : ℕ} (ha : adcAt inhibitAdc s = some a)
    (hc : ∀ c, chanAt s = some c → a ≤ c) : turn inhibitAdc s = adcTurn (s.drop a) := by
  unfold turn
  cases h : chanAt s with
  | none => simp only [ha]
  | some c => simp only [ha, Nat.not_lt.2 (hc c h), ↓reduceIte]

theorem turn_eq_none (hc : chanAt s = none) (ha : adcAt inhibitAdc s = none) :
    turn inhibitAdc s = some ⟨false, s, none⟩ := by
  simp only [turn, hc, ha]

theorem turn_cases (inhibitAdc : Bool) (s : List UInt8) :
    (chanAt s = none ∧ adcAt inhibitAdc s = none ∧ turn inhibitAdc s = some ⟨false, s, none⟩) ∨
    (∃ c, chanAt s = some c ∧ (∀ a, adcAt inhibitAdc s = some a → c < a) ∧
      turn inhibitAdc s = some (chanTurn (s.drop c))) ∨
    (∃ a, adcAt inhibitAdc s = some a ∧ (∀ c, chanAt s = some c → a ≤ c) ∧
      turn inhibitAdc s = adcTurn (s.drop a)) := by
  cases hc : chanAt s with
  | none =>
    cases ha : adcAt inhibitAdc s with
    | none => exact .inl ⟨rfl, rfl, turn_eq_none hc ha⟩
    | some a => exact .inr (.inr ⟨a, rfl, by simp, turn_eq_adc ha (by simp [hc])⟩)
  | some c =>
    by_cases h : ∀ a, adcAt inhibitAdc s = some a → c < a
    · exact .inr (.inl ⟨c, rfl, h, turn_eq_chan hc h⟩)
    · push Not at h
      obtain ⟨a, ha, hac⟩ := h
      have hle : ∀ c', chanAt s = some c' → a ≤ c' := fun c' hc' => by
        rw [hc, Option.some.injEq] at hc'
        omega
      exact .inr (.inr ⟨a, ha, by rwa [← hc], turn_eq_adc ha hle⟩)

end Turn

/-- What handing on means for the rest of the state. -/
inductive Handed : Option Item → RcvPath → RcvPath → List RcvEvent → Prop
  /-- Nothing was handed on. -/
  | none {p p' : RcvPath} : p'.newChanInfo = p.newChanInfo → p'.dataRing = p.dataRing →
      Handed none p p' []
  /-- A channel info was accepted. -/
  | chan {p p' : RcvPath} (c : ChannelInfo) : p'.newChanInfo = c → p'.dataRing = p.dataRing →
      Handed (some (.chan c)) p p' [.accepted c]
  /-- A packet was handed to `RING_STORE`. -/
  | adc {p p' : RcvPath} (element : PacketInfo) (pktImg : Bfr) (pkt : List UInt8) (ret : ℤ) :
      pktImg.read 0 element.packetLen = pkt → p'.newChanInfo = p.newChanInfo →
      p.dataRing.store element pktImg = .ok (ret, p'.dataRing) →
      Handed (some (.adc pkt)) p p' [.stored element pkt ret]

/-- What was handed on with an event. -/
def RcvEvent.item : RcvEvent → Item
  | accepted c => .chan c
  | stored _ pkt _ => .adc pkt

theorem Handed.map_item {item : Option Item} {p p' : RcvPath} {events : List RcvEvent}
    (h : Handed item p p' events) : events.map RcvEvent.item = item.toList := by
  cases h <;> rfl

/-- A result of a loop body that agrees with a turn. -/
structure Agrees (t : Turn) (p p' : RcvPath) (events : List RcvEvent) : Prop where
  contents : p'.ring.contents = t.rest
  bfrsize : p'.ring.bfrsize = p.ring.bfrsize
  handed : Handed t.item p p' events

variable {p p' : RcvPath} {i : ℕ}

theorem contents_skipTo {ring : RingSet} (h : i ≤ ring.bytesStored) :
    (skipTo i ring).contents = ring.contents.drop i := by
  unfold skipTo
  split_ifs with hi
  · exact RingSet.contents_delete h
  · obtain rfl : i = 0 := by omega
    rw [List.drop_zero]

@[simp] theorem bfrsize_skipTo (index : ℤ) (ring : RingSet) :
    (skipTo index ring).bfrsize = ring.bfrsize := by
  unfold skipTo
  split_ifs <;> simp

/-- `get_chan_info` with its scan and its check in one. -/
theorem getChanInfo_eq (index : ℤ) (p : RcvPath) : getChanInfo index p =
    if CHANINFOLEN ≤ (skipTo index p.ring).bytesStored then
      let ring := (skipTo index p.ring).advance CHANINFOLEN
      match acceptedInfo ((skipTo index p.ring).contents.take CHANINFOLEN) with
      | some c => (0, { p with ring := ring, newChanInfo := c }, [.accepted c])
      | none => (-1, { p with ring := ring }, [])
    else (-1, { p with ring := skipTo index p.ring }, []) := by
  unfold getChanInfo
  generalize skipTo index p.ring = ring
  by_cases hlen : CHANINFOLEN ≤ ring.bytesStored
  · simp only [hlen, ↓reduceIte, RingSet.retr_eq hlen, acceptedInfo]
    -- the scan has three directives for numbers, other counts are failures alike
    generalize sscanf CHANINFOSCANFMT (ring.contents.take CHANINFOLEN) = scanned
    rcases scanned with _ | ⟨sps, _ | ⟨chans, _ | ⟨type, _ | ⟨_, _⟩⟩⟩⟩
    case cons.cons.cons.nil =>
      by_cases hcheck : checkChannelInfo sps chans type = 0
      · simp only [hcheck, ↓reduceIte]
      · simp only [hcheck, ↓reduceIte]
    all_goals rfl
  · simp only [hlen, ↓reduceIte]

theorem getChanInfo_chanTurn (h : i ≤ p.ring.bytesStored) :
    ∃ p' events, getChanInfo i p =
        (if (chanTurn (p.ring.contents.drop i)).again then 0 else -1, p', events) ∧
      Agrees (chanTurn (p.ring.contents.drop i)) p p' events := by
  have hcont := contents_skipTo h
  have hsize := bfrsize_skipTo i p.ring
  rw [getChanInfo_eq]
  generalize skipTo (i : ℤ) p.ring = ring at hcont hsize ⊢
  rw [← hcont]
  simp only [chanTurn, RingSet.length_contents]
  by_cases hlen : CHANINFOLEN ≤ ring.bytesStored
  · have hdrop := RingSet.contents_advance hlen
    simp only [hlen, ↓reduceIte]
    cases acceptedInfo (ring.contents.take CHANINFOLEN) with
    | some c => exact ⟨_, _, rfl, ⟨hdrop, hsize, .chan c rfl rfl⟩⟩
    | none => exact ⟨{ p with ring := _ }, _, rfl, ⟨hdrop, hsize, .none rfl rfl⟩⟩
  · simp only [hlen, ↓reduceIte]
    exact ⟨{ p with ring := ring }, _, rfl, ⟨rfl, hsize, .none rfl rfl⟩⟩

/-- `RING_STORE` never ends the program, whatever the state of the ring. -/
theorem DataRing.store_isOk (element : PacketInfo) (pktImg : Bfr) (r : DataRing) :
    ∃ ret r', r.store element pktImg = .ok (ret, r') := by
  have hcode : r.isEmpty = false →
      (r.searchDataBfr element.packetTime).1 ∈ [(-1 : ℤ), 1, 0, 2] := by
    intro hne
    have hcnt : r.datarCnt ≠ 0 := by simpa [isEmpty] using hne
    simp only [searchDataBfr, hcnt, ↓reduceIte]
    split_ifs <;> simp
  unfold store
  by_cases hempty : r.isEmpty = true
  · rw [if_pos hempty]
    exact ⟨_, _, rfl⟩
  · -- every code that the search returns has its branch in `RING_STORE`
    have hmem := hcode (by simpa using hempty)
    rw [if_neg hempty]
    generalize r.searchDataBfr element.packetTime = found at hmem
    obtain ⟨result, location⟩ := found
    dsimp only at hmem ⊢
    simp only [List.mem_cons, List.not_mem_nil, or_false] at hmem
    split_ifs <;> first | exact ⟨_, _, rfl⟩ | omega

/-! ### Packets -/

theorem getD_eq_of_isPrefixOf {s t : List UInt8} (h : s <+: t) {j : ℕ} (hj : j < s.length) :
    t.getD j 0 = s.getD j 0 := by
  obtain ⟨u, rfl⟩ := h
  rw [List.getD_append _ _ _ _ hj]

theorem load_zero_apply (junk : Bfr) {l : List UInt8} {j : ℕ} (hj : j < l.length) :
    junk.load 0 l j = l.getD j 0 := by
  have hload : junk.load 0 l (0 + j) = l[j] := Bfr.load_add hj
  rw [Nat.zero_add] at hload
  rw [hload, List.getD_eq_getElem _ _ hj]

theorem read_load_zero (junk : Bfr) {l : List UInt8} {pos n : ℕ} (h : pos + n ≤ l.length) :
    (junk.load 0 l).read pos n = (l.drop pos).take n := by
  apply List.ext_getElem
  · simp only [Bfr.length_read, List.length_take, List.length_drop]
    omega
  · intro j h₁ h₂
    rw [Bfr.length_read] at h₁
    rw [Bfr.getElem_read, load_zero_apply junk (by omega), List.getElem_take, List.getElem_drop,
      List.getD_eq_getElem]

/-- The test for the token fails the program exactly if the byte behind the token is null. -/
theorem strcmpEq_token (junk : Bfr) {s : List UInt8} (htok : ADCTOKEN <+: s)
    (hlen : PREHDRLEN < s.length) :
    strcmpEq (junk.load 0 (s.take PREHDRLEN)) ADCTOKEN = decide (s.getD 4 0 = 0) := by
  have hpre : PREHDRLEN = 8 := rfl
  have htl : ADCTOKEN.length = 4 := rfl
  have hlen8 : (s.take PREHDRLEN).length = 8 := by rw [List.length_take]; omega
  have hread : (junk.load 0 (s.take PREHDRLEN)).read 0 ADCTOKEN.length = ADCTOKEN := by
    rw [read_load_zero junk (by omega), List.drop_zero, List.take_take, htl,
      List.prefix_iff_eq_take.1 htok]
    congr 1
  have hbyte : junk.load 0 (s.take PREHDRLEN) ADCTOKEN.length = s.getD 4 0 := by
    rw [load_zero_apply junk (by omega)]
    exact (getD_eq_of_isPrefixOf (List.take_prefix _ _) (by omega)).symm
  simp only [strcmpEq, hread, hbyte, decide_true, Bool.true_and]

theorem u16_load (junk : Bfr) {s : List UInt8} (hlen : PREHDRLEN < s.length) :
    (junk.load 0 (s.take PREHDRLEN)).u16 PREHDR_POS_DATALEN = datalen s := by
  have hpre : PREHDRLEN = 8 := rfl
  have hlen8 : (s.take PREHDRLEN).length = 8 := by rw [List.length_take]; omega
  have hget : ∀ j < 8, junk.load 0 (s.take PREHDRLEN) j = s.getD j 0 := by
    intro j hj
    rw [load_zero_apply junk (by omega)]
    exact (getD_eq_of_isPrefixOf (List.take_prefix _ _) (by omega)).symm
  rw [Bfr.u16, datalen, PREHDR_POS_DATALEN, hget 4 (by omega), hget 5 (by omega)]

theorem doCrc_load (junk : Bfr) {pkt : List UInt8} {d : ℕ} (hd : 0 < d)
    (hpkt : pkt.length = PREHDRLEN + d) :
    doCrc (junk.load 0 pkt) PREHDR_POS_DATALEN (d + PREHDRLEN - 4 - 1) =
        junk.load 0 pkt (PREHDRLEN + d - 1) ↔ CrcOk pkt := by
  have hpre : PREHDRLEN = 8 := rfl
  rw [doCrc, PREHDR_POS_DATALEN, read_load_zero junk (by omega), load_zero_apply junk (by omega),
    CrcOk, hpkt, show d + PREHDRLEN - 4 - 1 = PREHDRLEN + d - 5 by omega]

theorem addToDataRing_eq (junk : Bfr) {pkt : List UInt8} {n : ℕ} (hn : pkt.length = n)
    (dataRing : DataRing) :
    ∃ element ret r', element.packetLen = n ∧
      dataRing.store element (junk.load 0 pkt) = .ok (ret, r') ∧
      addToDataRing (junk.load 0 pkt) n dataRing = .ok (r', [.stored element pkt ret]) := by
  subst hn
  obtain ⟨ret, r', hstore⟩ := DataRing.store_isOk
    { packetLen := pkt.length
      packetTime := decodePktTime (junk.load 0 pkt) PREHDRLEN
      packetId := (junk.load 0 pkt).i32 DATAHDR_POS_PACKETID
      valid := true } (junk.load 0 pkt) dataRing
  refine ⟨_, ret, r', rfl, hstore, ?_⟩
  simp only [addToDataRing, hstore, Bfr.read_load]
  rfl

/-- What `get_adc_data` returns for a turn. -/
def AdcResult (t : Option Turn) (p : RcvPath)
    (result : Except String (ℤ × RcvPath × List RcvEvent)) : Prop :=
  match t with
  | none => result = .error TOKENFAIL
  | some t => ∃ p' events, result = .ok (if t.again then 0 else -1, p', events) ∧
      Agrees t p p' events

theorem getAdcData_adcTurn (junk : Bfr) (h : i ≤ p.ring.bytesStored)
    (htok : ADCTOKEN <+: p.ring.contents.drop i) :
    AdcResult (adcTurn (p.ring.contents.drop i)) p (getAdcData i junk p) := by
  have hcont := contents_skipTo h
  have hsize := bfrsize_skipTo i p.ring
  unfold getAdcData
  generalize skipTo (i : ℤ) p.ring = ring at hcont hsize ⊢
  rw [← hcont] at htok ⊢
  have hlen := RingSet.length_contents ring
  have hpre : PREHDRLEN = 8 := rfl
  unfold adcTurn
  by_cases hhdr : PREHDRLEN < ring.bytesStored
  · have hview : (ring.view PREHDRLEN).getD [] = ring.contents.take PREHDRLEN := by
      rw [RingSet.view_eq hhdr.le]; rfl
    have hhdr' : PREHDRLEN < ring.contents.length := by omega
    simp only [hhdr, hview, strcmpEq_token junk htok hhdr', u16_load junk hhdr', hlen,
      ↓reduceIte, decide_eq_true_eq]
    by_cases hzero : ring.contents.getD 4 0 = 0
    · -- `strcmp` meets a null where the token ends: `fail`
      simp only [hzero, ↓reduceIte]
      rfl
    · simp only [hzero, ↓reduceIte]
      by_cases hall : PREHDRLEN + datalen ring.contents ≤ ring.bytesStored
      · have hd : 0 < datalen ring.contents := by
          have hmod := datalen_mod_ne hzero
          omega
        have htype : junk.load 0 (ring.contents.take PREHDRLEN) PREHDR_POS_TYPE =
            (ring.contents.take (PREHDRLEN + datalen ring.contents)).getD 6 0 := by
          rw [PREHDR_POS_TYPE, load_zero_apply junk (by rw [List.length_take]; omega),
            ← getD_eq_of_isPrefixOf (List.take_prefix _ _) (by rw [List.length_take]; omega),
            ← getD_eq_of_isPrefixOf (List.take_prefix (PREHDRLEN + datalen ring.contents) _)
              (by rw [List.length_take]; omega)]
        have hpkt : (ring.contents.take (PREHDRLEN + datalen ring.contents)).length =
            PREHDRLEN + datalen ring.contents := by
          rw [List.length_take]
          omega
        have hdrop := RingSet.contents_advance hall
        simp only [hall, ↓reduceIte, RingSet.retr_eq hall, htype]
        generalize ring.contents.take (PREHDRLEN + datalen ring.contents) = pkt at hpkt ⊢
        generalize junk.load 0 (ring.contents.take PREHDRLEN) = junk'
        simp only [doCrc_load junk' hd hpkt]
        by_cases hcrc : CrcOk pkt
        · by_cases hadc : pkt.getD 6 0 = ADC_AD_DATA
          · obtain ⟨element, ret, r', hlen', hstore, hadd⟩ :=
              addToDataRing_eq junk' hpkt p.dataRing
            have himg : (junk'.load 0 pkt).read 0 element.packetLen = pkt := by
              rw [hlen', ← hpkt, Bfr.read_load]
            simp only [hcrc, hadc, and_self, ↓reduceIte, hadd]
            exact ⟨⟨_, p.newChanInfo, r'⟩, _, rfl, hdrop, hsize,
              .adc element _ pkt ret himg rfl hstore⟩
          · -- a whole packet of another type is taken off and dropped
            simp only [hcrc, hadc, and_false, ↓reduceIte]
            exact ⟨{ p with ring := _ }, _, rfl, hdrop, hsize, .none rfl rfl⟩
        · -- so is one whose check fails
          simp only [hcrc, false_and, ↓reduceIte]
          exact ⟨{ p with ring := _ }, _, rfl, hdrop, hsize, .none rfl rfl⟩
      · -- the rest of the packet is still to come
        simp only [hall, ↓reduceIte]
        exact ⟨{ p with ring := ring }, _, rfl, rfl, hsize, .none rfl rfl⟩
  · have hhdr' : ¬ PREHDRLEN < ring.contents.length := by omega
    simp only [hhdr, hhdr', ↓reduceIte]
    exact ⟨{ p with ring := ring }, _, rfl, rfl, hsize, .none rfl rfl⟩

/-- What `get_adc_data` can return, and where its events come from. -/
theorem getAdcData_cases {index rv : ℤ} {junk : Bfr} {p p' : RcvPath} {events : List RcvEvent}
    (h : getAdcData index junk p = .ok (rv, p', events)) : (rv = 0 ∨ rv = -1) ∧
      (events = [] ∨ ∃ packet pktLen dataRing,
        addToDataRing packet pktLen p.dataRing = .ok (dataRing, events)) := by
  unfold getAdcData at h
  dsimp only at h
  generalize skipTo index p.ring = ring at h
  generalize junk.load 0 ((ring.view PREHDRLEN).getD []) = rcvBfr at h
  split at h
  · split at h
    · cases h
    · split at h
      · -- the packet is whole
        split at h
        · cases h
          exact ⟨.inr rfl, .inl rfl⟩
        · split at h
          · split at h
            · obtain ⟨⟨dataRing, events'⟩, hadd, h⟩ := bind_eq_ok.1 h
              cases h
              exact ⟨.inl rfl, .inr ⟨_, _, _, hadd⟩⟩
            · cases h
              exact ⟨.inl rfl, .inl rfl⟩
          · cases h
            exact ⟨.inl rfl, .inl rfl⟩
      · cases h
        exact ⟨.inr rfl, .inl rfl⟩
  · cases h
    exact ⟨.inr rfl, .inl rfl⟩

theorem findSub_lt {tok s : List UInt8} (h : findSub tok s = some i) : i ≤ s.length := by
  have := findSub_le h
  omega

/-- What the body of the loop returns for a turn. -/
def IterResult (t : Option Turn) (p : RcvPath)
    (result : Except String (Bool × RcvPath × List RcvEvent)) : Prop :=
  match t with
  | none => result = .error TOKENFAIL
  | some t => ∃ p' events, result = .ok (t.again, p', events) ∧ Agrees t p p' events

theorem AdcResult.bind {t : Option Turn} {p : RcvPath}
    {result : Except String (ℤ × RcvPath × List RcvEvent)} (h : AdcResult t p result)
    (k : ℤ × RcvPath × List RcvEvent → Except String (Bool × RcvPath × List RcvEvent))
    (hk : ∀ again p events, k (if again then 0 else -1, p, events) = .ok (again, p, events)) :
    IterResult t p (result >>= k) := by
  cases t with
  | none =>
    obtain rfl : result = .error TOKENFAIL := h
    rfl
  | some t =>
    obtain ⟨p', events, rfl, hagrees⟩ := h
    exact ⟨p', events, hk _ _ _, hagrees⟩

/-- **The body of the loop of `check_data` is one turn** on the bytes of the ring. -/
theorem checkDataIter_turn (inhibitAdc : Bool) (junk : Bfr) (p : RcvPath) :
    IterResult (turn inhibitAdc p.ring.contents) p (checkDataIter inhibitAdc junk p) := by
  have hlen := RingSet.length_contents p.ring
  have hadcidx : (if inhibitAdc then -1 else searchRing ADCTOKEN p.ring) =
      idx (adcAt inhibitAdc p.ring.contents) := by
    unfold adcAt
    split_ifs
    · rfl
    · exact searchRing_eq (by decide) p.ring
  have hchan : ∀ c, c ≤ p.ring.bytesStored →
      IterResult (some (chanTurn (p.ring.contents.drop c))) p
        (pure ((getChanInfo c p).1 = 0, (getChanInfo c p).2.1, (getChanInfo c p).2.2)) := by
    intro c hc
    obtain ⟨p', events, heq, hagrees⟩ := getChanInfo_chanTurn hc
    rw [heq]
    refine ⟨p', events, ?_, hagrees⟩
    cases (chanTurn (p.ring.contents.drop c)).again <;> rfl
  have hadc : ∀ a, adcAt inhibitAdc p.ring.contents = some a →
      AdcResult (adcTurn (p.ring.contents.drop a)) p (getAdcData a junk p) := by
    intro a ha
    have hfind : findSub ADCTOKEN p.ring.contents = some a := by
      unfold adcAt at ha
      split_ifs at ha
      exact ha
    exact getAdcData_adcTurn junk (by rw [← hlen]; exact findSub_lt hfind)
      (findSub_eq_some_iff.1 hfind).2.1
  unfold checkDataIter turn
  simp only [hadcidx, findChanInfo_eq]
  cases hc : chanAt p.ring.contents with
  | none =>
    cases ha : adcAt inhibitAdc p.ring.contents with
    | none => exact ⟨p, [], rfl, rfl, rfl, .none rfl rfl⟩
    | some a => exact (hadc a ha).bind _ fun again p events => by cases again <;> rfl
  | some c =>
    have hcle : c ≤ p.ring.bytesStored := by
      rw [← hlen]
      exact findSub_lt (chanAt_eq_some.1 hc).1
    cases ha : adcAt inhibitAdc p.ring.contents with
    | none =>
      rw [if_neg (by simp), if_neg (by simp), if_pos (by simp)]
      exact hchan c hcle
    | some a =>
      -- both tokens are there: the one that comes first is served
      by_cases hca : c < a
      · rw [if_pos (by simpa using hca)]
        simp only [hca, ↓reduceIte]
        exact hchan c hcle
      · rw [if_neg (by simpa using hca), if_pos (by simp)]
        simp only [hca, ↓reduceIte]
        exact (hadc a ha).bind _ fun again p events => by cases again <;> rfl

/-! ### The loop ends -/

variable {s : List UInt8} {t : Turn} {inhibitAdc : Bool}

theorem chanTurn_length (h : (chanTurn s).again = true) :
    (chanTurn s).rest.length + CHANINFOLEN = s.length := by
  unfold chanTurn at h ⊢
  split_ifs at h ⊢ with hlen
  cases hacc : acceptedInfo (s.take CHANINFOLEN) with
  | none => simp [hacc] at h
  | some c =>
    simp only [List.length_drop]
    omega

theorem adcTurn_length (h : adcTurn s = some t) (hagain : t.again = true) :
    t.rest.length + PREHDRLEN < s.length := by
  unfold adcTurn at h
  have hpre : PREHDRLEN = 8 := rfl
  dsimp only at h
  -- in the two branches that go on, the length field is not 0
  split_ifs at h with h₁ h₂ h₃ <;> obtain rfl := Option.some.inj h
  · have hd := datalen_mod_ne h₂
    simp only [List.length_drop]
    omega
  · have hd := datalen_mod_ne h₂
    simp only [List.length_drop]
    omega
  · exact absurd hagain (by simp)
  · exact absurd hagain (by simp)

/-- A turn after which the loop goes on has taken more than `PREHDRLEN` bytes off the ring. -/
theorem turn_length (h : turn inhibitAdc s = some t) (hagain : t.again = true) :
    t.rest.length + PREHDRLEN < s.length := by
  have hchan : ∀ c, some (chanTurn (s.drop c)) = some t → t.rest.length + PREHDRLEN < s.length := by
    intro c hc
    obtain rfl := Option.some.inj hc
    have := chanTurn_length hagain
    rw [List.length_drop] at this
    have : PREHDRLEN < CHANINFOLEN := by decide
    omega
  have hadc : ∀ a, adcTurn (s.drop a) = some t → t.rest.length + PREHDRLEN < s.length := by
    intro a ha
    have := adcTurn_length ha hagain
    rw [List.length_drop] at this
    omega
  rcases turn_cases inhibitAdc s with ⟨-, -, heq⟩ | ⟨c, -, -, heq⟩ | ⟨a, -, -, heq⟩
  · rw [heq] at h
    obtain rfl := Option.some.inj h
    exact absurd hagain (by simp)
  · exact hchan c (heq ▸ h)
  · exact hadc a (heq ▸ h)

/-! ### The loop -/

section Loop

variable {inhibitAdc : Bool} {junk : ℕ → Bfr} {fuel : ℕ} {p p' : RcvPath}

theorem checkDataIter_ok {junk : Bfr} {again : Bool} {events : List RcvEvent}
    (h : checkDataIter inhibitAdc junk p = .ok (again, p', events)) :
    ∃ t, turn inhibitAdc p.ring.contents = some t ∧ t.again = again ∧ Agrees t p p' events := by
  have hiter := checkDataIter_turn inhibitAdc junk p
  rw [h] at hiter
  cases ht : turn inhibitAdc p.ring.contents with
  | none =>
    rw [ht] at hiter
    cases hiter
  | some t =>
    rw [ht] at hiter
    obtain ⟨_, _, heq, hagrees⟩ := hiter
    cases heq
    exact ⟨t, rfl, rfl, hagrees⟩

theorem checkDataIter_bytesStored {junk : Bfr} {events : List RcvEvent}
    (h : checkDataIter inhibitAdc junk p = .ok (true, p', events)) :
    p'.ring.bytesStored + PREHDRLEN < p.ring.bytesStored := by
  obtain ⟨t, ht, hagain, hagrees⟩ := checkDataIter_ok h
  have hlt := turn_length ht hagain
  rwa [← hagrees.contents, RingSet.length_contents, RingSet.length_contents] at hlt

/-- **How the loop comes to an end**: it stops after its first turn or goes on from what that
left. -/
theorem checkDataLoop_ok {again : Bool} {events : List RcvEvent}
    (h : checkDataLoop inhibitAdc junk (fuel + 1) p = .ok (again, p', events)) :
    ∃ t p₁ events₁, turn inhibitAdc p.ring.contents = some t ∧ Agrees t p p₁ events₁ ∧
      (t.again = false ∧ again = false ∧ p' = p₁ ∧ events = events₁ ∨
        t.again = true ∧ ∃ events₂, checkDataLoop inhibitAdc junk fuel p₁ =
          .ok (again, p', events₂) ∧ events = events₁ ++ events₂) := by
  obtain ⟨⟨again₁, p₁, events₁⟩, hturn, h⟩ := bind_eq_ok.1 h
  obtain ⟨t, ht, hagain, hagrees⟩ := checkDataIter_ok hturn
  refine ⟨t, p₁, events₁, ht, hagrees, ?_⟩
  cases again₁ with
  | false =>
    cases h
    exact .inl ⟨hagain, rfl, rfl, rfl⟩
  | true =>
    obtain ⟨⟨again₂, p₂, events₂⟩, hrest, h⟩ := bind_eq_ok.1 h
    cases h
    exact .inr ⟨hagain, events₂, hrest, rfl⟩

theorem checkDataLoop_stop {t : Turn} (ht : turn inhibitAdc p.ring.contents = some t)
    (hstop : t.again = false) : ∃ p' events,
      checkDataLoop inhibitAdc junk (fuel + 1) p = .ok (false, p', events) ∧
        Agrees t p p' events := by
  have hiter := checkDataIter_turn inhibitAdc (junk fuel) p
  rw [ht] at hiter
  obtain ⟨p', events, heq, hagrees⟩ := hiter
  refine ⟨p', events, ?_, hagrees⟩
  rw [checkDataLoop, heq, hstop]
  rfl

theorem checkDataLoop_go {t : Turn} (ht : turn inhibitAdc p.ring.contents = some t)
    (hagain : t.again = true) : ∃ p₁ events₁, Agrees t p p₁ events₁ ∧
      ∀ again p' events, checkDataLoop inhibitAdc junk fuel p₁ = .ok (again, p', events) →
        checkDataLoop inhibitAdc junk (fuel + 1) p = .ok (again, p', events₁ ++ events) := by
  have hiter := checkDataIter_turn inhibitAdc (junk fuel) p
  rw [ht] at hiter
  obtain ⟨p₁, events₁, heq, hagrees⟩ := hiter
  refine ⟨p₁, events₁, hagrees, ?_⟩
  intro again p' events hrest
  rw [checkDataLoop, heq, hagain]
  simp only [bind, Except.bind, ↓reduceIte, hrest]
  rfl

/-- How the loop ends the program: in its first turn, or in a later one. -/
theorem checkDataLoop_fail {msg : String}
    (h : checkDataLoop inhibitAdc junk (fuel + 1) p = .error msg) :
    msg = TOKENFAIL ∨ ∃ p₁, checkDataLoop inhibitAdc junk fuel p₁ = .error msg := by
  have hiter := checkDataIter_turn inhibitAdc (junk fuel) p
  simp only [checkDataLoop] at h
  cases ht : turn inhibitAdc p.ring.contents with
  | none =>
    rw [ht] at hiter
    simp only [IterResult] at hiter
    rw [hiter] at h
    exact .inl (Except.error.inj h).symm
  | some t =>
    rw [ht] at hiter
    obtain ⟨p₁, events₁, heq, -⟩ := hiter
    rw [heq] at h
    refine .inr ⟨p₁, ?_⟩
    cases hagain : t.again with
    | false => simp [hagain, bind, Except.bind, pure, Except.pure] at h
    | true =>
      cases hrest : checkDataLoop inhibitAdc junk fuel p₁ with
      | error msg' => simpa [hagain, hrest, bind, Except.bind] using h
      | ok result => simp [hagain, hrest, bind, Except.bind, pure, Except.pure] at h

/-- **`check_data` ends**: the loop is left by its own condition or by `fail`. -/
theorem checkDataLoop_done {again : Bool} {events : List RcvEvent}
    (hfuel : p.ring.bytesStored < fuel)
    (h : checkDataLoop inhibitAdc junk fuel p = .ok (again, p', events)) : again = false := by
  induction fuel generalizing p events with
  | zero => omega
  | succ fuel ih =>
    obtain ⟨t, p₁, events₁, ht, hagrees, hend⟩ := checkDataLoop_ok h
    rcases hend with ⟨-, hstop, -, -⟩ | ⟨hagain, events₂, hrest, -⟩
    · exact hstop
    · -- the turn took bytes off the ring, so the fuel left is still enough
      have hlt := turn_length ht hagain
      rw [← hagrees.contents, RingSet.length_contents, RingSet.length_contents] at hlt
      exact ih (by omega) hrest

theorem checkDataLoop_error {msg : String}
    (h : checkDataLoop inhibitAdc junk fuel p = .error msg) : msg = TOKENFAIL := by
  induction fuel generalizing p with
  | zero => cases h
  | succ fuel ih =>
    rcases checkDataLoop_fail h with hmsg | ⟨p₁, hrest⟩
    · exact hmsg
    · exact ih hrest

theorem checkData_ok {events : List RcvEvent}
    (h : checkData inhibitAdc junk p = .ok (p', events)) :
    ∃ again p₁, checkDataLoop inhibitAdc junk (p.ring.bytesStored + 1) p =
        .ok (again, p₁, events) ∧ p' = { p₁ with ring := purge inhibitAdc p₁.ring } := by
  obtain ⟨⟨again, p₁, events₁⟩, hloop, h⟩ := bind_eq_ok.1 h
  cases h
  exact ⟨again, p₁, hloop, rfl⟩

theorem checkData_error {msg : String} (h : checkData inhibitAdc junk p = .error msg) :
    msg = TOKENFAIL := by
  cases hloop : checkDataLoop inhibitAdc junk (p.ring.bytesStored + 1) p with
  | error msg' =>
    rw [checkData, hloop] at h
    cases h
    exact checkDataLoop_error hloop
  | ok result =>
    rw [checkData, hloop] at h
    cases h

/-- Turns after which the loop goes on cannot follow each other without end. -/
theorem no_endless_loop {junk : ℕ → Bfr} {run : ℕ → RcvPath}
    (h : ∀ n, ∃ events, checkDataIter inhibitAdc (junk n) (run n) =
      .ok (true, run (n + 1), events)) : False := by
  have hbound : ∀ n, (run n).ring.bytesStored + n ≤ (run 0).ring.bytesStored := by
    intro n
    induction n with
    | zero => exact le_rfl
    | succ n ih =>
      obtain ⟨events, hiter⟩ := h n
      have := checkDataIter_bytesStored hiter
      omega
  have := hbound ((run 0).ring.bytesStored + 1)
  omega

/-- **`check_data` terminates on every input.**  A turn after which the loop goes on leaves fewer
bytes on the ring, by at least the length of a preheader; so there is no endless run of turns, and
a loop that may take more turns than there are bytes ends by its own condition or by `fail`. -/
theorem checkData_terminates (inhibitAdc : Bool) (p : RcvPath) :
    (∀ junk p' events, checkDataIter inhibitAdc junk p = .ok (true, p', events) →
      p'.ring.bytesStored + PREHDRLEN ≤ p.ring.bytesStored) ∧
    (¬ ∃ (junk : ℕ → Bfr) (run : ℕ → RcvPath), run 0 = p ∧
      ∀ n, ∃ events, checkDataIter inhibitAdc (junk n) (run n) = .ok (true, run (n + 1), events)) ∧
    ∀ (junk : ℕ → Bfr) (fuel : ℕ), p.ring.bytesStored < fuel →
      (∃ p' events, checkDataLoop inhibitAdc junk fuel p = .ok (false, p', events)) ∨
        checkDataLoop inhibitAdc junk fuel p = .error TOKENFAIL := by
  refine ⟨?_, ?_, ?_⟩
  · intro junk p' events h
    exact (checkDataIter_bytesStored h).le
  · rintro ⟨junk, run, -, h⟩
    exact no_endless_loop h
  · intro junk fuel hfuel
    cases hloop : checkDataLoop inhibitAdc junk fuel p with
    | error msg => exact .inr (congrArg _ (checkDataLoop_error hloop))
    | ok result =>
      obtain ⟨again, p', events⟩ := result
      obtain rfl := checkDataLoop_done hfuel hloop
      exact .inl ⟨p', events, rfl⟩

end Loop

end SdrProxy
