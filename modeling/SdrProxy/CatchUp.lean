import SdrProxy.Framing
import SdrProxy.Lib.Outlet
import SdrProxy.Sessions

/-!
# A client that reads catches up

A connection on which a client has requested data, served again and again while nothing is stored
and the client takes what `send` offers it.

* `Stock` : what is served;
* `due` : what the connection still has to place: the text, if it was requested, and the packets
  after the last one, up to the first that does not fit the send ring;
* `readerMachine` : one connection under services;
* `Reading.step` : a service of the connection is a turn of an outlet (`ConnectionData.outlet`);
* `caught_up` : after enough services exactly what was due has been sent, and the ring is empty.
-/

namespace SdrProxy

/-! ### What is due -/

namespace DataRing

variable {r : DataRing} {t : PacketTime}

theorem key_of_mem {e : Entry} (h : e ∈ r.entries) : e.1 = e.2.1.packetTime := by
  obtain ⟨a, -, rfl⟩ := List.mem_map.1 h
  rfl

theorem length_of_mem {e : Entry} (h : e ∈ r.entries) : e.2.2.length = e.2.1.packetLen := by
  obtain ⟨a, -, rfl⟩ := List.mem_map.1 h
  exact Bfr.length_read _ _ _

/-- The entries after a time. -/
def after (t : PacketTime) (r : DataRing) : List Entry := r.entries.filter fun e => t < e.1

/-- `RING_RETR` hands back the first of the entries after the time. -/
theorem retr_after (hok : r.Ok) (hr : ∀ e ∈ r.entries, Millis e.1) (ht : Millis t) :
    (r.retr t).2 = (r.after t).head?.map Prod.snd := by
  rw [retr_snd hok, ← List.head?_filter, after]
  congr 2
  apply List.filter_congr
  intro e he
  have hiff : t + 1 / 1000 ≤ e.1 ↔ t < e.1 :=
    ⟨lt_of_lt_of_le (lt_add_of_pos_right _ (by norm_num)), ht.succ_le (hr e he)⟩
  simpa using hiff

theorem after_cons (hok : r.Ok) {e : Entry} {l : List Entry} (h : r.after t = e :: l) :
    r.after e.1 = l := by
  have hlt : t < e.1 := by
    have hmem : e ∈ r.after t := h ▸ List.mem_cons_self
    simpa [after] using (List.mem_filter.1 hmem).2
  have hinc : FinMap.Increasing (e :: l) := h ▸ hok.increasing.sublist List.filter_sublist
  have hsame : r.after e.1 = (r.after t).filter fun a => e.1 < a.1 := by
    rw [after, after, List.filter_filter]
    apply List.filter_congr
    intro a _
    simpa using fun ha : e.1 < a.1 => hlt.trans ha
  rw [hsame, h, List.filter_cons_of_neg (by simp)]
  exact List.filter_eq_self.2 fun a ha => by simpa using List.rel_of_pairwise_cons hinc ha

end DataRing

/-- What the connections serve: a configuration that has passed the check, and a cache that is in
order, as in every run of the program, with times as `decode_pkt_time` computes them. -/
structure Stock where
  /-- `chan_info_g`. -/
  chanInfoG : ChannelInfo
  valid : chanInfoG.Valid
  /-- The data ring. -/
  dataRing : DataRing
  ring_ok : dataRing.Ok
  millis : ∀ e ∈ dataRing.entries, Millis e.1

/-- A turn of the loop in which this is served. -/
def Stock.pass (k : Stock) (io : ServerIO) (hist : HistHeap) : ServicePass :=
  ⟨io, k.chanInfoG, k.valid, k.dataRing, k.ring_ok, hist⟩

namespace ConnectionData

/-- The bytes that the send ring can hold. -/
def capacity (d : ConnectionData) : ℕ := d.sendRing.bfrsize - 1

/-- The packets that are due after one of the time `t`, up to the first that does not fit the send
ring at all. -/
def packetsDue (k : Stock) (t : PacketTime) (d : ConnectionData) : List (List UInt8) :=
  ((k.dataRing.after t).takeWhile fun e => e.2.1.packetLen ≤ d.capacity).map fun e => e.2.2

/-- What the connection still has to place. -/
def due (k : Stock) (t : PacketTime) (d : ConnectionData) : List (List UInt8) :=
  if d.state = .SRVR_STATE_SENDCHAN then chanInfoText k.chanInfoG :: d.packetsDue k t
  else d.packetsDue k t

/-- The connection as a buffer and the messages that are still to be put there. -/
def outlet (k : Stock) (t : PacketTime) (d : ConnectionData) : Outlet UInt8 :=
  ⟨d.sendRing.contents, d.due k t⟩

end ConnectionData

/-- The client reads: it has nothing to say, and `send` takes at least one byte. -/
structure ServerIO.Reads (io : ServerIO) : Prop where
  silent : io.readable = true → io.recv = .again
  writable : io.writable = true
  takes : 0 < io.send.rv

variable {k : Stock} {io : ServerIO} {conn : ℕ} {t : PacketTime} {d : ConnectionData} {c : Conn}

/-- A client that has nothing to say changes nothing. -/
theorem ServerIO.Reads.serviceIncoming (h : io.Reads) (d : ConnectionData) :
    serviceIncoming io d = d := by
  unfold SdrProxy.serviceIncoming
  by_cases hread : io.readable = true
  · have hnone : serverRcvToRing io.recv d = (0, d) := by
      rw [h.silent hread, serverRcvToRing]
      exact ite_self _
    rw [if_pos hread, hnone]
    rfl
  · rw [if_neg hread]

/-! ### A service is a turn of the outlet -/

theorem room_iff {n : ℕ} (d : ConnectionData) :
    d.sendRing.contents.length + n ≤ d.capacity ↔ n ≤ d.sendRing.bytesFree := by
  have hsum := d.sendRing.bytesStored_add_bytesFree
  rw [RingSet.length_contents, ConnectionData.capacity]
  omega

/-- What the `switch` does to the outlet of a connection. -/
structure Switched (k : Stock) (t : PacketTime) (d : ConnectionData) (t' : PacketTime)
    (d' : ConnectionData) (es : List Event) : Prop where
  outlet : d'.outlet k t' = (d.outlet k t).place d.capacity
  messages : es.filterMap Event.message ++ d'.due k t' = d.due k t
  capacity : d'.capacity = d.capacity
  history : d'.history = d.history
  state : d'.state = .SRVR_STATE_SENDCHAN ∨ d'.state = .SRVR_STATE_SENDADC
  millis : Millis t'

/-- The `switch` leaves alone what has no room. -/
theorem Switched.same (hstate : d.state = .SRVR_STATE_SENDCHAN ∨ d.state = .SRVR_STATE_SENDADC)
    (ht : Millis t) (hfull : ∀ msg ∈ (d.due k t).head?, d.sendRing.bytesFree < msg.length) :
    Switched k t d t d [] where
  outlet := by
    unfold Outlet.place
    cases hdue : d.due k t with
    | nil => simp only [ConnectionData.outlet, hdue]
    | cons msg msgs =>
      have hlt := hfull msg (by rw [hdue]; rfl)
      have hroom : ¬ d.sendRing.contents.length + msg.length ≤ d.capacity := by
        rw [room_iff]
        omega
      simp only [ConnectionData.outlet, hdue, hroom, ↓reduceIte]
  messages := rfl
  capacity := rfl
  history := rfl
  state := hstate
  millis := ht

theorem Switched.placed {t' : PacketTime} {d' : ConnectionData} {msg : List UInt8} {es : List Event}
    (hring : d'.sendRing = (d.sendRing.store msg).2) (hfits : msg.length ≤ d.sendRing.bytesFree)
    (hes : es.filterMap Event.message = [msg]) (hdue : d.due k t = msg :: d'.due k t')
    (hhist : d'.history = d.history) (hstate : d'.state = .SRVR_STATE_SENDADC)
    (ht' : Millis t') : Switched k t d t' d' es where
  outlet := by
    have hroom := (room_iff d).2 hfits
    simp only [Outlet.place, ConnectionData.outlet, hdue, hroom, ↓reduceIte, hring,
      RingSet.contents_store hfits]
  messages := by rw [hes, hdue, List.singleton_append]
  capacity := by rw [ConnectionData.capacity, hring, RingSet.bfrsize_store, ConnectionData.capacity]
  history := hhist
  state := .inr hstate
  millis := ht'

/-- **What the `switch` does for a client that has requested data.** -/
theorem switched_serveState (k : Stock) (conn : ℕ) (ht : Millis t)
    (hstate : d.state = .SRVR_STATE_SENDCHAN ∨ d.state = .SRVR_STATE_SENDADC) :
    Switched k t d ((serveState k.chanInfoG k.dataRing conn t d).2.1.getD t)
      (serveState k.chanInfoG k.dataRing conn t d).1
      (serveState k.chanInfoG k.dataRing conn t d).2.2 := by
  unfold serveState
  rcases hstate with hchan | hadc
  · have hlen := length_chanInfoText k.valid
    have htake : (chanInfoText k.chanInfoG).take CHANINFOLEN = chanInfoText k.chanInfoG := by
      rw [← hlen, List.take_length]
    have hdue : d.due k t = chanInfoText k.chanInfoG :: d.packetsDue k t := if_pos hchan
    simp only [hchan, htake]
    by_cases hroom : CHANINFOLEN ≤ d.sendRing.bytesFree
    · rw [if_pos hroom]
      refine .placed rfl (hlen.le.trans hroom) rfl ?_ rfl rfl ht
      rw [hdue, ConnectionData.due, if_neg (by simp)]
      simp only [ConnectionData.packetsDue, ConnectionData.capacity, RingSet.bfrsize_store,
        Option.getD_none]
      rfl
    · rw [if_neg hroom]
      refine .same (.inl hchan) ht ?_
      rw [hdue]
      rintro msg ⟨⟩
      omega
  · have hdue : d.due k t = d.packetsDue k t := if_neg (by rw [hadc]; decide)
    have hretr := DataRing.retr_after k.ring_ok k.millis ht
    simp only [hadc, placeNext]
    cases hafter : k.dataRing.after t with
    | nil =>
      rw [hafter] at hretr
      rw [show (k.dataRing.retr t).2 = none from hretr]
      refine .same (.inr hadc) ht ?_
      rw [hdue, ConnectionData.packetsDue, hafter]
      rintro msg ⟨⟩
    | cons e l =>
      obtain ⟨time, element, pkt⟩ := e
      rw [hafter] at hretr
      have hretr' : (k.dataRing.retr t).2 = some (element, pkt) := hretr
      have hlen := DataRing.length_of_retr hretr'
      have hmem : (time, element, pkt) ∈ k.dataRing.entries :=
        (List.mem_filter.1 (show (time, element, pkt) ∈ k.dataRing.after t by
          rw [hafter]; exact List.mem_cons_self)).1
      have htime : element.packetTime = time := (DataRing.key_of_mem hmem).symm
      have hrest := DataRing.after_cons k.ring_ok hafter
      rw [hretr']
      dsimp only
      by_cases hroom : d.sendRing.bytesFree < element.packetLen
      · rw [if_pos hroom]
        refine .same (.inr hadc) ht ?_
        rw [hdue, ConnectionData.packetsDue, hafter]
        intro msg hmsg
        by_cases hfit : element.packetLen ≤ d.capacity
        · rw [List.takeWhile_cons_of_pos (by simpa using hfit)] at hmsg
          obtain rfl : pkt = msg := Option.some.inj hmsg
          omega
        · rw [List.takeWhile_cons_of_neg (by simpa using hfit)] at hmsg
          cases hmsg
      · have hfits : pkt.length ≤ d.sendRing.bytesFree := by omega
        have hcap : element.packetLen ≤ d.capacity := by
          have := (room_iff d).2 hfits
          omega
        rw [if_neg hroom]
        refine .placed rfl hfits rfl ?_ rfl rfl (htime ▸ k.millis _ hmem)
        rw [hdue, ConnectionData.due, if_neg (by simp), ConnectionData.packetsDue, hafter,
          List.takeWhile_cons_of_pos (by simpa using hcap), List.map_cons]
        simp only [ConnectionData.packetsDue, ConnectionData.capacity, RingSet.bfrsize_store,
          Option.getD_some, htime, hrest]
        rfl

/-! ### Sending -/

/-- The number of elements that the client takes. -/
def ServerIO.takenCount (io : ServerIO) : ℕ := io.send.rv.toNat

/-- A client that reads takes the bytes at the front of the ring. -/
theorem ServerIO.Reads.sentCount (h : io.Reads)
    (hstate : d.state = .SRVR_STATE_SENDCHAN ∨ d.state = .SRVR_STATE_SENDADC) :
    d.sendRing.contents.take (SdrProxy.sentCount io d) = d.sendRing.contents.take io.takenCount ∧
      d.sendRing.contents.drop (SdrProxy.sentCount io d) =
        d.sendRing.contents.drop io.takenCount := by
  have hlen := RingSet.length_contents d.sendRing
  have htakes := h.takes
  by_cases hnone : d.sendRing.bytesStored = 0
  · have hnil : d.sendRing.contents = [] := List.length_eq_zero_iff.1 (hlen.trans hnone)
    simp only [hnil, List.take_nil, List.drop_nil, and_self]
  · have hcall : CallsSendToClient io d := ⟨hnone, h.writable, hstate⟩
    simp only [SdrProxy.sentCount, hcall, ↓reduceIte, takenCount]
    rcases le_total io.send.rv d.sendRing.bytesStored with hle | hle
    · rw [min_eq_left hle]
      exact ⟨rfl, rfl⟩
    · -- all there is
      rw [min_eq_right hle, Int.toNat_natCast, ← hlen]
      have hall : d.sendRing.contents.length ≤ io.send.rv.toNat := by omega
      rw [List.take_of_length_le hall, List.drop_eq_nil_of_le hall, List.take_length,
        List.drop_length]
      exact ⟨rfl, rfl⟩

/-- The connection when `send` has taken what it takes. -/
def ConnectionData.sent (io : ServerIO) (d : ConnectionData) : ConnectionData :=
  { d with sendRing := (d.sendRing.delete (SdrProxy.sentCount io d)).2 }

theorem contents_sent (io : ServerIO) (d : ConnectionData) :
    (d.sent io).sendRing.contents = d.sendRing.contents.drop (sentCount io d) :=
  RingSet.contents_delete (sentCount_le io d)

theorem capacity_sent (io : ServerIO) (d : ConnectionData) : (d.sent io).capacity = d.capacity := by
  simp only [ConnectionData.capacity, ConnectionData.sent, RingSet.bfrsize_delete]

theorem due_sent (io : ServerIO) (k : Stock) (t : PacketTime) (d : ConnectionData) :
    (d.sent io).due k t = d.due k t := by
  simp only [ConnectionData.due, ConnectionData.packetsDue, capacity_sent]
  rfl

/-- With a client that reads, and a ring that can be copied, the last part of a service does not
fail. -/
theorem ServerIO.Reads.serviceOutgoing (h : io.Reads) (hcopy : d.capacity ≤ MAXPACKETSIZE) :
    serviceOutgoing io d = .ok (d.sent io) := by
  by_cases hcall : CallsSendToClient io d
  · have hnot : ¬ SendFails io.send := fun hfails => absurd hfails.1 (not_le.2 h.takes)
    have hstored : d.sendRing.bytesStored ≤ MAXPACKETSIZE := by
      have hsum := d.sendRing.bytesStored_add_bytesFree
      rw [ConnectionData.capacity] at hcopy
      omega
    obtain ⟨rv, heq, -⟩ := sendToClient_of_not_fails hcall hstored hnot
    rw [serviceOutgoing_of_call hcall, heq]
    rfl
  · rw [serviceOutgoing_of_not_call hcall, ConnectionData.sent, SdrProxy.sentCount, if_neg hcall,
      RingSet.delete_zero]

/-! ### Services -/

/-- One connection, served again and again; the events say what was placed and what `send` took. -/
def readerMachine (k : Stock) (conn : ℕ) : Machine Conn ServerIO FrameEvent where
  step c io := match serviceConnection io k.chanInfoG k.dataRing conn c with
    | .ok (c', es) => some (c', (es.filterMap Event.message).map .placed ++
        [.accepted (acceptedBytes (k.pass io c.hist) conn c.data)])
    | .error _ => none

/-- The client of the connection has requested data, and has last been sent a packet of the time
`t`; the ring has room for the text, and is no larger than the buffer that `send_to_client` copies
it to. -/
structure Conn.Reading (t : PacketTime) (c : Conn) : Prop where
  state : c.data.state = .SRVR_STATE_SENDCHAN ∨ c.data.state = .SRVR_STATE_SENDADC
  record : ∃ r, c.hist.deref c.data.history = .ok r ∧ r.lastPacketTime = t
  millis : Millis t
  room : CHANINFOLEN ≤ c.data.capacity
  copied : c.data.capacity ≤ MAXPACKETSIZE

/-- What came of services of the connection `c`. -/
structure CaughtUp (k : Stock) (t : PacketTime) (c : Conn) (t' : PacketTime) (c' : Conn)
    (es : List FrameEvent) : Prop where
  reading : c'.Reading t'
  capacity : c'.data.capacity = c.data.capacity
  /-- What was placed is no longer due. -/
  messages : messages es ++ c'.data.due k t' = c.data.due k t
  /-- What was sent has gone from the front of the stream. -/
  wire : wire es ++ (c'.data.outlet k t').stream = (c.data.outlet k t).stream

section Service

variable {r : ConnHistData} {d' : ConnectionData} {placed : Option PacketTime} {es : List Event}

/-- What a service of a connection whose client reads does, by what its `switch` does. -/
theorem Conn.Reading.service (h : c.Reading t) (hio : io.Reads)
    (hr : c.hist.deref c.data.history = .ok r) (k : Stock) (conn : ℕ)
    (hserve : serveState k.chanInfoG k.dataRing conn r.lastPacketTime c.data = (d', placed, es))
    (hstate : d'.state = .SRVR_STATE_SENDCHAN ∨ d'.state = .SRVR_STATE_SENDADC)
    (hcap : d'.capacity = c.data.capacity) :
    serviceConnection io k.chanInfoG k.dataRing conn c =
        .ok (⟨d'.sent io, c.hist.note c.data.history r io.now placed⟩, es) ∧
      acceptedBytes (k.pass io c.hist) conn c.data =
        d'.sendRing.contents.take io.takenCount := by
  have hactive : c.data.state ≠ .SRVR_STATE_INACTIVE := by
    rcases h.state with hs | hs <;> rw [hs] <;> decide
  have hswitch : serviceState io k.chanInfoG k.dataRing conn ⟨serviceIncoming io c.data, c.hist⟩ =
      .ok (⟨d', c.hist.note c.data.history r io.now placed⟩, es) := by
    rw [hio.serviceIncoming]
    have heq := serviceState_eq io k.chanInfoG k.dataRing conn hr
    rwa [hserve] at heq
  constructor
  · unfold serviceConnection
    rw [if_neg hactive]
    show (serviceState io k.chanInfoG k.dataRing conn
      ⟨serviceIncoming io c.data, c.hist⟩).bind _ = _
    rw [hswitch]
    show (SdrProxy.serviceOutgoing io d').bind _ = _
    rw [hio.serviceOutgoing (hcap.le.trans h.copied)]
    rfl
  · simp only [acceptedBytes, hactive, ↓reduceIte, Stock.pass, hswitch, (hio.sentCount hstate).1]

theorem deref_note (hr : c.hist.deref c.data.history = .ok r) (now : ℤ)
    (placed : Option PacketTime) :
    ∃ r', (c.hist.note c.data.history r now placed).deref c.data.history = .ok r' ∧
      r'.lastPacketTime = placed.getD r.lastPacketTime := by
  cases placed with
  | none => exact ⟨r, hr, rfl⟩
  | some time => exact ⟨_, HistHeap.deref_modify hr _, rfl⟩

end Service

/-- **A service of a connection whose client reads is a turn of its outlet.** -/
theorem Conn.Reading.step (h : c.Reading t) (hio : io.Reads) (k : Stock) (conn : ℕ) :
    ∃ c' t' es, (readerMachine k conn).step c io = some (c', es) ∧ CaughtUp k t c t' c' es ∧
      c'.data.outlet k t' = (c.data.outlet k t).turn c.data.capacity io.takenCount := by
  obtain ⟨r, hr, rfl⟩ := h.record
  have hswitched := switched_serveState k conn h.millis h.state
  cases hserve : serveState k.chanInfoG k.dataRing conn r.lastPacketTime c.data with
  | mk d₁ rest =>
    obtain ⟨placed, es⟩ := rest
    rw [hserve] at hswitched
    obtain ⟨hserv, haccepted⟩ := h.service hio hr k conn hserve hswitched.state
      hswitched.capacity
    have hdue := due_sent io k (placed.getD r.lastPacketTime) d₁
    have hturn : (d₁.sent io).outlet k (placed.getD r.lastPacketTime) =
        (c.data.outlet k r.lastPacketTime).turn c.data.capacity io.takenCount := by
      rw [Outlet.turn, ← hswitched.outlet, ConnectionData.outlet, hdue, contents_sent,
        (hio.sentCount hswitched.state).2]
      rfl
    have hcap : (d₁.sent io).capacity = c.data.capacity :=
      (capacity_sent io d₁).trans hswitched.capacity
    refine ⟨⟨d₁.sent io, c.hist.note c.data.history r io.now placed⟩,
      placed.getD r.lastPacketTime, _, by simp only [readerMachine, hserv]; rfl, ?_, hturn⟩
    refine ⟨⟨hswitched.state, ?_, hswitched.millis, hcap.symm ▸ h.room, hcap.le.trans h.copied⟩,
      hcap, ?_, ?_⟩
    · obtain ⟨r', hr', htime⟩ := deref_note hr io.now placed
      refine ⟨r', ?_, htime⟩
      rw [← hr']
      exact congrArg (fun p => HistHeap.deref p _) hswitched.history
    · have hmsgs := hswitched.messages
      simp only [messages, List.filterMap_append, List.filterMap_map, List.filterMap_cons,
        List.filterMap_nil, List.append_nil, hdue]
      simpa using hmsgs
    · have htaken := Outlet.taken_append c.data.capacity io.takenCount
        (c.data.outlet k r.lastPacketTime)
      rw [hturn, ← htaken, Outlet.taken, ← hswitched.outlet]
      simp only [wire, List.flatMap_append, List.flatMap_map, haccepted]
      simp [ConnectionData.outlet]

/-- Services are turns of the outlet. -/
theorem Conn.Reading.run {ios : List ServerIO} (h : c.Reading t) (hios : ∀ io ∈ ios, io.Reads)
    (k : Stock) (conn : ℕ) :
    ∃ c' t' es, (readerMachine k conn).run c ios = some (c', es) ∧ CaughtUp k t c t' c' es ∧
      c'.data.outlet k t' =
        (c.data.outlet k t).run c.data.capacity (ios.map ServerIO.takenCount) := by
  induction ios generalizing c t with
  | nil => exact ⟨c, t, [], rfl, ⟨h, rfl, rfl, rfl⟩, rfl⟩
  | cons io ios ih =>
    obtain ⟨c₁, t₁, es₁, hstep, h₁, hturn⟩ := h.step (hios io List.mem_cons_self) k conn
    obtain ⟨c₂, t₂, es₂, hrun, h₂, hturns⟩ :=
      ih h₁.reading fun io' hio' => hios io' (List.mem_cons_of_mem io hio')
    refine ⟨c₂, t₂, es₁ ++ es₂, by rw [Machine.run_cons hstep, hrun]; rfl, ?_, ?_⟩
    · refine ⟨h₂.reading, h₂.capacity.trans h₁.capacity, ?_, ?_⟩
      · rw [← h₁.messages, ← h₂.messages, ← List.append_assoc]
        exact congrArg (· ++ _) (List.filterMap_append)
      · rw [← h₁.wire, ← h₂.wire, ← List.append_assoc]
        exact congrArg (· ++ _) (List.flatMap_append)
    · rw [hturns, hturn, h₁.capacity]
      rfl

theorem length_of_due {msg : List UInt8} (hroom : CHANINFOLEN ≤ d.capacity)
    (h : msg ∈ d.due k t) : msg.length ≤ d.capacity := by
  have hpacket : msg ∈ d.packetsDue k t → msg.length ≤ d.capacity := by
    intro hmem
    obtain ⟨e, he, rfl⟩ := List.mem_map.1 hmem
    have hentry := (List.mem_filter.1 ((List.takeWhile_subset _) he)).1
    rw [DataRing.length_of_mem hentry]
    simpa using List.mem_takeWhile_imp he
  unfold ConnectionData.due at h
  split_ifs at h
  · rcases List.mem_cons.1 h with rfl | h
    · rwa [length_chanInfoText k.valid]
    · exact hpacket h
  · exact hpacket h

/-- **A client that reads catches up.**  Once a client has requested data, and as long as nothing is
stored, services of its connection send exactly what is due: first what the ring holds and the text,
if it has yet to be placed, then the packets after the last one in the order of time, up to the
first that is too long for the ring.  It takes at most one service for each byte, and one for each
message. -/
theorem caught_up {ios : List ServerIO} (h : c.Reading t) (hios : ∀ io ∈ ios, io.Reads)
    (hlong : (c.data.outlet k t).weight ≤ ios.length) :
    ∃ c' t' es, (readerMachine k conn).run c ios = some (c', es) ∧ c'.Reading t' ∧
      messages es = c.data.due k t ∧
      wire es = c.data.sendRing.contents ++ (c.data.due k t).flatten ∧
      c'.data.sendRing.contents = [] ∧ c'.data.due k t' = [] := by
  obtain ⟨c', t', es, hrun, hserved, houtlet⟩ := h.run hios k conn
  have hcounts : ∀ n ∈ ios.map ServerIO.takenCount, 0 < n := by
    intro n hn
    obtain ⟨io, hio, rfl⟩ := List.mem_map.1 hn
    have := (hios io hio).takes
    simp only [ ServerIO.takenCount]
    omega
  obtain ⟨hbuffer, htodo⟩ := Outlet.run_drains (o := c.data.outlet k t)
    (fun msg hmsg => length_of_due h.room hmsg) hcounts (by rwa [List.length_map])
  rw [← houtlet] at hbuffer htodo
  have hring : c'.data.sendRing.contents = [] := hbuffer
  have hdue : c'.data.due k t' = [] := htodo
  have hmsgs := hserved.messages
  have hwire := hserved.wire
  rw [hdue, List.append_nil] at hmsgs
  rw [Outlet.stream, hbuffer, htodo, List.flatten_nil, List.append_nil, List.append_nil] at hwire
  exact ⟨c', t', es, hrun, hserved.reading, hmsgs, hwire, hring, hdue⟩

/-- A cache with one packet. -/
def stockedRing : DataRing :=
  match (DataRing.alloc 0 Memory.zero.slots).store ⟨1, 2, 2, true⟩ fun _ => 0 with
  | .ok (_, r) => r
  | .error _ => .alloc 0 Memory.zero.slots

theorem stockedRing_ok : stockedRing.Ok ∧ ∀ e ∈ stockedRing.entries, Millis e.1 := by
  obtain ⟨taken, r, hstore, hok, -⟩ :=
    DataRing.store_spec (DataRing.ok_alloc 0 Memory.zero.slots) ⟨1, 2, 2, true⟩ fun _ => 0
  rw [stockedRing, hstore]
  refine ⟨hok, ?_⟩
  intro e he
  rcases (DataRing.mem_entries_store (DataRing.ok_alloc 0 Memory.zero.slots) hstore).2 e he with
    ⟨-, rfl⟩ | hold
  · exact ⟨2000, by norm_num [DataRing.entry]⟩
  · simp at hold

/-- A configuration and a cache with one packet. -/
def stockOne : Stock where
  chanInfoG := ⟨10, 1, 1⟩
  valid := requestPass.valid
  dataRing := stockedRing
  ring_ok := stockedRing_ok.1
  millis := stockedRing_ok.2

/-- A turn in which the client takes one byte. -/
def takesOne : ServerIO :=
  ⟨true, true, true, false, true, .again, ⟨1, .other⟩, none, true, 0, fun _ => 0⟩

theorem takesOne_reads : takesOne.Reads := ⟨fun h => (by cases h), rfl, by decide⟩

/-- A client that has requested data, and has not been sent any. -/
def requesting : Conn := ⟨{ newData with state := .SRVR_STATE_SENDCHAN }, newRecord⟩

theorem requesting_reading : requesting.Reading 0 :=
  ⟨.inl rfl, ⟨⟨0, 0, [], SERVERPORTNO, none⟩, rfl, rfl⟩, ⟨0, by norm_num⟩, by decide,
    by decide⟩

/-- A text and a packet of one byte, sent byte by byte. -/
theorem caught_up_one : ∃ c' t' es,
    (readerMachine stockOne 0).run requesting (List.replicate 30 takesOne) = some (c', es) ∧
      c'.Reading t' ∧ messages es = requesting.data.due stockOne 0 ∧
      wire es = requesting.data.sendRing.contents ++ (requesting.data.due stockOne 0).flatten ∧
      c'.data.sendRing.contents = [] ∧ c'.data.due stockOne t' = [] :=
  caught_up requesting_reading
    (fun _ hio => (List.eq_of_mem_replicate hio).symm ▸ takesOne_reads) (by decide +kernel)

example : requesting.data.due stockOne 0 = [chanInfoText ⟨10, 1, 1⟩, [0]] := by decide +kernel

end SdrProxy
