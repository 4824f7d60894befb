import SdrProxy.Delivery
import SdrProxy.Items

/-!
# The byte stream of a connection

What goes out on one connection from `get_new_connection` on, whatever the client says, whatever the
cache holds and however much each `send` takes.

* `ServicePass` : what one turn of the loop of the server thread brings for a connection;
* `connMachine` : one connection under such turns; its events say what was placed on the send ring
  and what `send` took;
* `SwitchMove.message` : the `switch` places one whole message or none, and a packet only in
  `SRVR_STATE_SENDADC`;
* `Framed` : the bytes sent and those on the ring are whole messages, one behind the other, the
  first one a text; each step keeps it (`Framed.step`);
* `well_framed` : it holds after every run;
* `Core.passes_always` : the services of a connection are such turns, in every run of the program.
-/

namespace SdrProxy

/-- What one turn of the loop brings for a connection.  What is served has passed the check, and the
cache is in order, as in every run of the program. -/
structure ServicePass where
  /-- The outcomes of the calls. -/
  io : ServerIO
  /-- `chan_info_g`. -/
  chanInfoG : ChannelInfo
  valid : chanInfoG.Valid
  /-- The data ring. -/
  dataRing : DataRing
  ring_ok : dataRing.Ok
  /-- The history records. -/
  hist : HistHeap

/-- What happens on a connection. -/
inductive FrameEvent where
  /-- A message was placed on the send ring. -/
  | placed (msg : List UInt8)
  /-- `send` took the bytes. -/
  | accepted (bytes : List UInt8)
  deriving DecidableEq

/-- The message that was placed on a send ring. -/
def Event.message : Event → Option (List UInt8)
  | .chanPlaced _ text => some text
  | .packetPlaced _ _ pkt => some pkt
  | _ => none

/-- The bytes that `send` takes when the connection is served. -/
def acceptedBytes (p : ServicePass) (conn : ℕ) (c : ConnectionData) : List UInt8 :=
  if c.state = .SRVR_STATE_INACTIVE then []
  else
    match serviceState p.io p.chanInfoG p.dataRing conn ⟨serviceIncoming p.io c, p.hist⟩ with
    | .ok (c₁, _) => c₁.data.sendRing.contents.take (sentCount p.io c₁.data)
    | .error _ => []

/-- The connection `conn`, served again and again. -/
def connMachine (conn : ℕ) : Machine ConnectionData ServicePass FrameEvent where
  step c p := match serviceConnection p.io p.chanInfoG p.dataRing conn ⟨c, p.hist⟩ with
    | .ok (c', es) => some (c'.data,
        (es.filterMap Event.message).map .placed ++ [.accepted (acceptedBytes p conn c)])
    | .error _ => none

/-- The messages that were placed. -/
def messages (es : List FrameEvent) : List (List UInt8) :=
  es.filterMap fun e => match e with
    | .placed msg => some msg
    | .accepted _ => none

/-- The bytes that were sent. -/
def wire (es : List FrameEvent) : List UInt8 :=
  es.flatMap fun e => match e with
    | .placed _ => []
    | .accepted bytes => bytes

/-- The message is the text of what is served, of 25 bytes. -/
def ServicePass.IsText (p : ServicePass) (msg : List UInt8) : Prop :=
  msg = chanInfoText p.chanInfoG ∧ msg.length = CHANINFOLEN

/-- The message is a packet of the cache, of the length that its info says. -/
def ServicePass.IsPacket (p : ServicePass) (msg : List UInt8) : Prop :=
  ∃ element, (element.packetTime, element, msg) ∈ p.dataRing.entries ∧
    msg.length = element.packetLen

/-- The stream of a connection after some passes: the messages placed, as `send` took them and as
they are still on the ring. -/
structure Framed (data : ConnectionData) (passes : List ServicePass) (es : List FrameEvent) :
    Prop where
  /-- The bytes sent and those to be sent are the messages, one behind the other. -/
  stream : wire es ++ data.sendRing.contents = (messages es).flatten
  /-- Each of them is a text or a packet in full. -/
  whole : ∀ msg ∈ messages es, ∃ p ∈ passes, p.IsText msg ∨ p.IsPacket msg
  /-- The first one is a text. -/
  first : ∀ msg ∈ (messages es).head?, ∃ p ∈ passes, p.IsText msg
  /-- Packets are sent after a text. -/
  sending : data.state = .SRVR_STATE_SENDADC → messages es ≠ []

/-! ### One service -/

variable {p : ServicePass} {conn : ℕ} {data data' : ConnectionData} {passes : List ServicePass}
variable {es es' : List FrameEvent}

/-- What a service of the connection can do to its stream. -/
inductive PassMove (p : ServicePass) (data : ConnectionData) :
    ConnectionData → List FrameEvent → Prop
  /-- Nothing is placed. -/
  | quiet {data' : ConnectionData} (bytes : List UInt8) :
      bytes ++ data'.sendRing.contents = data.sendRing.contents →
      (data'.state = .SRVR_STATE_SENDADC → data.state = .SRVR_STATE_SENDADC) →
      PassMove p data data' [.accepted bytes]
  /-- A message is placed. -/
  | message {data' : ConnectionData} (msg bytes : List UInt8) :
      bytes ++ data'.sendRing.contents = data.sendRing.contents ++ msg →
      (p.IsText msg ∨ data.state = .SRVR_STATE_SENDADC ∧ p.IsPacket msg) →
      PassMove p data data' [.placed msg, .accepted bytes]

/-- **The `switch` places one whole message or none**, and a packet only if one was due. -/
theorem SwitchMove.message {c c₁ : Conn} {events : List Event}
    (h : SwitchMove p.io p.chanInfoG p.dataRing conn c c₁ events) :
    (events.filterMap Event.message = [] ∧ c₁.data.sendRing = c.data.sendRing ∧
      (c₁.data.state = .SRVR_STATE_SENDADC → c.data.state = .SRVR_STATE_SENDADC)) ∨
    ∃ msg, events.filterMap Event.message = [msg] ∧
      c₁.data.sendRing.contents = c.data.sendRing.contents ++ msg ∧
      (p.IsText msg ∨ c.data.state = .SRVR_STATE_SENDADC ∧ p.IsPacket msg) := by
  cases h with
  | inactive _ => exact .inl ⟨rfl, rfl, id⟩
  | noRoom _ _ => exact .inl ⟨rfl, rfl, id⟩
  | close hstate => exact .inl ⟨rfl, rfl, fun h => by cases h⟩
  | timeout hstate _ => exact .inl ⟨rfl, rfl, fun h => by cases h⟩
  | wait hstate _ => exact .inl ⟨rfl, rfl, id⟩
  | text hstate hroom =>
    have hlen := length_chanInfoText p.valid
    -- nothing is cut off the text
    have htake : (chanInfoText p.chanInfoG).take CHANINFOLEN = chanInfoText p.chanInfoG := by
      rw [← hlen, List.take_length]
    rw [htake]
    exact .inr ⟨_, rfl, RingSet.contents_store (hlen.le.trans hroom), .inl ⟨rfl, hlen⟩⟩
  | adc record rv hstate hrec hmove =>
    cases hmove with
    | nothing _ => exact .inl ⟨rfl, rfl, id⟩
    | full _ _ _ _ => exact .inl ⟨rfl, rfl, id⟩
    | placed element pkt hretr hfits =>
      have hlen := DataRing.length_of_retr hretr
      have hmem := DataRing.mem_entries_retr p.ring_ok hretr
      exact .inr ⟨pkt, rfl, RingSet.contents_store (hlen.le.trans hfits),
        .inr ⟨hstate, element, hmem, hlen⟩⟩

/-- **What a service of the connection does to its stream**: at most one message is placed, and what
`send` takes comes off the ring. -/
theorem passMove_of_step (hstep : (connMachine conn).step data p = some (data', es')) :
    PassMove p data data' es' := by
  simp only [connMachine] at hstep
  cases hserv : serviceConnection p.io p.chanInfoG p.dataRing conn ⟨data, p.hist⟩ with
  | error msg =>
    rw [hserv] at hstep
    cases hstep
  | ok r =>
    obtain ⟨c', events⟩ := r
    rw [hserv] at hstep
    cases hstep
    by_cases hactive : data.state = .SRVR_STATE_INACTIVE
    · -- nothing is done for an inactive connection
      rw [serviceConnection_inactive hactive] at hserv
      cases hserv
      have hnone : acceptedBytes p conn data = [] := if_pos hactive
      show PassMove p data data [.accepted (acceptedBytes p conn data)]
      rw [hnone]
      exact .quiet [] rfl id
    obtain ⟨c₁, hswitch, hmove, -, hdata⟩ := serviceConnection_moves hserv hactive
    have hswitch' : serviceState p.io p.chanInfoG p.dataRing conn
        ⟨serviceIncoming p.io data, p.hist⟩ = .ok (c₁, events) := hswitch
    obtain ⟨hring, -, hstate⟩ := serviceIncoming_same p.io data
    -- the client can end the transmission, but not start that of packets
    have hdue : (serviceIncoming p.io data).state = .SRVR_STATE_SENDADC →
        data.state = .SRVR_STATE_SENDADC := by
      intro hsend
      rcases hstate with hs | hs | hs
      · exact hs.symm.trans hsend
      · exact absurd (hs.symm.trans hsend) (by simp)
      · exact absurd (hs.symm.trans hsend) (by simp)
    -- what is sent and what is left are what was on the ring
    have hsplit : acceptedBytes p conn data ++ c'.data.sendRing.contents =
        c₁.data.sendRing.contents := by
      simp only [acceptedBytes, hactive, ↓reduceIte, hswitch', hdata]
      rw [RingSet.contents_delete (sentCount_le p.io c₁.data), List.take_append_drop]
    rcases hmove.message with ⟨hnone, hsame, hst⟩ | ⟨msg, hone, hplaced, hkind⟩
    · rw [hnone]
      refine .quiet (acceptedBytes p conn data) ?_ ?_
      · rw [hsplit, hsame]
        exact congrArg RingSet.contents hring
      · intro hsend
        rw [hdata] at hsend
        exact hdue (hst hsend)
    · rw [hone]
      refine .message msg (acceptedBytes p conn data) ?_ ?_
      · rw [hsplit, hplaced]
        exact congrArg (fun r => RingSet.contents r ++ msg) hring
      · exact hkind.imp id fun h => ⟨hdue h.1, h.2⟩

/-- **A service of the connection keeps its stream framed.** -/
theorem Framed.step (h : Framed data passes es) (hmove : PassMove p data data' es') :
    Framed data' (passes ++ [p]) (es ++ es') := by
  have hlater : ∀ {P : ServicePass → Prop}, (∃ q ∈ passes, P q) → ∃ q ∈ passes ++ [p], P q := by
    rintro P ⟨q, hq, hP⟩
    exact ⟨q, List.mem_append_left _ hq, hP⟩
  have hnow : ∀ {P : ServicePass → Prop}, P p → ∃ q ∈ passes ++ [p], P q := by
    intro P hP
    exact ⟨p, List.mem_append_right _ (List.mem_singleton_self p), hP⟩
  cases hmove with
  | quiet bytes hsplit hst =>
    have hmsgs : messages (es ++ [.accepted bytes]) = messages es := by
      simp [messages]
    have hwire : wire (es ++ [.accepted bytes]) = wire es ++ bytes := by
      simp [wire]
    refine ⟨?_, ?_, ?_, ?_⟩
    · rw [hwire, hmsgs, List.append_assoc, hsplit]
      exact h.stream
    · rw [hmsgs]
      exact fun msg hmsg => hlater (h.whole msg hmsg)
    · rw [hmsgs]
      exact fun msg hmsg => hlater (h.first msg hmsg)
    · rw [hmsgs]
      exact fun hs => h.sending (hst hs)
  | message msg bytes hsplit hkind =>
    have hmsgs : messages (es ++ [.placed msg, .accepted bytes]) = messages es ++ [msg] := by
      simp [messages]
    have hwire : wire (es ++ [.placed msg, .accepted bytes]) = wire es ++ bytes := by
      simp [wire]
    refine ⟨?_, ?_, ?_, ?_⟩
    · rw [hwire, hmsgs, List.append_assoc, hsplit, ← List.append_assoc, h.stream,
        List.flatten_append, List.flatten_singleton]
    · rw [hmsgs]
      intro m hm
      rcases List.mem_append.1 hm with hm | hm
      · exact hlater (h.whole m hm)
      · obtain rfl := List.mem_singleton.1 hm
        exact hnow (hkind.imp id And.right)
    · rw [hmsgs]
      intro m hm
      cases hold : messages es with
      | nil =>
        -- the first message of all
        rw [hold] at hm
        obtain rfl : msg = m := Option.some.inj hm
        rcases hkind with htext | ⟨hsend, -⟩
        · exact hnow htext
        · exact absurd hold (h.sending hsend)
      | cons m₀ ms =>
        rw [hold] at hm
        exact hlater (h.first m (by rw [hold]; exact hm))
    · rw [hmsgs]
      intro _ hnil
      exact absurd (List.append_eq_nil_iff.1 hnil).2 (List.cons_ne_nil _ _)

/-! ### Runs -/

theorem Framed.opened (io : ServerIO) (chanInfoG : ChannelInfo) (record : Option ℕ) :
    Framed (.opened io chanInfoG record) [] [] where
  stream := RingSet.contents_alloc _ _
  whole := by simp [messages]
  first := by simp [messages]
  sending := by simp [ConnectionData.opened]

/-- **The byte stream of a connection is well framed.**  From `get_new_connection` on, the bytes
sent and those on the send ring are whole messages, each a text or a packet of the cache, and the
first one is a text. -/
theorem well_framed {io : ServerIO} {chanInfoG : ChannelInfo} {listenerNo conn : ℕ}
    {t t' : ServerThread} {data : ConnectionData} {passes : List ServicePass} {es : List FrameEvent}
    (hopen : t.getNewConnection io chanInfoG listenerNo = .ok (t', [.opened conn]))
    (hrun : (connMachine conn).run (t'.connData conn) passes = some (data, es)) :
    Framed data passes es := by
  rcases getNewConnection_cases hopen with ⟨-, hes⟩ | ⟨remoteIp, newConn, -, -, hopen', hes⟩
  · cases hes
  · cases hes
    obtain ⟨record, hdata⟩ := openConnection_connData hopen'
    refine Machine.run_ind_labels Framed ?_ ?_ hrun
    · rw [hdata, Function.update_self]
      exact Framed.opened io chanInfoG record
    · intro c p c' passes es es' h hstep
      exact h.step (passMove_of_step hstep)

/-- The outcomes for a listening socket when a client connects. -/
def connects : ServerIO :=
  ⟨true, true, true, true, true, .again, ⟨7, .EAGAIN⟩, some [0x31], true, 0, fun _ => 0⟩

/-- A turn in which the client requests data and `send` takes 7 bytes. -/
def requestPass : ServicePass where
  io := ⟨true, true, true, true, true, .bytes CHANREQUEST, ⟨7, .EAGAIN⟩, none, true, 0, fun _ => 0⟩
  chanInfoG := ⟨10, 1, 1⟩
  valid := by decide
  dataRing := .alloc 0 Memory.zero.slots
  ring_ok := DataRing.ok_alloc _ _
  hist := newRecord

/-- A client that connects and requests data twice, while the first text is being sent. -/
theorem well_framed_twice : ∃ t' data es,
    (ServerThread.init fun _ => 0).getNewConnection connects ⟨10, 1, 1⟩ 0 =
      .ok (t', [.opened 0]) ∧
    (connMachine 0).run (t'.connData 0) [requestPass, requestPass] = some (data, es) ∧
    Framed data [requestPass, requestPass] es := by
  have hsome : ((connMachine 0).run (.opened connects ⟨10, 1, 1⟩ (some 0))
      [requestPass, requestPass]).isSome = true := by
    decide +kernel
  obtain ⟨⟨data, es⟩, hrun⟩ := Option.isSome_iff_exists.1 hsome
  have hopen : (ServerThread.init fun _ => 0).getNewConnection connects ⟨10, 1, 1⟩ 0 =
      .ok (_, [.opened 0]) := rfl
  exact ⟨_, data, es, hopen, hrun, well_framed hopen hrun⟩

/-! ### In the program -/

namespace Core

variable {s s' : Core} {l : Label} {events : List Event}

theorem Move.ring_ok (hm : s.Move l s' events) (h : s.dataRing.Ok) : s'.dataRing.Ok := by
  cases hm with
  | fail _ _ => exact h
  | server _ _ _ => exact h
  | main hmain =>
    cases hmain with
    | dealloc _ => exact DataRing.ok_dealloc h
    | alloc mem _ => exact DataRing.ok_alloc _ _
    | _ => exact h
  | client hclient =>
    cases hclient with
    | check t _ _ _ _ _ _ _ hring hhanded =>
      show DataRing.Ok _
      rw [hring]
      generalize t.item = item at hhanded
      cases hhanded with
      | none _ hsame =>
        rw [hsame]
        exact h
      | chan c _ hsame =>
        rw [hsame]
        exact h
      | adc element pktImg pkt ret _ _ hstore =>
        exact (DataRing.mem_entries_store h hstore).1
    | _ => exact h

/-- **In every run of the program the services of a connection are steps of `connMachine`.** -/
theorem passes_always (clientNo failtimer : ℤ) (mem : Memory) (ls : List Label) :
    proxy.Always (fun s l _ s' => ∀ io t conn, l = .server io → s.server = some t →
        t.pc = .service conn → s'.exited = none →
        ∃ p t' es, p.io = io ∧ p.chanInfoG = s.chanInfoG ∧ p.dataRing = s.dataRing ∧
          s'.server = some t' ∧
          (connMachine conn).step (t.connData conn) p = some (t'.connData conn, es))
      (init clientNo failtimer mem) ls := by
  refine Machine.always_of_inv (fun s => s.ConfValid ∧ s.dataRing.Ok) ?_ ?_ ls
  · exact ⟨confValid_init _ _ _, DataRing.ok_alloc _ _⟩
  · rintro s l s' events ⟨hconf, hring⟩ hstep
    have hmove := step_cases hstep
    refine ⟨⟨hconf.step hmove, hmove.ring_ok hring⟩, ?_⟩
    rintro io t conn rfl ht hpc hexited'
    have hvalid : s.chanInfoG.Valid := hconf.copied (.inr (by simp [ht]))
    let p : ServicePass := ⟨io, s.chanInfoG, hvalid, s.dataRing, hring, t.hist⟩
    have hexited := exited_of_step hstep
    change s.step (.server io) = _ at hstep
    simp only [step, hexited, Option.isSome_none, Bool.false_eq_true, ↓reduceIte, serverStep, ht,
      hpc, reduceCtorEq, step_service hpc] at hstep
    cases hserv : serviceConnection io s.chanInfoG s.dataRing conn ⟨t.connData conn, t.hist⟩ with
    | error msg =>
      -- the program ends
      rw [hserv] at hstep
      cases hstep
      cases hexited'
    | ok r =>
      rw [hserv] at hstep
      cases hstep
      refine ⟨p, _, (r.2.filterMap Event.message).map .placed ++
        [.accepted (acceptedBytes p conn (t.connData conn))], rfl, rfl, rfl, rfl, ?_⟩
      simp only [connMachine, p, hserv, Function.update_self]

end Core

end SdrProxy
