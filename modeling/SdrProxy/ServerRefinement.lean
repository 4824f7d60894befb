import SdrProxy.ReceiveRing
import SdrProxy.SetBack
import SdrProxy.Switchboard

/-!
# The server thread is a switchboard

The server thread, with its byte rings, its linked records and its data ring, does what the
switchboard does, in every run.

* `IsSession` : a connection record as the session that it stands for; `IsSession.hear`,
  `IsSession.turn` and `IsSession.send` are the three parts of a service;
* `ServerThread.Is` : a thread as a switchboard, given the list of records and the client of each
  connection (`Is.step`);
* `server_refines` : the runs of the thread are the runs of the switchboard, with the same events.
-/

namespace SdrProxy

/-! ### Connections -/

/-- The phase that a state stands for. -/
def ServrState.phase (idleTimer : ℤ) : ServrState → Option Phase
  | SRVR_STATE_INACTIVE => none
  | SRVR_STATE_INIT => some (.waiting idleTimer.toNat)
  | SRVR_STATE_SENDCHAN => some .text
  | SRVR_STATE_SENDADC => some .packets
  | SRVR_STATE_SHUTDOWN => some .closing

/-- The connection record stands for the session. -/
structure IsSession (d : ConnectionData) (s : Session) : Prop where
  phase : d.state.phase d.idleTimer = some s.phase
  inbox : d.rcvRing.contents = s.inbox
  roomy : d.rcvRing.Roomy
  outbox : d.sendRing.contents = s.outbox
  room : d.capacity = s.room

/-- The connection record stands for a session, or for none. -/
def Shows (d : ConnectionData) : Option Session → Prop
  | none => d.state = .SRVR_STATE_INACTIVE
  | some s => IsSession d s

variable {d d' : ConnectionData} {s : Session} {io : ServerIO} {chanInfoG : ChannelInfo}
variable {dataRing : DataRing} {conn : ℕ}

theorem IsSession.active (h : IsSession d s) : d.state ≠ .SRVR_STATE_INACTIVE := by
  intro hinactive
  have hphase := h.phase
  rw [hinactive] at hphase
  cases hphase

theorem checkServerIncoming_eq (d : ConnectionData) :
    ∃ ring, (checkServerIncoming d).2 = { d with rcvRing := ring } := by
  unfold checkServerIncoming
  dsimp only
  split_ifs <;> exact ⟨_, rfl⟩

/-- A connection record that changed in nothing but the state and the receive ring. -/
theorem IsSession.heard (h : IsSession d s) {state : ServrState} {ring : RingSet} {phase : Phase}
    {inbox : List UInt8} (hphase : state.phase d.idleTimer = some phase)
    (hinbox : ring.contents = inbox) (hroomy : ring.Roomy) :
    IsSession { d with state := state, rcvRing := ring }
      { s with phase := phase, inbox := inbox } :=
  ⟨hphase, hinbox, hroomy, h.outbox, h.room⟩

/-- **What the client says is heard.** -/
theorem IsSession.hear (h : IsSession d s) (io : ServerIO) :
    IsSession (serviceIncoming io d) (s.hear io) := by
  have hfree := h.roomy.free_ne_zero
  have hroomy := serviceIncoming_roomy io h.roomy
  by_cases hread : io.readable = true
  · cases hrecv : io.recv with
    | again =>
      have hnone : serverRcvToRing .again d = (0, d) := ite_self _
      simpa [Session.hear, serviceIncoming, hread, hrecv, hnone] using h
    | error =>
      rw [serviceIncoming_gone h.roomy hread (.inr hrecv)]
      simp only [Session.hear, hread, hrecv, ↓reduceIte]
      exact h.heard rfl h.inbox h.roomy
    | bytes l =>
      cases l with
      | nil =>
        rw [serviceIncoming_gone h.roomy hread (.inl hrecv)]
        simp only [Session.hear, hread, hrecv, ↓reduceIte]
        exact h.heard rfl h.inbox h.roomy
      | cons b l =>
        have hsum := d.rcvRing.bytesStored_add_bytesFree
        rw [h.roomy.bfrsize, Nat.add_sub_cancel] at hsum
        have hmin : min SERVERRCVBFRSIZE d.rcvRing.bytesFree = d.rcvRing.bytesFree := by omega
        rw [hmin] at hfree
        have hinbox : SERVERRCVBFRSIZE - s.inbox.length = d.rcvRing.bytesFree := by
          rw [← h.inbox, RingSet.length_contents]
          omega
        -- the bytes that there is room for
        obtain ⟨taken, htaken⟩ : ∃ taken, taken = (b :: l).take d.rcvRing.bytesFree := ⟨_, rfl⟩
        have hlen : taken.length ≤ d.rcvRing.bytesFree := htaken ▸ List.length_take_le _ _
        have hpos : 0 < taken.length := by
          rw [htaken, List.length_take, List.length_cons]
          omega
        have hcontents : (d.rcvRing.store taken).2.contents = s.inbox ++ taken := by
          rw [RingSet.contents_store hlen, h.inbox]
        have hrcv : serverRcvToRing (.bytes (b :: l)) d =
            ((taken.length : ℤ), { d with rcvRing := (d.rcvRing.store taken).2 }) := by
          simp only [serverRcvToRing, hmin, hfree, ↓reduceIte, ← htaken, hpos]
        have hnonneg : ¬ (taken.length : ℤ) < 0 := by omega
        obtain ⟨ring, hring⟩ :=
          checkServerIncoming_eq { d with rcvRing := (d.rcvRing.store taken).2 }
        simp only [serviceIncoming, hread, hrecv, hrcv, hnonneg, Int.natCast_pos, hpos, hring,
          ↓reduceIte] at hroomy ⊢
        simp only [Session.hear, hread, hrecv, hinbox, ← htaken, ↓reduceIte]
        cases hfind : findSub CHANREQUEST (s.inbox ++ taken) with
        | some i =>
          obtain ⟨hone, hdrop⟩ := checkServerIncoming_found
            (c := { d with rcvRing := (d.rcvRing.store taken).2 }) (hcontents ▸ hfind)
          rw [hring, hcontents] at hdrop
          simp only [hone, ↓reduceIte] at hroomy ⊢
          exact h.heard rfl hdrop hroomy
        | none =>
          obtain ⟨hzero, hdrop⟩ := checkServerIncoming_missed
            (c := { d with rcvRing := (d.rcvRing.store taken).2 }) (hcontents ▸ hfind)
          rw [hring, hcontents] at hdrop
          simp only [hzero, zero_ne_one, ↓reduceIte] at hroomy ⊢
          exact h.heard h.phase hdrop hroomy
  · simpa [Session.hear, serviceIncoming, hread] using h

theorem retr_eq_nextPacket (hok : dataRing.Ok) (time : PacketTime) :
    (dataRing.retr time).2 = Switchboard.nextPacket dataRing.map time := by
  rw [DataRing.retr_spec hok, Switchboard.nextPacket]
  cases dataRing.map.next (time + 1 / 1000) <;> rfl

theorem IsSession.place (h : IsSession d s) {state : ServrState} {phase : Phase} {msg : List UInt8}
    (hphase : state.phase d.idleTimer = some phase) (hroom : msg.length ≤ d.sendRing.bytesFree) :
    IsSession { d with state := state, sendRing := (d.sendRing.store msg).2 }
      { s with phase := phase, outbox := s.outbox ++ msg } := by
  refine ⟨hphase, h.inbox, h.roomy, ?_, ?_⟩
  · rw [← h.outbox]
    exact RingSet.contents_store hroom
  · rw [← h.room]
    exact congrArg (· - 1) (RingSet.bfrsize_store _ _)

theorem IsSession.room_iff (h : IsSession d s) (n : ℕ) :
    s.outbox.length + n ≤ s.room ↔ n ≤ d.sendRing.bytesFree := by
  rw [← h.outbox, ← h.room]
  exact SdrProxy.room_iff d

/-- **The `switch` does what is next for the client.** -/
theorem IsSession.turn (h : IsSession d s) (hok : dataRing.Ok) (chanInfoG : ChannelInfo)
    (conn : ℕ) (time : PacketTime) :
    Shows (serveState chanInfoG dataRing conn time d).1
      (s.turn ((chanInfoText chanInfoG).take CHANINFOLEN)
        (Switchboard.nextPacket dataRing.map time) conn).1 ∧
    (serveState chanInfoG dataRing conn time d).2 =
      (s.turn ((chanInfoText chanInfoG).take CHANINFOLEN)
        (Switchboard.nextPacket dataRing.map time) conn).2 := by
  have hphase := h.phase
  rw [← retr_eq_nextPacket hok]
  unfold serveState Session.turn
  cases hstate : d.state with
  | SRVR_STATE_INACTIVE => exact absurd hstate h.active
  | SRVR_STATE_SHUTDOWN =>
    rw [hstate] at hphase
    rw [← Option.some.inj hphase]
    exact ⟨rfl, rfl⟩
  | SRVR_STATE_INIT =>
    rw [hstate] at hphase
    rw [← Option.some.inj hphase]
    by_cases htimer : d.idleTimer ≤ 0
    · have hzero : d.idleTimer.toNat = 0 := by omega
      simp only [hzero, htimer, ↓reduceIte]
      exact ⟨h.heard rfl h.inbox h.roomy, trivial⟩
    · obtain ⟨left, hleft⟩ : ∃ left, d.idleTimer.toNat = left + 1 :=
        ⟨d.idleTimer.toNat - 1, by omega⟩
      simp only [hleft, htimer, ↓reduceIte]
      have hnext : (d.idleTimer - 1).toNat = left := by omega
      refine ⟨⟨?_, h.inbox, h.roomy, h.outbox, h.room⟩, trivial⟩
      show some (Phase.waiting (d.idleTimer - 1).toNat) = some (.waiting left)
      rw [hnext]
  | SRVR_STATE_SENDCHAN =>
    rw [hstate] at hphase
    rw [← Option.some.inj hphase]
    simp only [h.room_iff]
    by_cases hroom : CHANINFOLEN ≤ d.sendRing.bytesFree
    · simp only [hroom, ↓reduceIte]
      exact ⟨h.place rfl ((List.length_take_le _ _).trans hroom), trivial⟩
    · simp only [hroom, ↓reduceIte]
      exact ⟨h, trivial⟩
  | SRVR_STATE_SENDADC =>
    rw [hstate] at hphase
    rw [← Option.some.inj hphase]
    dsimp only [placeNext]
    cases hretr : (dataRing.retr time).2 with
    | none => exact ⟨h, rfl⟩
    | some found =>
      obtain ⟨element, pkt⟩ := found
      simp only [h.room_iff]
      by_cases hroom : element.packetLen ≤ d.sendRing.bytesFree
      · simp only [Nat.not_lt.2 hroom, hroom, ↓reduceIte]
        refine ⟨?_, trivial⟩
        exact h.place (hstate ▸ rfl) ((DataRing.length_of_retr hretr).le.trans hroom)
      · simp only [Nat.lt_of_not_le hroom, hroom, ↓reduceIte]
        exact ⟨h, trivial⟩

theorem IsSession.sends_iff (h : IsSession d s) : CallsSendToClient io d ↔ s.Sends io := by
  have hempty : d.sendRing.bytesStored ≠ 0 ↔ s.outbox ≠ [] := by
    rw [← h.outbox, ← RingSet.length_contents, ne_eq, List.length_eq_zero_iff]
  have hstate : (d.state = .SRVR_STATE_SENDCHAN ∨ d.state = .SRVR_STATE_SENDADC) ↔
      (s.phase = .text ∨ s.phase = .packets) := by
    have hphase := h.phase
    cases hstate : d.state <;> rw [hstate] at hphase <;>
      simp only [ServrState.phase, Option.some.injEq, reduceCtorEq] at hphase <;> simp [← hphase]
  exact and_congr hempty (and_congr_right fun _ => hstate)

/-- **What was sent is gone.** -/
theorem IsSession.send (h : IsSession d s) (io : ServerIO) :
    Option.Rel IsSession (serviceOutgoing io d).toOption (s.send io) := by
  unfold Session.send
  by_cases hcall : CallsSendToClient io d
  · have hlen : d.sendRing.bytesStored = s.outbox.length := by
      rw [← h.outbox, RingSet.length_contents]
    rw [serviceOutgoing_of_call hcall, if_pos (h.sends_iff.1 hcall), ← hlen]
    rcases Nat.lt_or_ge MAXPACKETSIZE d.sendRing.bytesStored with hover | hcopy
    · rw [sendToClient_of_overrun hover, if_pos hover]
      exact .none
    rw [if_neg (Nat.not_lt.2 hcopy)]
    by_cases hfails : SendFails io.send
    · rw [if_pos hfails]
      by_cases herr : io.send.errno = .EPIPE
      · rw [sendToClient_of_epipe hcopy hfails herr, if_pos herr]
        exact .some h
      · rw [sendToClient_of_fails hcopy hfails herr, if_neg herr]
        exact .none
    · obtain ⟨rv, heq, -⟩ := sendToClient_of_not_fails hcall hcopy hfails
      rw [heq, if_neg hfails]
      refine .some ⟨h.phase, h.inbox, h.roomy, ?_, ?_⟩
      · show (d.sendRing.delete (sentCount io d)).2.contents = s.outbox.drop io.send.rv.toNat
        rw [RingSet.contents_delete (sentCount_le io d), ← h.outbox, sentCount, if_pos hcall]
        -- more than there is cannot be dropped
        rcases le_total io.send.rv d.sendRing.bytesStored with hle | hle
        · rw [min_eq_left hle]
        · rw [min_eq_right hle, Int.toNat_natCast, List.drop_of_length_le, List.drop_of_length_le]
          · rw [RingSet.length_contents]
            omega
          · rw [RingSet.length_contents]
      · rw [← h.room]
        exact congrArg (· - 1) (RingSet.bfrsize_delete _ _)
  · rw [serviceOutgoing_of_not_call hcall, if_neg (h.sends_iff.not.1 hcall)]
    exact .some h

/-- **A service of the connection is a service of the session.** -/
theorem IsSession.service (h : IsSession d s) (hok : dataRing.Ok) (io : ServerIO)
    (chanInfoG : ChannelInfo) (conn : ℕ) (time : PacketTime) :
    Option.Rel (fun r r' => Shows r.1 r'.1 ∧ r.2 = r'.2)
      (serve io chanInfoG dataRing conn time d).toOption
      (s.service io ((chanInfoText chanInfoG).take CHANINFOLEN)
        (Switchboard.nextPacket dataRing.map time) conn) := by
  obtain ⟨hshows, heq⟩ := (h.hear io).turn hok chanInfoG conn time
  unfold serve Session.service
  rw [if_neg h.active]
  dsimp only
  cases hturn : ((s.hear io).turn ((chanInfoText chanInfoG).take CHANINFOLEN)
      (Switchboard.nextPacket dataRing.map time) conn).1 with
  | none =>
    rw [hturn] at hshows
    have hcall : ¬ CallsSendToClient io
        (serveState chanInfoG dataRing conn time (serviceIncoming io d)).1 := by
      rintro ⟨-, -, hstate | hstate⟩ <;> rw [show _ = _ from hshows] at hstate <;> cases hstate
    rw [serviceOutgoing_of_not_call hcall]
    exact .some ⟨by rw [hturn]; exact hshows, heq⟩
  | some s' =>
    rw [hturn] at hshows
    have hsend := IsSession.send hshows io
    dsimp only
    generalize serviceOutgoing io _ = out at hsend
    generalize s'.send io = out' at hsend
    cases out with
    | error msg =>
      cases hsend
      exact .none
    | ok d' =>
      cases hsend with
      | some hd => exact .some ⟨hd, heq⟩

/-! ### The thread -/

theorem Session.client_hear (io : ServerIO) (s : Session) : (s.hear io).client = s.client := by
  unfold hear
  split_ifs
  · cases io.recv with
    | again => rfl
    | error => rfl
    | bytes l =>
      cases l with
      | nil => rfl
      | cons b l =>
        dsimp only
        cases findSub CHANREQUEST _ <;> rfl
  · rfl

theorem Session.client_of_turn {text : List UInt8} {next : Option (PacketInfo × List UInt8)}
    {s' : Session} (h : (s.turn text next conn).1 = some s') : s'.client = s.client := by
  unfold turn at h
  cases hphase : s.phase with
  | closing => simp [hphase] at h
  | waiting left =>
    cases left <;> simp only [hphase] at h <;> exact (Option.some.inj h) ▸ rfl
  | text =>
    simp only [hphase] at h
    split_ifs at h <;> exact (Option.some.inj h) ▸ rfl
  | packets =>
    simp only [hphase] at h
    cases next with
    | none => exact (Option.some.inj h) ▸ rfl
    | some found =>
      dsimp only at h
      split_ifs at h <;> exact (Option.some.inj h) ▸ rfl

theorem Session.client_of_send {s' : Session} (h : s.send io = some s') : s'.client = s.client := by
  unfold send at h
  split_ifs at h <;> exact (Option.some.inj h) ▸ rfl

theorem Session.client_of_service {text : List UInt8} {next : Option (PacketInfo × List UInt8)}
    {s' : Session} {r : Option PacketTime × List Event}
    (h : s.service io text next conn = some (some s', r)) : s'.client = s.client := by
  unfold service at h
  dsimp only at h
  cases hturn : ((s.hear io).turn text next conn).1 with
  | none =>
    rw [hturn] at h
    have hnone := congrArg Prod.fst (Option.some.inj h)
    rw [hturn] at hnone
    cases hnone
  | some s₁ =>
    rw [hturn] at h
    obtain ⟨s₂, hsend, hs₂⟩ := Option.map_eq_some_iff.1 h
    obtain rfl : s₂ = s' := Option.some.inj (congrArg Prod.fst hs₂)
    rw [client_of_send hsend, client_of_turn hturn, client_hear]

/-- What a step of the thread meets, with the data ring as a map. -/
def ThreadLabel.abstract (label : ThreadLabel) : SwitchboardLabel :=
  ⟨label.io, label.closeCmd, label.chanInfoG, label.dataRing.map⟩

/-- The thread as a switchboard: the records are those at `l`, and `addr` says who is on each
connection. -/
structure ServerThread.Is (t : ServerThread) (o : Switchboard) (l : List ℕ)
    (addr : ℕ → Option Address) : Prop where
  pc : t.pc = o.pc
  accounts : Accounts t l addr
  empty : t.serverConnHistory = none
  sessions : ∀ i, Shows (t.connData i) (o.sessions i)
  clients : ∀ i s, o.sessions i = some s → addr i = some s.client
  marks : ∀ a, o.marks a = (t.hist.book l a).map HistEntry.lastPacketTime

/-- The thread does what the switchboard does. -/
def ServerThread.Serves (t : ServerThread) (o : Switchboard) : Prop := ∃ l addr, t.Is o l addr

variable {t t' : ServerThread} {o : Switchboard} {l : List ℕ} {addr : ℕ → Option Address}
variable {label : ThreadLabel} {es : List Event}

theorem serves_init (mem : Bfr) : (ServerThread.init mem).Serves .init :=
  ⟨[], fun _ => none, rfl, .init mem, rfl, fun _ => rfl, by simp [Switchboard.init], fun _ => rfl⟩

/-- A connection record as it is set up stands for a session as it is opened. -/
theorem isSession_opened (io : ServerIO) (chanInfoG : ChannelInfo) (record : Option ℕ)
    (client : Address) : IsSession (.opened io chanInfoG record)
      (.opened client (ServerThread.sendBfrSize chanInfoG)) :=
  ⟨rfl, RingSet.contents_alloc _ _, RingSet.roomy_alloc _, RingSet.contents_alloc _ _, rfl⟩

theorem findInactive_eq (h : ∀ i, Shows (t.connData i) (o.sessions i)) (left connNo : ℕ) :
    ServerThread.findInactive t.connData left connNo =
      (List.range' connNo left).find? fun i => (o.sessions i).isNone := by
  induction left generalizing connNo with
  | zero => rfl
  | succ left ih =>
    rw [ServerThread.findInactive, List.range'_succ, List.find?_cons, ih]
    have hshows := h connNo
    cases hsession : o.sessions connNo with
    | none =>
      rw [hsession] at hshows
      rw [if_pos (show _ = _ from hshows)]
      rfl
    | some s =>
      rw [hsession] at hshows
      rw [if_neg (IsSession.active hshows)]
      rfl

/-- The thread after a service of the connection `conn`. -/
def ServerThread.served (pc : ServerPc) (conn : ℕ) (c : Conn) (t : ServerThread) : ServerThread :=
  { t with connData := Function.update t.connData conn c.data, hist := c.hist, pc := pc }

/-- **A service of a connection is one on the switchboard.** -/
theorem ServerThread.Is.serve (h : t.Is o l addr) (hok : label.dataRing.Ok) (pc : ServerPc)
    (conn : ℕ) :
    Option.Rel (fun r r' => (t.served pc conn r.1).Serves { r'.1 with pc := pc } ∧ r.2 = r'.2)
      (serviceConnection label.io label.chanInfoG label.dataRing conn
        ⟨t.connData conn, t.hist⟩).toOption
      (o.serve label.abstract conn) := by
  have hshows := h.sessions conn
  unfold Switchboard.serve
  cases hsession : o.sessions conn with
  | none =>
    rw [hsession] at hshows
    have hidle : (t.connData conn).state = .SRVR_STATE_INACTIVE := hshows
    rw [serviceConnection_inactive (by exact hidle)]
    have hsame : t.served pc conn ⟨t.connData conn, t.hist⟩ = { t with pc := pc } := by
      rw [served, Function.update_eq_self]
    refine .some ⟨?_, rfl⟩
    rw [hsame]
    exact ⟨l, addr, rfl, ⟨h.accounts.list, h.accounts.linked⟩, h.empty, h.sessions, h.clients,
      h.marks⟩
  | some s =>
    rw [hsession] at hshows
    have hactive := IsSession.active hshows
    -- the mark of the client is the time that its record says
    obtain ⟨a, p, ha, hp, hlink⟩ := h.accounts.linked conn hactive
    obtain rfl : a = s.client := Option.some.inj (ha.symm.trans (h.clients conn s hsession))
    obtain ⟨hmem, e, he, haddr⟩ := h.accounts.list.find_eq_some.1 hp
    obtain ⟨r, hr, hentry⟩ := HistHeap.entry_eq_some.1 he
    have hbook := h.accounts.list.book_eq_some.2 ⟨p, hmem, he, haddr⟩
    have hderef : t.hist.deref (t.connData conn).history = .ok r :=
      HistHeap.deref_eq_ok.2 ⟨p, hlink, hr⟩
    have htime : r.lastPacketTime = e.lastPacketTime := congrArg HistEntry.lastPacketTime hentry
    have hmark : (o.marks s.client).getD 0 = r.lastPacketTime := by
      rw [h.marks, hbook, htime]
      rfl
    have hserv := IsSession.service hshows hok label.io label.chanInfoG conn r.lastPacketTime
    have heq : serviceConnection label.io label.chanInfoG label.dataRing conn
        ⟨t.connData conn, t.hist⟩ = (SdrProxy.serve label.io label.chanInfoG label.dataRing conn
          r.lastPacketTime (t.connData conn)).map fun x =>
            (⟨x.1, t.hist.note (t.connData conn).history r label.io.now x.2.1⟩, x.2.2) :=
      serviceConnection_eq hderef
    rw [heq]
    show Option.Rel _ _ (Option.map _ (s.service label.io
      ((chanInfoText label.chanInfoG).take CHANINFOLEN)
      (Switchboard.nextPacket label.dataRing.map ((o.marks s.client).getD 0)) conn))
    rw [hmark]
    generalize hserved : s.service label.io _ _ conn = served at hserv ⊢
    cases hserve : SdrProxy.serve label.io label.chanInfoG label.dataRing conn r.lastPacketTime
        (t.connData conn) with
    | error msg =>
      rw [hserve] at hserv
      cases hserv
      exact .none
    | ok x =>
      obtain ⟨d', placed, es⟩ := x
      rw [hserve] at hserv heq
      cases hserv with
      | @some _ x' hrel =>
        obtain ⟨s', placed', es'⟩ := x'
        obtain ⟨hshows', hsame⟩ := hrel
        obtain ⟨rfl, rfl⟩ := Prod.mk.inj hsame
        obtain ⟨haccounts, hcases⟩ := h.accounts.serviceConnection heq
        refine .some ⟨⟨l, addr, rfl, ⟨haccounts.list, haccounts.linked⟩, h.empty, ?_, ?_, ?_⟩, rfl⟩
        · intro i
          show Shows (Function.update t.connData conn d' i) (Function.update o.sessions conn s' i)
          by_cases hconn : i = conn
          · subst hconn
            rw [Function.update_self, Function.update_self]
            exact hshows'
          · rw [Function.update_of_ne hconn, Function.update_of_ne hconn]
            exact h.sessions i
        · intro i s'' hs''
          change Function.update o.sessions conn s' i = some s'' at hs''
          by_cases hconn : i = conn
          · subst hconn
            rw [Function.update_self] at hs''
            obtain rfl := hs''
            rw [ha, Session.client_of_service hserved]
          · rw [Function.update_of_ne hconn] at hs''
            exact h.clients i s'' hs''
        · intro b
          rcases hcases with ⟨hidle, -⟩ | ⟨a, e', placed', -, ha', he', hserve', hbook'⟩
          · exact absurd hidle hactive
          · -- what was placed is noted in the record, and is the new mark
            obtain rfl : a = s.client := Option.some.inj (ha'.symm.trans ha)
            obtain rfl : e' = e := Option.some.inj (he'.symm.trans hbook)
            rw [← htime, hserve] at hserve'
            obtain ⟨-, hsame'⟩ := Prod.mk.inj (Except.ok.inj hserve')
            obtain ⟨rfl, -⟩ := Prod.mk.inj hsame'
            refine Eq.trans ?_
              (congrArg (fun book => (book b).map HistEntry.lastPacketTime) hbook'.symm)
            cases placed with
            | none => exact h.marks b
            | some time =>
              show Function.update o.marks s.client (some time) b =
                (Function.update (t.hist.book l) s.client _ b).map _
              by_cases hb : b = s.client
              · rw [hb, Function.update_self, Function.update_self]
                rfl
              · rw [Function.update_of_ne hb, Function.update_of_ne hb]
                exact h.marks b

theorem ServerThread.Is.findInactive_eq (h : t.Is o l addr) :
    ServerThread.findInactive t.connData MAXCLIENTCONNECTIONS 0 =
      Switchboard.freeLine o.sessions := by
  rw [SdrProxy.findInactive_eq h.sessions, Switchboard.freeLine, List.range_eq_range']

theorem ServerThread.Is.opens_eq (h : t.Is o l addr) (io : ServerIO) : t.opens io = o.opens io := by
  rw [ServerThread.opens, h.findInactive_eq]
  rfl

/-- **A new connection is one on the switchboard.** -/
theorem ServerThread.Is.accept (h : t.Is o l addr) (pc : ServerPc) (listenerNo : ℕ) :
    Option.Rel (fun r r' => ({ r.1 with pc := pc } : ServerThread).Serves { r'.1 with pc := pc } ∧
        r.2 = r'.2)
      (t.getNewConnection label.io label.chanInfoG listenerNo).toOption
      (some (o.accept label.abstract listenerNo)) := by
  have hfind := h.findInactive_eq
  have hsame : ({ t with pc := pc } : ServerThread).Serves { o with pc := pc } :=
    ⟨l, addr, rfl, ⟨h.accounts.list, h.accounts.linked⟩, h.empty, h.sessions, h.clients, h.marks⟩
  unfold Switchboard.accept
  cases hacc : label.io.accept with
  | none =>
    have hacc' : label.abstract.io.accept = none := hacc
    rw [getNewConnection_of_none (.inl hacc), hacc']
    exact .some ⟨hsame, rfl⟩
  | some remoteIp =>
    have hacc' : label.abstract.io.accept = some remoteIp := hacc
    rw [hacc']
    cases hfree : Switchboard.freeLine o.sessions with
    | none =>
      rw [getNewConnection_of_none (.inr (hfind.trans hfree))]
      exact .some ⟨hsame, rfl⟩
    | some conn =>
      obtain ⟨t', l', hopen, haccounts, hbook, ⟨record, hdata⟩, hempty⟩ :=
        h.accounts.openConnection label.io label.chanInfoG remoteIp listenerNo conn rfl
      rw [getNewConnection_of_some hacc (hfind.trans hfree), hopen]
      refine .some ⟨⟨l', _, rfl, ⟨haccounts.list, haccounts.linked⟩, hempty.trans h.empty, ?_, ?_,
        ?_⟩, rfl⟩
      · intro i
        show Shows (t'.connData i) (Function.update o.sessions conn _ i)
        rw [hdata]
        by_cases hconn : i = conn
        · subst hconn
          rw [Function.update_self, Function.update_self]
          exact isSession_opened _ _ _ _
        · rw [Function.update_of_ne hconn, Function.update_of_ne hconn]
          exact h.sessions i
      · intro i s hs
        change Function.update o.sessions conn _ i = some s at hs
        by_cases hconn : i = conn
        · subst hconn
          rw [Function.update_self] at hs ⊢
          obtain rfl := Option.some.inj hs
          rfl
        · rw [Function.update_of_ne hconn] at hs ⊢
          exact h.clients i s hs
      · intro b
        show Function.update o.marks _ _ b = (t'.hist.book l' b).map _
        rw [hbook]
        by_cases hb : b = (remoteIp, (SERVERPORTNO + listenerNo : ℤ))
        · rw [hb, Function.update_self, Function.update_self, h.marks]
          cases t.hist.book l (remoteIp, SERVERPORTNO + listenerNo) with
          | none => rfl
          | some e => exact congrArg some (setBack_eq e.lastPacketTime).symm
        · rw [Function.update_of_ne hb, Function.update_of_ne hb]
          exact h.marks b

theorem ServerThread.Is.goOn (h : t.Is o l addr) (pc : ServerPc) :
    ({ t with pc := pc } : ServerThread).Serves { o with pc := pc } :=
  ⟨l, addr, rfl, ⟨h.accounts.list, h.accounts.linked⟩, h.empty, h.sessions, h.clients, h.marks⟩

theorem threadMachine_step (t : ServerThread) (label : ThreadLabel) :
    threadMachine.step t label = ((t.step label.io label.closeCmd label.chanInfoG
      label.dataRing).toOption).map fun r => (r.1, r.2.2) := by
  unfold threadMachine
  cases h : t.step label.io label.closeCmd label.chanInfoG label.dataRing <;> simp only [h] <;> rfl

/-- **A step of the thread is one of the switchboard.** -/
theorem ServerThread.Is.step (h : t.Is o l addr) (hok : label.dataRing.Ok) :
    Machine.Mirrors ServerThread.Serves (threadMachine.step t label)
      (switchboardMachine.step o label.abstract) := by
  have hpc := h.pc
  rw [threadMachine_step]
  simp only [switchboardMachine, Switchboard.step, Switchboard.act, ← hpc]
  cases hat : t.pc with
  | setup =>
    simp only [ServerThread.step, hat]
    show Machine.Mirrors _ _ (Option.map _ (if label.io.malloc ∧ label.io.setup then _ else _))
    cases label.io.malloc with
    | false => exact .none
    | true =>
      cases label.io.setup with
      | false => exact .none
      | true => exact .some ⟨h.goOn _, rfl⟩
  | flags =>
    simp only [ServerThread.step, hat]
    show Machine.Mirrors _ _ (Option.map _ (if label.closeCmd then
      if label.io.close then _ else _ else if label.io.select then _ else _))
    cases hclose : label.closeCmd with
    | true =>
      simp only [↓reduceIte]
      split_ifs
      · refine .some ⟨⟨l, addr, ?_, ?_, h.empty, fun _ => rfl, ?_, h.marks⟩, rfl⟩
        · show _ = ServerPc.next label.closeCmd .flags
          rw [hclose]
          rfl
        · exact ⟨h.accounts.list, fun i hi => absurd rfl hi⟩
        · intro i s hs
          cases hs
      · exact .none
    | false =>
      simp only [Bool.false_eq_true, ↓reduceIte]
      split_ifs
      · refine .some ⟨?_, rfl⟩
        have hnext : ServerPc.next label.abstract.closeCmd .flags = .service 0 := by
          rw [show label.abstract.closeCmd = false from hclose]
          rfl
        show ServerThread.Serves _ { o with pc := ServerPc.next label.abstract.closeCmd .flags }
        rw [hnext]
        exact h.goOn _
      · exact .none
  | closing =>
    simp only [ServerThread.step, hat]
    exact .some ⟨h.goOn _, rfl⟩
  | service conn =>
    rw [step_service hat]
    have hserve := h.serve hok
      (if conn + 1 < MAXCLIENTCONNECTIONS then .service (conn + 1) else .listen 0) conn
    generalize serviceConnection label.io label.chanInfoG label.dataRing conn
      ⟨t.connData conn, t.hist⟩ = out at hserve
    dsimp only
    generalize o.serve label.abstract conn = out' at hserve
    cases out with
    | error msg =>
      cases hserve
      exact .none
    | ok c =>
      cases hserve with
      | some hrel => exact .some hrel
  | listen listenerNo =>
    simp only [ServerThread.step, hat]
    unfold listen
    show Machine.Mirrors _ _ (Option.map _ (if !label.io.readable then _ else
      if o.opens label.io && !label.io.malloc then _ else _))
    rw [← h.opens_eq]
    by_cases hread : (!label.io.readable) = true
    · rw [if_pos hread, if_pos hread]
      exact .some ⟨h.goOn _, rfl⟩
    · rw [if_neg hread, if_neg hread]
      by_cases hfail : (t.opens label.io && !label.io.malloc) = true
      · rw [if_pos hfail, if_pos hfail]
        exact .none
      · rw [if_neg hfail, if_neg hfail]
        have haccept := @Is.accept _ _ _ _ label h (.next label.closeCmd (.listen listenerNo))
          listenerNo
        generalize t.getNewConnection label.io label.chanInfoG listenerNo = out at haccept ⊢
        generalize o.accept label.abstract listenerNo = out' at haccept ⊢
        cases out with
        | error msg => cases haccept
        | ok c =>
          cases haccept with
          | some hrel => exact .some hrel
  | expire =>
    simp only [ServerThread.step, hat]
    obtain ⟨time, hexp⟩ := expireOld_of_empty h.empty label.io.now
    rw [hexp]
    exact .some ⟨⟨l, addr, rfl, ⟨h.accounts.list, h.accounts.linked⟩, h.empty, h.sessions,
      h.clients, h.marks⟩, rfl⟩
  | ended =>
    simp only [ServerThread.step, hat]
    exact .some ⟨⟨l, addr, hat, h.accounts, h.empty, h.sessions, h.clients, h.marks⟩, rfl⟩

/-- **The server thread is a switchboard**: it goes on exactly as long, with the same events, and in
every state it shows each connection as the session and each client's record as the mark. -/
theorem server_refines (mem : Bfr) (ls : List ThreadLabel) (hls : ∀ l ∈ ls, l.dataRing.Ok) :
    Machine.Mirrors ServerThread.Serves (threadMachine.run (.init mem) ls)
      (switchboardMachine.run .init (ls.map ThreadLabel.abstract)) := by
  refine Machine.run_mirrors ServerThread.Serves ThreadLabel.abstract ?_ (serves_init mem)
  rintro t o label hlabel ⟨l, addr, h⟩
  exact h.step (hls label hlabel)

/-- The client that comes and goes does so on the switchboard. -/
theorem server_refines_gone : Machine.Mirrors ServerThread.Serves
      (threadMachine.run (.init fun _ => 0) goneRun)
      (switchboardMachine.run .init (goneRun.map ThreadLabel.abstract)) ∧
    (threadMachine.run (.init fun _ => 0) goneRun).isSome = true := by
  refine ⟨server_refines _ _ ?_, by decide +kernel⟩
  intro l hl
  simp only [goneRun, idleSteps, List.mem_append, List.mem_replicate, List.mem_singleton] at hl
  rcases hl with (((⟨-, rfl⟩ | rfl) | ⟨-, rfl⟩) | rfl) | ⟨-, rfl⟩ <;> exact DataRing.ok_alloc _ _

end SdrProxy
