import SdrProxy.Records
import SdrProxy.ServerLoop
import SdrProxy.Service

/-!
# Connections and their records

What opening and serving a connection does to the list of records, and to what it says about each
client.

* `openConnection_spec` : a client whose connection is opened has a record from then on;
* `serve` : `service_connection` without the records, given the time of the last packet
  (`serviceConnection_eq`); it does not depend on where the record is (`serve_relink`);
* `serviceConnection_book` : serving a connection in terms of the book.
-/

namespace SdrProxy

variable {io : ServerIO} {chanInfoG : ChannelInfo} {dataRing : DataRing} {conn : ℕ}
variable {t t' : ServerThread} {l : List ℕ} {a : Address}

/-! ### Opening -/

/-- Where the packets for a client start, given its entry in the book. -/
def startTime (known : Option HistEntry) : PacketTime :=
  known.elim 0 fun e => ServerThread.setBack e.lastPacketTime

/-- What setting a record of a client to something else does. -/
theorem HistList.set_spec {h : HistHeap} {head : Option ℕ} {p : ℕ} {r : ConnHistData}
    (hl : HistList h head l) (hp : h.find l a = some p) (hr : h.recs p = some r)
    (lastUpdate : ℤ) (time : PacketTime) :
    let h' := h.modify p { r with lastPacketTime := time, lastUpdate := lastUpdate }
    HistList h' head l ∧ (∀ b, h'.find l b = h.find l b) ∧
      h'.book l = Function.update (h.book l) a (some ⟨a, lastUpdate, time⟩) := by
  intro h'
  obtain ⟨hmem, e, he, haddr⟩ := hl.find_eq_some.1 hp
  rw [HistHeap.entry_of_recs hr] at he
  obtain rfl := Option.some.inj he
  refine ⟨hl.modify hr rfl rfl, hl.find_modify hr rfl rfl, ?_⟩
  rw [← haddr]
  exact hl.book_modify hmem hr rfl rfl

/-- **What opening a connection does**: the client has a record from then on, set back if it is an
old one, and nothing changes for other clients. -/
theorem openConnection_spec (hl : HistList t.hist t.firstIdLst l) (io : ServerIO)
    (chanInfoG : ChannelInfo) (remoteIp : List UInt8) (listenerNo newConn : ℕ)
    (ha : a = (remoteIp, (SERVERPORTNO + listenerNo : ℤ))) : ∃ hist head l' p,
    t.openConnection io chanInfoG remoteIp listenerNo newConn = .ok { t with
      connData := Function.update t.connData newConn (.opened io chanInfoG (some p))
      hist := hist
      firstIdLst := head } ∧
    HistList hist head l' ∧ hist.find l' a = some p ∧
    (∀ b q, t.hist.find l b = some q → hist.find l' b = some q) ∧
    hist.book l' = Function.update (t.hist.book l) a
      (some ⟨a, io.now, startTime (t.hist.book l a)⟩) := by
  have hretr := hl.clhistoryLookup_retr a 0
  have hip : a.1 = remoteIp := congrArg Prod.fst ha
  have hport : a.2 = SERVERPORTNO + listenerNo := congrArg Prod.snd ha
  rw [hip, hport] at hretr
  unfold ServerThread.openConnection
  cases hfind : t.hist.find l a with
  | none =>
    obtain ⟨head₁, h₁, hadd, hl₁, hnew, hold⟩ := hl.clhistoryLookup_add a 0 hfind
    rw [hip, hport] at hadd
    obtain ⟨r, hr, hentry⟩ := HistHeap.entry_eq_some.1 hnew
    have hfind₁ : h₁.find (l ++ [t.hist.made]) a = some t.hist.made :=
      hl₁.find_eq_some.2
        ⟨List.mem_append_right _ (List.mem_singleton_self _), _, hnew, rfl⟩
    have hderef : h₁.deref (some t.hist.made) = .ok r := HistHeap.deref_eq_ok.2 ⟨_, rfl, hr⟩
    obtain ⟨hl₂, hfind₂, hbook₂⟩ := hl₁.set_spec hfind₁ hr io.now r.lastPacketTime
    have hzero : r.lastPacketTime = 0 := congrArg HistEntry.lastPacketTime hentry
    refine ⟨_, head₁, l ++ [t.hist.made], t.hist.made, ?_, hl₂, (hfind₂ a).trans hfind₁, ?_, ?_⟩
    · simp only [hretr, hfind, hadd, hderef, bind, Except.bind]
      rfl
    · intro b q hq
      exact (hfind₂ b).trans (hl.find_of_append hl₁ hold hq)
    · rw [hbook₂, hl.book_append hl₁ hnew hold, Function.update_idem,
        HistList.book_eq_none.2 hfind, hzero]
      rfl
  | some p =>
    obtain ⟨hmem, e, he, haddr⟩ := hl.find_eq_some.1 hfind
    obtain ⟨r, hr, hentry⟩ := HistHeap.entry_eq_some.1 he
    have hderef : t.hist.deref (some p) = .ok r := HistHeap.deref_eq_ok.2 ⟨_, rfl, hr⟩
    -- the record is set back, and its date is set
    obtain ⟨hl₁, hfind₁, hbook₁⟩ := hl.set_spec hfind hr r.lastUpdate
      (ServerThread.setBack r.lastPacketTime)
    obtain ⟨hl₂, hfind₂, hbook₂⟩ := hl₁.set_spec ((hfind₁ a).trans hfind)
      (Function.update_self _ _ _) io.now (ServerThread.setBack r.lastPacketTime)
    have hknown : t.hist.book l a = some e := hl.book_eq_some.2 ⟨p, hmem, he, haddr⟩
    refine ⟨_, t.firstIdLst, l, p, ?_, hl₂, (hfind₂ a).trans ((hfind₁ a).trans hfind), ?_, ?_⟩
    · have hderef₁ := HistHeap.deref_modify hderef
        { r with lastPacketTime := ServerThread.setBack r.lastPacketTime }
      simp only [Option.getD_some] at hderef₁
      simp only [hretr, hfind, hderef, bind, Except.bind, pure, Except.pure, hderef₁]
      rfl
    · intro b q hq
      exact (hfind₂ b).trans ((hfind₁ b).trans hq)
    · rw [hbook₂, hbook₁, Function.update_idem, hknown, ← hentry]
      rfl

/-! ### Serving -/

/-- `put_adc_data` for a client whose last packet is one of the time `time`: the connection, the
time of the packet placed if there is one, and the event. -/
def placeNext (dataRing : DataRing) (conn : ℕ) (time : PacketTime) (d : ConnectionData) :
    ConnectionData × Option PacketTime × List Event :=
  match (dataRing.retr time).2 with
  | none => (d, none, [])
  | some (element, bfr) =>
    if d.sendRing.bytesFree < element.packetLen then (d, none, [])
    else ({ d with sendRing := (d.sendRing.store bfr).2 }, some element.packetTime,
      [.packetPlaced conn element bfr])

/-- The `switch` of `service_connection` for such a client. -/
def serveState (chanInfoG : ChannelInfo) (dataRing : DataRing) (conn : ℕ) (time : PacketTime)
    (d : ConnectionData) : ConnectionData × Option PacketTime × List Event :=
  match d.state with
  | .SRVR_STATE_INACTIVE => (d, none, [])
  | .SRVR_STATE_SHUTDOWN => ({ d with state := .SRVR_STATE_INACTIVE }, none, [])
  | .SRVR_STATE_SENDCHAN =>
    if CHANINFOLEN ≤ d.sendRing.bytesFree then
      ({ d with
        sendRing := (d.sendRing.store ((chanInfoText chanInfoG).take CHANINFOLEN)).2
        state := .SRVR_STATE_SENDADC }, none,
        [.chanPlaced conn ((chanInfoText chanInfoG).take CHANINFOLEN)])
    else (d, none, [])
  | .SRVR_STATE_SENDADC => placeNext dataRing conn time d
  | .SRVR_STATE_INIT =>
    if d.idleTimer ≤ 0 then ({ d with state := .SRVR_STATE_SHUTDOWN }, none, [])
    else ({ d with idleTimer := d.idleTimer - 1 }, none, [])

/-- `service_connection` for such a client. -/
def serve (io : ServerIO) (chanInfoG : ChannelInfo) (dataRing : DataRing) (conn : ℕ)
    (time : PacketTime) (d : ConnectionData) :
    Except String (ConnectionData × Option PacketTime × List Event) :=
  if d.state = .SRVR_STATE_INACTIVE then .ok (d, none, [])
  else
    let served := serveState chanInfoG dataRing conn time (serviceIncoming io d)
    (serviceOutgoing io served.1).map fun d' => (d', served.2)

/-- The records after a packet of the time `placed` was placed, if one was. -/
def HistHeap.note (history : Option ℕ) (r : ConnHistData) (now : ℤ) (placed : Option PacketTime)
    (h : HistHeap) : HistHeap :=
  placed.elim h fun time =>
    h.modify (history.getD 0) { r with lastPacketTime := time, lastUpdate := now }

variable {c : Conn} {r : ConnHistData}

theorem putAdcData_eq (dataRing : DataRing) (now : ℤ) (conn : ℕ)
    (hr : c.hist.deref c.data.history = .ok r) :
    ∃ rv, putAdcData dataRing now conn c = .ok (rv,
      ⟨(placeNext dataRing conn r.lastPacketTime c.data).1,
        c.hist.note c.data.history r now (placeNext dataRing conn r.lastPacketTime c.data).2.1⟩,
      (placeNext dataRing conn r.lastPacketTime c.data).2.2) := by
  obtain ⟨rv, c', es, heq, hmove⟩ := putAdcData_spec dataRing now conn hr
  refine ⟨rv, heq.trans ?_⟩
  cases hmove with
  | nothing hretr =>
    simp only [placeNext, hretr]
    rfl
  | full element pkt hretr hfull =>
    simp only [placeNext, hretr, hfull, ↓reduceIte]
    rfl
  | placed element pkt hretr hfits =>
    simp only [placeNext, hretr, Nat.not_lt.2 hfits, ↓reduceIte]
    rfl

theorem serviceState_eq (io : ServerIO) (chanInfoG : ChannelInfo) (dataRing : DataRing) (conn : ℕ)
    (hr : c.hist.deref c.data.history = .ok r) :
    serviceState io chanInfoG dataRing conn c = .ok (
      ⟨(serveState chanInfoG dataRing conn r.lastPacketTime c.data).1,
        c.hist.note c.data.history r io.now
          (serveState chanInfoG dataRing conn r.lastPacketTime c.data).2.1⟩,
      (serveState chanInfoG dataRing conn r.lastPacketTime c.data).2.2) := by
  unfold serviceState serveState
  cases hstate : c.data.state with
  | SRVR_STATE_INACTIVE => rfl
  | SRVR_STATE_SHUTDOWN => rfl
  | SRVR_STATE_SENDCHAN =>
    dsimp only
    by_cases hroom : CHANINFOLEN ≤ c.data.sendRing.bytesFree
    · simp only [putChannelData, hroom, ↓reduceIte]
      rfl
    · simp only [putChannelData, hroom, ↓reduceIte]
      rfl
  | SRVR_STATE_SENDADC =>
    obtain ⟨rv, heq⟩ := putAdcData_eq dataRing io.now conn hr
    simp only [heq, bind, Except.bind, pure, Except.pure]
  | SRVR_STATE_INIT =>
    dsimp only
    split_ifs
    · rfl
    · rw [← hstate]
      rfl

/-- **`service_connection` in terms of the time of the last packet.** -/
theorem serviceConnection_eq (hr : c.hist.deref c.data.history = .ok r) :
    serviceConnection io chanInfoG dataRing conn c =
      (serve io chanInfoG dataRing conn r.lastPacketTime c.data).map fun x =>
        (⟨x.1, c.hist.note c.data.history r io.now x.2.1⟩, x.2.2) := by
  unfold serviceConnection serve
  by_cases hactive : c.data.state = .SRVR_STATE_INACTIVE
  · rw [if_pos hactive, if_pos hactive]
    rfl
  · rw [if_neg hactive, if_neg hactive]
    have hhist : (c.heard io).data.history = c.data.history := (serviceIncoming_same io c.data).2.1
    have hr' : (c.heard io).hist.deref (c.heard io).data.history = .ok r := by
      rw [hhist]
      exact hr
    have hswitch := serviceState_eq io chanInfoG dataRing conn hr'
    rw [hhist] at hswitch
    show (serviceState io chanInfoG dataRing conn (c.heard io)).bind _ = Except.map _
      ((serviceOutgoing io (serveState chanInfoG dataRing conn r.lastPacketTime
        (c.heard io).data).1).map fun d' => (d', (serveState chanInfoG dataRing conn
          r.lastPacketTime (c.heard io).data).2))
    rw [hswitch]
    generalize serveState chanInfoG dataRing conn r.lastPacketTime (c.heard io).data = served
    show (serviceOutgoing io served.1).bind _ = _
    cases serviceOutgoing io served.1 <;> rfl

/-! ### The pointer to the record -/

/-- The connection with another history record. -/
def ConnectionData.relink (history : Option ℕ) (d : ConnectionData) : ConnectionData :=
  { d with history := history }

variable {d d' : ConnectionData} {time : PacketTime} {placed : Option PacketTime} {es : List Event}

theorem ConnectionData.relink_history (d : ConnectionData) : d.relink d.history = d := rfl

theorem serverRcvToRing_relink (res : RecvResult) (history : Option ℕ) (d : ConnectionData) :
    serverRcvToRing res (d.relink history) =
      ((serverRcvToRing res d).1, (serverRcvToRing res d).2.relink history) := by
  unfold serverRcvToRing ConnectionData.relink
  dsimp only
  split_ifs
  · rfl
  · cases res with
    | again => rfl
    | error => rfl
    | bytes l =>
      dsimp only
      split_ifs <;> rfl

theorem checkServerIncoming_relink (history : Option ℕ) (d : ConnectionData) :
    checkServerIncoming (d.relink history) =
      ((checkServerIncoming d).1, (checkServerIncoming d).2.relink history) := by
  unfold checkServerIncoming ConnectionData.relink
  dsimp only
  split_ifs <;> rfl

theorem serviceIncoming_relink (io : ServerIO) (history : Option ℕ) (d : ConnectionData) :
    serviceIncoming io (d.relink history) = (serviceIncoming io d).relink history := by
  unfold serviceIncoming
  simp only [serverRcvToRing_relink, checkServerIncoming_relink]
  split_ifs <;> rfl

theorem serveState_relink (history : Option ℕ) (d : ConnectionData) :
    serveState chanInfoG dataRing conn time (d.relink history) =
      ((serveState chanInfoG dataRing conn time d).1.relink history,
        (serveState chanInfoG dataRing conn time d).2) := by
  unfold serveState
  rw [show (d.relink history).state = d.state from rfl]
  cases d.state with
  | SRVR_STATE_INACTIVE => rfl
  | SRVR_STATE_SHUTDOWN => rfl
  | SRVR_STATE_SENDCHAN =>
    show ite (CHANINFOLEN ≤ d.sendRing.bytesFree) _ _ = _
    split_ifs <;> rfl
  | SRVR_STATE_SENDADC =>
    show placeNext dataRing conn time (d.relink history) = _
    unfold placeNext
    cases (dataRing.retr time).2 with
    | none => rfl
    | some found =>
      obtain ⟨element, bfr⟩ := found
      show ite (d.sendRing.bytesFree < element.packetLen) _ _ = _
      dsimp only
      split_ifs <;> rfl
  | SRVR_STATE_INIT =>
    show ite (d.idleTimer ≤ 0) _ _ = _
    dsimp only
    split_ifs <;> rfl

theorem serviceOutgoing_relink (io : ServerIO) (history : Option ℕ) (d : ConnectionData) :
    serviceOutgoing io (d.relink history) =
      (serviceOutgoing io d).map (ConnectionData.relink history) := by
  by_cases hcall : CallsSendToClient io d
  · have hcall' : CallsSendToClient io (d.relink history) := hcall
    rw [serviceOutgoing_of_call hcall, serviceOutgoing_of_call hcall']
    unfold sendToClient
    dsimp only [ConnectionData.relink]
    by_cases hover : MAXPACKETSIZE < d.sendRing.bytesStored
    · simp only [hover, ↓reduceIte]
      rfl
    simp only [hover, ↓reduceIte]
    split_ifs
    · cases io.send.errno <;> rfl
    · rfl
  · have hcall' : ¬ CallsSendToClient io (d.relink history) := hcall
    rw [serviceOutgoing_of_not_call hcall, serviceOutgoing_of_not_call hcall']
    rfl

/-- The service of a connection does not depend on where its record is. -/
theorem serve_relink (history : Option ℕ) (d : ConnectionData) :
    serve io chanInfoG dataRing conn time (d.relink history) =
      (serve io chanInfoG dataRing conn time d).map fun x => (x.1.relink history, x.2) := by
  unfold serve
  rw [show (d.relink history).state = d.state from rfl]
  split_ifs
  · rfl
  · dsimp only
    rw [serviceIncoming_relink, serveState_relink, serviceOutgoing_relink]
    cases serviceOutgoing io (serveState chanInfoG dataRing conn time (serviceIncoming io d)).1 <;>
      rfl

theorem history_of_serve (h : serve io chanInfoG dataRing conn time d = .ok (d', placed, es)) :
    d'.history = d.history := by
  have hsame : serve io chanInfoG dataRing conn time (d.relink d.history) = _ :=
    serve_relink d.history d
  rw [d.relink_history, h] at hsame
  have hd : d' = d'.relink d.history := congrArg Prod.fst (Except.ok.inj hsame)
  rw [hd]
  rfl

/-- The book after a packet of the time `placed` was placed for the client, if one was. -/
def notedBook (book : Address → Option HistEntry) (a : Address) (now : ℤ)
    (placed : Option PacketTime) : Address → Option HistEntry :=
  placed.elim book fun time => Function.update book a (some ⟨a, now, time⟩)

/-- **What serving a connection does**: it serves the client as the book says, and notes what it
places.  Nothing changes for other clients. -/
theorem serviceConnection_book {head : Option ℕ} {p : ℕ} {c' : Conn} (hl : HistList c.hist head l)
    (hp : c.hist.find l a = some p) (hlink : c.data.history = some p)
    (h : serviceConnection io chanInfoG dataRing conn c = .ok (c', es)) : ∃ e placed,
    c.hist.book l a = some e ∧
      serve io chanInfoG dataRing conn e.lastPacketTime c.data = .ok (c'.data, placed, es) ∧
      HistList c'.hist head l ∧ (∀ b, c'.hist.find l b = c.hist.find l b) ∧
      c'.hist.book l = notedBook (c.hist.book l) a io.now placed := by
  obtain ⟨hmem, e, he, haddr⟩ := hl.find_eq_some.1 hp
  obtain ⟨r, hr, hentry⟩ := HistHeap.entry_eq_some.1 he
  have hderef : c.hist.deref c.data.history = .ok r := HistHeap.deref_eq_ok.2 ⟨p, hlink, hr⟩
  rw [serviceConnection_eq hderef] at h
  have htime : r.lastPacketTime = e.lastPacketTime := congrArg HistEntry.lastPacketTime hentry
  rw [htime] at h
  obtain ⟨⟨d', placed, es'⟩, hserve, h⟩ := map_eq_ok.1 h
  cases h
  refine ⟨e, placed, hl.book_eq_some.2 ⟨p, hmem, he, haddr⟩, hserve, ?_⟩
  rw [hlink]
  cases placed with
  | none => exact ⟨hl, fun _ => rfl, rfl⟩
  | some time => exact hl.set_spec hp hr io.now time

/-- What is placed, and the events that say so: nothing, a text or a packet. -/
inductive Placed (conn : ℕ) : Option PacketTime → List Event → Prop
  | nothing : Placed conn none []
  | text (text : List UInt8) : Placed conn none [.chanPlaced conn text]
  | packet (element : PacketInfo) (pkt : List UInt8) :
      Placed conn (some element.packetTime) [.packetPlaced conn element pkt]

theorem placed_of_serveState (chanInfoG : ChannelInfo) (dataRing : DataRing) (conn : ℕ)
    (time : PacketTime) (d : ConnectionData) :
    Placed conn (serveState chanInfoG dataRing conn time d).2.1
      (serveState chanInfoG dataRing conn time d).2.2 := by
  unfold serveState
  cases d.state with
  | SRVR_STATE_INACTIVE => exact .nothing
  | SRVR_STATE_SHUTDOWN => exact .nothing
  | SRVR_STATE_SENDCHAN =>
    dsimp only
    split_ifs
    · exact .text _
    · exact .nothing
  | SRVR_STATE_SENDADC =>
    show Placed conn (placeNext dataRing conn time d).2.1 (placeNext dataRing conn time d).2.2
    unfold placeNext
    cases (dataRing.retr time).2 with
    | none => exact .nothing
    | some found =>
      obtain ⟨element, bfr⟩ := found
      dsimp only
      split_ifs
      · exact .nothing
      · exact .packet element bfr
  | SRVR_STATE_INIT =>
    dsimp only
    split_ifs <;> exact .nothing

/-- What a service places, and which events it emits. -/
theorem placed_of_serve (h : serve io chanInfoG dataRing conn time d = .ok (d', placed, es)) :
    Placed conn placed es := by
  unfold serve at h
  split_ifs at h
  · cases h
    exact .nothing
  · obtain ⟨d₁, -, h⟩ := map_eq_ok.1 h
    have hserved : (serveState chanInfoG dataRing conn time (serviceIncoming io d)).2 =
        (placed, es) := congrArg Prod.snd h
    have hplaced := placed_of_serveState chanInfoG dataRing conn time (serviceIncoming io d)
    rw [hserved] at hplaced
    exact hplaced

/-! ### All connections -/

/-- Every active connection is that of a client, and has its record; `addr` says of which client. -/
structure Accounts (t : ServerThread) (l : List ℕ) (addr : ℕ → Option Address) : Prop where
  list : HistList t.hist t.firstIdLst l
  linked : ∀ i, (t.connData i).state ≠ .SRVR_STATE_INACTIVE →
    ∃ a p, addr i = some a ∧ t.hist.find l a = some p ∧ (t.connData i).history = some p

namespace Accounts

variable {addr : ℕ → Option Address}

theorem init (mem : Bfr) : Accounts (.init mem) [] fun _ => none :=
  ⟨HistList.empty, fun _ hi => absurd rfl hi⟩

/-- **Opening a connection** keeps the accounts, with a new client on the connection. -/
theorem openConnection (h : Accounts t l addr) (io : ServerIO) (chanInfoG : ChannelInfo)
    (remoteIp : List UInt8) (listenerNo newConn : ℕ)
    (ha : a = (remoteIp, (SERVERPORTNO + listenerNo : ℤ))) : ∃ t' l',
    t.openConnection io chanInfoG remoteIp listenerNo newConn = .ok t' ∧
      Accounts t' l' (Function.update addr newConn (some a)) ∧
      t'.hist.book l' = Function.update (t.hist.book l) a
        (some ⟨a, io.now, startTime (t.hist.book l a)⟩) ∧
      (∃ history, t'.connData =
        Function.update t.connData newConn (.opened io chanInfoG history)) ∧
      t'.serverConnHistory = t.serverConnHistory := by
  obtain ⟨hist, head, l', p, heq, hl', hfind, hkept, hbook⟩ :=
    openConnection_spec h.list io chanInfoG remoteIp listenerNo newConn ha
  refine ⟨_, l', heq, ⟨hl', ?_⟩, hbook, ⟨some p, rfl⟩, rfl⟩
  intro i hi
  by_cases hnew : i = newConn
  · subst hnew
    refine ⟨a, p, Function.update_self _ _ _, hfind, ?_⟩
    show (Function.update t.connData i (.opened io chanInfoG (some p)) i).history = some p
    rw [Function.update_self]
    rfl
  · simp only [Function.update_of_ne hnew] at hi ⊢
    obtain ⟨b, q, hb, hq, hlink⟩ := h.linked i hi
    exact ⟨b, q, hb, hkept b q hq, hlink⟩

/-- **Serving a connection** keeps the accounts. -/
theorem serviceConnection (h : Accounts t l addr) {c' : Conn}
    (heq : serviceConnection io chanInfoG dataRing conn ⟨t.connData conn, t.hist⟩ = .ok (c', es)) :
    Accounts { t with connData := Function.update t.connData conn c'.data, hist := c'.hist } l
        addr ∧
      (((t.connData conn).state = .SRVR_STATE_INACTIVE ∧ c' = ⟨t.connData conn, t.hist⟩ ∧
        es = []) ∨
      ∃ a e placed, (t.connData conn).state ≠ .SRVR_STATE_INACTIVE ∧ addr conn = some a ∧
        t.hist.book l a = some e ∧
        serve io chanInfoG dataRing conn e.lastPacketTime (t.connData conn) =
          .ok (c'.data, placed, es) ∧
        c'.hist.book l = notedBook (t.hist.book l) a io.now placed) := by
  by_cases hactive : (t.connData conn).state = .SRVR_STATE_INACTIVE
  · have hsame := heq.symm.trans (serviceConnection_inactive hactive)
    cases hsame
    refine ⟨⟨h.list, ?_⟩, .inl ⟨hactive, rfl, rfl⟩⟩
    rw [Function.update_eq_self]
    exact h.linked
  · obtain ⟨a, p, ha, hp, hlink⟩ := h.linked conn hactive
    obtain ⟨e, placed, he, hserve, hl', hfind, hbook⟩ :=
      serviceConnection_book (c := ⟨t.connData conn, t.hist⟩) h.list hp hlink heq
    refine ⟨⟨hl', ?_⟩, .inr ⟨a, e, placed, hactive, ha, he, hserve, hbook⟩⟩
    intro i hi
    by_cases hconn : i = conn
    · subst hconn
      refine ⟨a, p, ha, (hfind a).trans hp, ?_⟩
      show (Function.update t.connData i c'.data i).history = some p
      rw [Function.update_self, history_of_serve hserve]
      exact hlink
    · simp only [Function.update_of_ne hconn] at hi ⊢
      obtain ⟨b, q, hb, hq, hlink'⟩ := h.linked i hi
      exact ⟨b, q, hb, (hfind b).trans hq, hlink'⟩

end Accounts

end SdrProxy
