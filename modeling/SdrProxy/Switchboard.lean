import SdrProxy.CatchUp
import SdrProxy.Response

/-!
# What the server thread is for

The server thread without its rings, its records and its connection array: clients with a session
each, and a mark for every client that says up to where it has been served.

* `Session` : what there is to know about a connection; `Session.hear`, `Session.turn` and
  `Session.send` are the three parts of a service;
* `Switchboard` : the sessions and the marks; a mark moves to the packet placed, and back by
  `SECONDS_OVERLAP` when the client comes back;
* `switchboardMachine` : the switchboard under the calls of the thread.

The cache is a finite map from times to packets here (`PacketMap`).
-/

namespace SdrProxy

/-- The packets that are served, by their times. -/
abbrev PacketMap := FinMap PacketTime (PacketInfo × List UInt8)

/-- How far a session is. -/
inductive Phase where
  /-- The client has so many turns left to send a request. -/
  | waiting (left : ℕ)
  /-- The text is due. -/
  | text
  /-- Packets are due. -/
  | packets
  /-- The session is at its end. -/
  | closing
  deriving DecidableEq, Repr

/-- The connection of a client. -/
structure Session where
  /-- The client. -/
  client : Address
  phase : Phase
  /-- What was received and not yet looked at. -/
  inbox : List UInt8
  /-- What is still to be sent. -/
  outbox : List UInt8
  /-- How many bytes the outbox takes. -/
  room : ℕ

namespace Session

/-- A session as it is opened. -/
def opened (client : Address) (room : ℕ) : Session where
  client := client
  phase := .waiting SRVR_IDLE_TIMEOUT.toNat
  inbox := []
  outbox := []
  room := room

/-- What the client says: the end of the connection, or bytes that may hold a request.  What cannot
be the start of a request any more is dropped. -/
def hear (io : ServerIO) (s : Session) : Session :=
  if io.readable then
    match io.recv with
    | .again => s
    | .error => { s with phase := .closing }
    | .bytes [] => { s with phase := .closing }
    | .bytes (b :: l) =>
      let inbox := s.inbox ++ (b :: l).take (SERVERRCVBFRSIZE - s.inbox.length)
      match findSub CHANREQUEST inbox with
      | some i => { s with phase := .text, inbox := inbox.drop (i + CHANREQUESTLEN) }
      | none => { s with inbox := inbox.drop (inbox.length - CHANREQUESTLEN) }
  else s

/-- What is done next for the client, if `next` is the packet behind its mark: the session, if it
goes on, the time of a packet that was placed, and the event. -/
def turn (text : List UInt8) (next : Option (PacketInfo × List UInt8)) (conn : ℕ) (s : Session) :
    Option Session × Option PacketTime × List Event :=
  match s.phase with
  | .closing => (none, none, [])
  | .waiting 0 => (some { s with phase := .closing }, none, [])
  | .waiting (left + 1) => (some { s with phase := .waiting left }, none, [])
  | .text =>
    if s.outbox.length + CHANINFOLEN ≤ s.room then
      (some { s with phase := .packets, outbox := s.outbox ++ text }, none, [.chanPlaced conn text])
    else (some s, none, [])
  | .packets =>
    match next with
    | none => (some s, none, [])
    | some (element, pkt) =>
      if s.outbox.length + element.packetLen ≤ s.room then
        (some { s with outbox := s.outbox ++ pkt }, some element.packetTime,
          [.packetPlaced conn element pkt])
      else (some s, none, [])

/-- There is something to send, and the socket takes it. -/
def Sends (io : ServerIO) (s : Session) : Prop :=
  s.outbox ≠ [] ∧ io.writable = true ∧ (s.phase = .text ∨ s.phase = .packets)

instance (io : ServerIO) (s : Session) : Decidable (s.Sends io) :=
  inferInstanceAs (Decidable (_ ∧ _ ∧ _))

/-- What `send` takes is gone; a `send` of more bytes than are ever copied, or that fails for good,
but not of a broken pipe, is the end of the program. -/
def send (io : ServerIO) (s : Session) : Option Session :=
  if s.Sends io then
    if MAXPACKETSIZE < s.outbox.length then none
    else if SendFails io.send then if io.send.errno = .EPIPE then some s else none
    else some { s with outbox := s.outbox.drop io.send.rv.toNat }
  else some s

/-- A service of a session. -/
def service (io : ServerIO) (text : List UInt8) (next : Option (PacketInfo × List UInt8))
    (conn : ℕ) (s : Session) : Option (Option Session × Option PacketTime × List Event) :=
  let served := (s.hear io).turn text next conn
  match served.1 with
  | none => some served
  | some s' => (s'.send io).map fun s'' => (some s'', served.2)

end Session

/-- The sessions and the marks. -/
structure Switchboard where
  /-- Where the thread is. -/
  pc : ServerPc
  /-- The session on each connection. -/
  sessions : ℕ → Option Session
  /-- Up to where each client was served. -/
  marks : Address → Option PacketTime

/-- What a step of the switchboard meets. -/
structure SwitchboardLabel where
  /-- The outcomes of its calls. -/
  io : ServerIO
  /-- The thread is told to end. -/
  closeCmd : Bool
  /-- The configuration that is served. -/
  chanInfoG : ChannelInfo
  /-- The packets that are served. -/
  cache : PacketMap

namespace Switchboard

/-- No sessions and no marks. -/
def init : Switchboard := ⟨.setup, fun _ => none, fun _ => none⟩

/-- The packet behind a mark, by a millisecond at least. -/
def nextPacket (cache : PacketMap) (mark : PacketTime) : Option (PacketInfo × List UInt8) :=
  (cache.next (mark + 1 / 1000)).map Prod.snd

/-- The session on a connection is served, and the mark of its client moved. -/
def serve (l : SwitchboardLabel) (conn : ℕ) (o : Switchboard) :
    Option (Switchboard × List Event) :=
  match o.sessions conn with
  | none => some (o, [])
  | some s =>
    let next := nextPacket l.cache ((o.marks s.client).getD 0)
    (s.service l.io ((chanInfoText l.chanInfoG).take CHANINFOLEN) next conn).map
      fun (s', placed, events) =>
        ({ o with
          sessions := Function.update o.sessions conn s'
          marks := placed.elim o.marks fun time =>
            Function.update o.marks s.client (some time) }, events)

/-- The first connection without a session. -/
def freeLine (sessions : ℕ → Option Session) : Option ℕ :=
  (List.range MAXCLIENTCONNECTIONS).find? fun conn => (sessions conn).isNone

/-- Where a client starts that has this mark. -/
def startMark (mark : Option PacketTime) : PacketTime :=
  mark.elim 0 fun time => time - SECONDS_OVERLAP

/-- A client that calls gets a session, if there is a line. -/
def accept (l : SwitchboardLabel) (listenerNo : ℕ) (o : Switchboard) : Switchboard × List Event :=
  match l.io.accept, freeLine o.sessions with
  | some remoteIp, some conn =>
    let client : Address := (remoteIp, SERVERPORTNO + listenerNo)
    ({ o with
      sessions := Function.update o.sessions conn
        (some (.opened client (ServerThread.sendBfrSize l.chanInfoG)))
      marks := Function.update o.marks client (some (startMark (o.marks client))) },
      [.opened conn])
  | _, _ => (o, [])

/-- There is a client that calls, and a line for it. -/
def opens (io : ServerIO) (o : Switchboard) : Bool :=
  io.accept.isSome && (freeLine o.sessions).isSome

/-- What the thread does where it is; without memory for what it needs the program ends. -/
def act (l : SwitchboardLabel) (o : Switchboard) : Option (Switchboard × List Event) :=
  match o.pc with
  | .setup => if l.io.malloc ∧ l.io.setup then some (o, []) else none
  | .flags =>
    if l.closeCmd then if l.io.close then some ({ o with sessions := fun _ => none }, []) else none
    else if l.io.select then some (o, []) else none
  | .service conn => o.serve l conn
  | .listen listenerNo =>
    if !l.io.readable then some (o, [])
    else if o.opens l.io && !l.io.malloc then none
    else some (o.accept l listenerNo)
  | .closing | .expire | .ended => some (o, [])

/-- The thread does what it does where it is, and goes on. -/
def step (o : Switchboard) (l : SwitchboardLabel) : Option (Switchboard × List Event) :=
  (o.act l).map fun (o', events) => ({ o' with pc := o.pc.next l.closeCmd }, events)

end Switchboard

/-- The switchboard as a machine. -/
def switchboardMachine : Machine Switchboard SwitchboardLabel Event := ⟨Switchboard.step⟩

end SdrProxy
