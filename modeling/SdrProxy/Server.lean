import SdrProxy.Comm
import SdrProxy.History

/-!
# The server thread

`server.c`: the connections to remote clients, served one after the other, each with its two byte
rings, and the thread around them.

* Every function below the thread works on one connection record; `serviceConnection` is one pass
  over one connection, with the outcomes of its calls to the operating system in `ServerIO`.
* `ServerPc` says where `server_thread` is; one step of it ends before it next touches what another
  thread touches.
* An `Except` result is the end of the program by `fail`, with its text, or by a copy that leaves
  its buffer.
-/

namespace SdrProxy

/-- `enum servr_state`. -/
inductive ServrState where
  | SRVR_STATE_INACTIVE
  | SRVR_STATE_INIT
  | SRVR_STATE_SENDCHAN
  | SRVR_STATE_SENDADC
  | SRVR_STATE_SHUTDOWN
  deriving DecidableEq, Repr

/-- `struct connectiondata`, without the socket and the address. -/
structure ConnectionData where
  /-- `state`. -/
  state : ServrState
  /-- The history record of the client. -/
  history : Option ℕ
  /-- Cycles left to wait for a request. -/
  idleTimer : ℤ
  /-- The ring of bytes from the client. -/
  rcvRing : RingSet
  /-- The ring of bytes for the client. -/
  sendRing : RingSet

/-- The outcomes of the calls that a step of the server thread makes. -/
structure ServerIO where
  /-- There is memory for all that the step asks for: `conn_data`, or the rings and the record of a
  connection. -/
  malloc : Bool
  /-- `server_setup` found, bound and listens on all its sockets. -/
  setup : Bool
  /-- `select` succeeded. -/
  select : Bool
  /-- The socket has something to read. -/
  readable : Bool
  /-- The socket can be written to. -/
  writable : Bool
  /-- `recv`. -/
  recv : RecvResult
  /-- `send`. -/
  send : SendResult
  /-- `accept`: the address of the client, or an error. -/
  accept : Option (List UInt8)
  /-- `close` of a listening socket succeeded. -/
  close : Bool
  /-- `time(NULL)`. -/
  now : ℤ
  /-- What newly allocated memory holds. -/
  mem : Bfr

/-- What the functions below work on: one connection and the history. -/
structure Conn where
  /-- The connection record. -/
  data : ConnectionData
  /-- The history records. -/
  hist : HistHeap

/-- `put_channel_data`: 0 if the text of `chan_info_g` was placed on the send ring, else -1. -/
def putChannelData (chanInfoG : ChannelInfo) (conn : ℕ) (c : ConnectionData) :
    ℤ × ConnectionData × List Event :=
  if CHANINFOLEN ≤ c.sendRing.bytesFree then
    let bfr := (chanInfoText chanInfoG).take CHANINFOLEN
    (0, { c with sendRing := (c.sendRing.store bfr).2 }, [.chanPlaced conn bfr])
  else (-1, c, [])

/-- `put_adc_data`: 1 if the next packet of the data ring was placed on the send ring, else 0. -/
def putAdcData (dataRing : DataRing) (now : ℤ) (conn : ℕ) (c : Conn) :
    Except String (ℤ × Conn × List Event) := do
  let history ← c.hist.deref c.data.history
  let (_, found) := dataRing.retr history.lastPacketTime
  match found with
  | none => return (0, c, [])
  | some (element, bfr) =>
    if c.data.sendRing.bytesFree < element.packetLen then return (0, c, [])
    else
      let history' := { history with lastPacketTime := element.packetTime, lastUpdate := now }
      return (1,
        { data := { c.data with sendRing := (c.data.sendRing.store bfr).2 }
          hist := c.hist.modify (c.data.history.getD 0) history' },
        [.packetPlaced conn element bfr])

/-- `send_to_client`: the number of bytes sent, 0 to try again, -1 for a broken pipe. -/
def sendToClient (send : SendResult) (c : ConnectionData) : Except String (ℤ × ConnectionData) :=
  -- all of the ring is copied to `sendbfr`, whatever its size
  if MAXPACKETSIZE < c.sendRing.bytesStored then .error "send_to_client: sendbfr overrun"
  else
    let rv := min send.rv c.sendRing.bytesStored
    if rv ≤ 0 then
      match send.errno with
      | .EAGAIN | .EWOULDBLOCK => .ok (0, c)
      | .EPIPE => .ok (-1, c)
      | _ => .error "send_to_client: Error on sending"
    else .ok (rv, { c with sendRing := (c.sendRing.delete rv.toNat).2 })

/-- `check_server_incoming`: 1 if a channel request was taken off the receive ring, else 0. -/
def checkServerIncoming (c : ConnectionData) : ℤ × ConnectionData :=
  let rpos := searchRing CHANREQUEST c.rcvRing
  if 0 ≤ rpos then
    let ring := if 0 < rpos then (c.rcvRing.delete rpos.toNat).2 else c.rcvRing
    (1, { c with rcvRing := (ring.delete CHANREQUESTLEN).2 })
  else
    let rpos := c.rcvRing.bytesStored
    -- what was there before goes to the log, room for a request stays
    (0, if CHANREQUESTLEN < rpos then
        { c with rcvRing := (c.rcvRing.delete (rpos - CHANREQUESTLEN)).2 }
      else c)

/-- `server_rcv_to_ring`: -2 closed, -1 error, 0 nothing yet, else the number of bytes stored. -/
def serverRcvToRing (res : RecvResult) (c : ConnectionData) : ℤ × ConnectionData :=
  let freeBytes := min SERVERRCVBFRSIZE c.rcvRing.bytesFree
  if freeBytes = 0 then (0, c)
  else
    match res with
    | .again => (0, c)
    | .error => (-1, c)
    | .bytes l =>
      let bfr := l.take freeBytes
      if 0 < bfr.length then (bfr.length, { c with rcvRing := (c.rcvRing.store bfr).2 })
      else (-2, c)

/-- The first part of `service_connection`: what the client has to say. -/
def serviceIncoming (io : ServerIO) (c : ConnectionData) : ConnectionData :=
  if io.readable then
    let (rv, c) := serverRcvToRing io.recv c
    if rv < 0 then { c with state := .SRVR_STATE_SHUTDOWN }
    else if 0 < rv then
      let (found, c) := checkServerIncoming c
      if found = 1 then { c with state := .SRVR_STATE_SENDCHAN } else c
    else c
  else c

/-- The `switch` of `service_connection`. -/
def serviceState (io : ServerIO) (chanInfoG : ChannelInfo) (dataRing : DataRing) (conn : ℕ)
    (c : Conn) : Except String (Conn × List Event) :=
  match c.data.state with
  | .SRVR_STATE_INACTIVE => .ok (c, [])
  | .SRVR_STATE_SHUTDOWN =>
    .ok ({ c with data := { c.data with state := .SRVR_STATE_INACTIVE } }, [])
  | .SRVR_STATE_SENDCHAN =>
    let (rv, data, events) := putChannelData chanInfoG conn c.data
    .ok ({ c with data := { data with
      state := if rv = 0 then .SRVR_STATE_SENDADC else data.state } }, events)
  | .SRVR_STATE_SENDADC => do
    let (_, c, events) ← putAdcData dataRing io.now conn c
    return (c, events)
  | .SRVR_STATE_INIT =>
    if c.data.idleTimer ≤ 0 then
      .ok ({ c with data := { c.data with state := .SRVR_STATE_SHUTDOWN } }, [])
    else .ok ({ c with data := { c.data with idleTimer := c.data.idleTimer - 1 } }, [])

/-- The last part of `service_connection`: bytes for the client. -/
def serviceOutgoing (io : ServerIO) (c : ConnectionData) : Except String ConnectionData :=
  if c.sendRing.bytesStored ≠ 0 ∧ io.writable ∧
      (c.state = .SRVR_STATE_SENDCHAN ∨ c.state = .SRVR_STATE_SENDADC) then do
    let (_, c) ← sendToClient io.send c
    return c
  else .ok c

/-- `service_connection`. -/
def serviceConnection (io : ServerIO) (chanInfoG : ChannelInfo) (dataRing : DataRing) (conn : ℕ)
    (c : Conn) : Except String (Conn × List Event) :=
  if c.data.state = .SRVR_STATE_INACTIVE then .ok (c, [])
  else do
    let (c, events) ← serviceState io chanInfoG dataRing conn
      { c with data := serviceIncoming io c.data }
    let data ← serviceOutgoing io c.data
    return ({ c with data := data }, events)

/-! ### The thread -/

/-- Where the server thread is. -/
inductive ServerPc where
  /-- Before `server_setup`. -/
  | setup
  /-- About to read the flags. -/
  | flags
  /-- Shut down by the main thread, about to reset the flag. -/
  | closing
  /-- About to serve a connection. -/
  | service (conn : ℕ)
  /-- About to look at a listening socket. -/
  | listen (listenerNo : ℕ)
  /-- About to expire old records. -/
  | expire
  /-- Returned. -/
  | ended
  deriving DecidableEq, Repr

/-- The local variables of `server_thread`. -/
structure ServerThread where
  /-- Where the thread is. -/
  pc : ServerPc
  /-- `conn_data`. -/
  connData : ℕ → ConnectionData
  /-- The history records. -/
  hist : HistHeap
  /-- `first_id_lst`, the list that new connections use. -/
  firstIdLst : Option ℕ
  /-- `server_conn_history`, the list that is expired. -/
  serverConnHistory : Option ℕ
  /-- `prev_exp_time`. -/
  prevExpTime : ℤ

namespace ServerThread

/-- The thread as it is created.  The rings of an inactive connection are not allocated and not
used. -/
def init (mem : Bfr) : ServerThread where
  pc := .setup
  connData _ := ⟨.SRVR_STATE_INACTIVE, none, 0, .alloc 0 mem, .alloc 0 mem⟩
  hist := .empty
  firstIdLst := none
  serverConnHistory := none
  prevExpTime := 0

/-- The loop of `create_connection_data`: the first inactive connection from `connNo` on. -/
def findInactive (connData : ℕ → ConnectionData) : ℕ → ℕ → Option ℕ
  | 0, _ => none
  | left + 1, connNo =>
    if (connData connNo).state = .SRVR_STATE_INACTIVE then some connNo
    else findInactive connData left (connNo + 1)

/-- The capacity of a send ring in `create_connection_data`. -/
def sendBfrSize (c : ChannelInfo) : ℕ :=
  PREHDRLEN + DATAHDRLEN + c.sps * c.numChannels * ADCDATASIZE + 1

/-- Where `get_new_connection` sets the last packet time of a client it knows. -/
def setBack (lastPacketTime : PacketTime) : PacketTime :=
  (lastPacketTime - SECONDS_OVERLAP) / (MINUTES_TO_BACKUP * 60) * (MINUTES_TO_BACKUP * 60)

/-- `get_new_connection` has a client, and a connection for it, which needs memory. -/
def opens (io : ServerIO) (t : ServerThread) : Bool :=
  io.accept.isSome && (findInactive t.connData MAXCLIENTCONNECTIONS 0).isSome

/-- `get_new_connection`, with all the memory that it asks for. -/
def getNewConnection (io : ServerIO) (chanInfoG : ChannelInfo) (listenerNo : ℕ)
    (t : ServerThread) : Except String (ServerThread × List Event) :=
  match io.accept with
  | none => .ok (t, [])
  | some remoteIp =>
    let serverPort : ℤ := SERVERPORTNO + listenerNo
    match findInactive t.connData MAXCLIENTCONNECTIONS 0 with
    | none => .ok (t, [])
    | some newConn => do
      let (found, head, hist) ← t.hist.clhistoryLookup t.firstIdLst remoteIp serverPort 0 .ID_RETR
      let (record, head, hist) ← match found with
        | none => hist.clhistoryLookup head remoteIp serverPort 0 .ID_ADD
        | some p => do
          let r ← hist.deref (some p)
          pure (some p, head, hist.modify p { r with lastPacketTime := setBack r.lastPacketTime })
      let r ← hist.deref record
      let hist := hist.modify (record.getD 0) { r with lastUpdate := io.now }
      return ({ t with
        connData := Function.update t.connData newConn
          { state := .SRVR_STATE_INIT
            history := record
            idleTimer := SRVR_IDLE_TIMEOUT
            rcvRing := .alloc SERVERRCVBFRSIZE io.mem
            sendRing := .alloc (sendBfrSize chanInfoG) io.mem }
        hist := hist
        firstIdLst := head }, [.opened newConn])

/-- The look at a listening socket. -/
def listen (io : ServerIO) (chanInfoG : ChannelInfo) (listenerNo : ℕ) (t : ServerThread) :
    Except String (ServerThread × List Event) :=
  if !io.readable then .ok (t, [])
  -- a record is used whatever `malloc` returned for it
  else if t.opens io && !io.malloc then
    .error "ring_ops: Failed to allocate memory for ring buffer"
  else getNewConnection io chanInfoG listenerNo t

/-- The expiry of old records at the end of the loop. -/
def expireOld (now : ℤ) (t : ServerThread) : Except String ServerThread :=
  let expireryTime := now - DATASIZE
  if expireryTime ≠ t.prevExpTime then do
    let (_, head, hist) ← t.hist.clhistoryLookup t.serverConnHistory [] 0 expireryTime
      .ID_REMOVE_OLD
    return { t with hist := hist, serverConnHistory := head, prevExpTime := expireryTime }
  else .ok t

/-- One step of the thread; `closeCmd` is `SRV_CLOSECMD` of the flags. -/
def step (io : ServerIO) (closeCmd : Bool) (chanInfoG : ChannelInfo) (dataRing : DataRing)
    (t : ServerThread) : Except String (ServerThread × Bool × List Event) :=
  match t.pc with
  | .setup =>
    if !io.malloc then
      .error "Couldn't allocate memory for the local server connection data array"
    else if io.setup then .ok ({ t with pc := .flags }, closeCmd, [])
    else .error "server_setup: Failed to set up the listening sockets"
  | .flags =>
    if closeCmd then
      if io.close then
        .ok ({ t with
          connData := fun i => { t.connData i with state := .SRVR_STATE_INACTIVE }
          pc := .closing }, closeCmd, [])
      else .error "server_thread: close listening socket failed"
    else if io.select then .ok ({ t with pc := .service 0 }, closeCmd, [])
    else .error "server_thread: select failed"
  | .closing => .ok ({ t with pc := .ended }, false, [])
  | .service conn => do
    let (c, events) ← serviceConnection io chanInfoG dataRing conn ⟨t.connData conn, t.hist⟩
    return ({ t with
      connData := Function.update t.connData conn c.data
      hist := c.hist
      pc := if conn + 1 < MAXCLIENTCONNECTIONS then .service (conn + 1) else .listen 0 },
      closeCmd, events)
  | .listen listenerNo => do
    let (t, events) ← listen io chanInfoG listenerNo t
    return ({ t with
      pc := if listenerNo + 1 < MAX_OUTGOING_PORTS then .listen (listenerNo + 1) else .expire },
      closeCmd, events)
  | .expire => do
    let t ← expireOld io.now t
    return ({ t with pc := .flags }, closeCmd, [])
  | .ended => .ok (t, closeCmd, [])

end ServerThread

end SdrProxy
