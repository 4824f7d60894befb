import SdrProxy.Comm

/-!
# The client thread

`client_thread`, cut where it holds a mutex or calls `data_ring_ops`: everything between two cuts
touches nothing that another thread touches.

* `ClientPc` says where the thread is; `ClientThread.step` is what it does from there to the next
  cut, with the outcomes of its calls to the operating system as the argument `io`.
* The order of the cuts within one turn of the main loop is `top` (select, receive, and the `switch`
  for all states but `CLI_STATE_GET_DATA`), then for that state `sample`, `checking` once for every
  turn of the loop of `check_data`, and `publish`; and last `sending`.
* An `Except` result is the end of the program by `fail`, with its text, or by a signal.
-/

namespace SdrProxy

open Stdio

/-- `enum rcvstate_t`. -/
inductive RcvState where
  | CLI_STATE_INVALID
  | CLI_STATE_GET_ADDR
  | CLI_STATE_GET_SOCKET
  | CLI_STATE_RECONNECT
  | CLI_STATE_CONNECT
  | CLI_STATE_SEND_CHANNEL_REQUEST
  | CLI_STATE_GET_DATA
  deriving DecidableEq, Repr

/-- `state >= CLI_STATE_SEND_CHANNEL_REQUEST`. -/
def RcvState.connected : RcvState → Bool
  | CLI_STATE_SEND_CHANNEL_REQUEST | CLI_STATE_GET_DATA => true
  | _ => false

/-- Where the client thread is. -/
inductive ClientPc where
  /-- Before the address lookup. -/
  | start
  /-- At the top of the main loop. -/
  | top
  /-- In `CLI_STATE_GET_DATA`, about to read the flags. -/
  | sample
  /-- In the loop of `check_data`. -/
  | checking
  /-- After `check_data`. -/
  | publish
  /-- About to send what is on the send ring. -/
  | sending
  deriving DecidableEq, Repr

/-- The local variables of `client_thread`. -/
structure ClientThread where
  /-- Where the thread is. -/
  pc : ClientPc
  /-- `state`. -/
  state : RcvState
  /-- `failtimer`; the source does not initialise it. -/
  failtimer : ℤ
  /-- `inhibit_adc`. -/
  inhibitAdc : Bool
  /-- `new_chan_info`. -/
  newChanInfo : ChannelInfo
  /-- `old_chan_info`. -/
  oldChanInfo : ChannelInfo
  /-- `rcv_ring`. -/
  rcvRing : RingSet
  /-- `send_ring`. -/
  sendRing : RingSet
  /-- `FD_ISSET(rsocket,&writefds)` in this turn. -/
  writable : Bool

/-- The outcomes of the calls that a step of the client thread makes. -/
structure ClientIO where
  /-- `get_addr` found the host. -/
  lookup : Bool
  /-- `malloc` has memory for the rings. -/
  malloc : Bool
  /-- `select`: readable and writable, or an error. -/
  select : Option (Bool × Bool)
  /-- `recv`. -/
  recv : RecvResult
  /-- `get_socket`. -/
  socket : ℤ
  /-- `close`. -/
  close : ℤ
  /-- `connect`: the error, if any. -/
  connect : Option Errno
  /-- `send`. -/
  send : SendResult
  /-- What `rcv_bfr` of `get_adc_data` held. -/
  junk : Bfr

/-- `sdr_connect`: 0 or -1.  Its loop ends after one `connect` in every case but an error it does
not know, for `done` is set behind the branches. -/
def sdrConnect (connect : Option Errno) : ℤ :=
  match connect with
  | none | some .ECONNREFUSED | some .ENETUNREACH | some .ETIMEDOUT => 0
  | some _ => -1

/-- The string of `send_channel_request`. -/
def sendStr (clientNo : ℤ) : List UInt8 :=
  if 0 ≤ clientNo then [0x53, 0x45, 0x4E, 0x44] ++ dec clientNo.toNat ++ [0x41, 0x44]
  else CHANREQUEST

/-- `send_channel_request`: 0 if the request was put on the send ring, else -1. -/
def sendChannelRequest (clientNo : ℤ) (sendRing : RingSet) : ℤ × RingSet :=
  if CHANREQUESTLEN ≤ sendRing.bytesFree then
    (0, (sendRing.store ((sendStr clientNo).take CHANREQUESTLEN)).2)
  else (-1, sendRing)

/-- `send_to_host`: the number of bytes sent, 0 to try again, negative if the connection is gone. -/
def sendToHost (send : SendResult) (ring : RingSet) : Except String (ℤ × RingSet) :=
  let rv := min send.rv ring.bytesStored
  if rv < 0 then
    match send.errno with
    | .EWOULDBLOCK | .EAGAIN => .ok (0, ring)
    -- without MSG_NOSIGNAL a broken pipe is a signal, for which the program has no handler
    | .EPIPE => .error "SIGPIPE"
    -- other errors reach RING_DELETE, which refuses a negative count
    | _ => .ok (rv, ring)
  else if rv = 0 then .ok (-2, ring)
  else .ok (rv, (ring.delete rv.toNat).2)

namespace ClientThread

/-- The thread as it is created. -/
def init (failtimer : ℤ) (mem : Bfr) : ClientThread where
  pc := .start
  state := .CLI_STATE_GET_SOCKET
  failtimer := failtimer
  inhibitAdc := false
  newChanInfo := .zero
  oldChanInfo := .zero
  rcvRing := .alloc BFRSIZE mem
  sendRing := .alloc BFRSIZE mem
  writable := false

/-- `failtimer` and `state` after `client_rcv_to_ring` returned `rv`. -/
def noteReceived (rv : ℤ) (c : ClientThread) : ClientThread :=
  let c :=
    if rv < 0 then { c with state := .CLI_STATE_RECONNECT }
    else if rv = 0 then { c with failtimer := c.failtimer - CLIENTCYCLETIMER }
    else { c with failtimer := POSTCONNECTIONTIMOUT }
  if c.failtimer ≤ 0 then { c with state := .CLI_STATE_SEND_CHANNEL_REQUEST } else c

/-- The part of the loop before the `switch`: `select` and `client_rcv_to_ring`. -/
def receiveStage (io : ClientIO) (c : ClientThread) : Except String ClientThread :=
  if c.state.connected then
    match io.select with
    | none => .error "client_thread: select failed\n"
    | some (readable, writable) =>
      let c := { c with writable := writable }
      if !c.sendRing.isFull && readable then
        let (rv, ring) := clientRcvToRing io.recv c.rcvRing
        .ok (noteReceived rv { c with rcvRing := ring })
      else .ok c
  else .ok c

/-- The `switch`, up to the first cut of `CLI_STATE_GET_DATA`. -/
def dispatch (io : ClientIO) (clientNo : ℤ) (c : ClientThread) : Except String ClientThread :=
  match c.state with
  | .CLI_STATE_GET_SOCKET =>
    if io.socket < 0 then .error "client_thread: Error while getting socket\n"
    else .ok { c with state := .CLI_STATE_CONNECT, pc := .sending }
  | .CLI_STATE_RECONNECT =>
    if io.close < 0 then .error "client_thread: Error while closing socket\n"
    else .ok { c with state := .CLI_STATE_GET_SOCKET, pc := .sending }
  | .CLI_STATE_CONNECT =>
    if sdrConnect io.connect < 0 then
      .error "client_thread: sdr_connect returned -1 (failure)\n"
    else .ok { c with
      rcvRing := c.rcvRing.init
      sendRing := c.sendRing.init
      state := .CLI_STATE_SEND_CHANNEL_REQUEST
      pc := .sending }
  | .CLI_STATE_SEND_CHANNEL_REQUEST =>
    if c.writable then
      let (rv, ring) := sendChannelRequest clientNo c.sendRing
      .ok { c with
        sendRing := ring
        state := if rv = 0 then .CLI_STATE_GET_DATA else c.state
        pc := .sending }
    else .ok { c with pc := .sending }
  | .CLI_STATE_GET_DATA => .ok { c with pc := .sample }
  | _ => .error "Unhandled state in local client main loop\n"

/-- The end of the loop: `send_to_host` if there is something to send. -/
def sendStage (io : ClientIO) (c : ClientThread) : Except String ClientThread :=
  if c.state.connected && !c.sendRing.isEmpty && c.writable then do
    let (rv, ring) ← sendToHost io.send c.sendRing
    return { c with
      sendRing := ring
      state := if rv < 0 then .CLI_STATE_RECONNECT else c.state
      pc := .top }
  else .ok { c with pc := .top }

/-- The configuration differs from the old one, as the thread compares them. -/
def changed (c : ClientThread) : Bool :=
  c.oldChanInfo.sps ≠ c.newChanInfo.sps || c.oldChanInfo.numChannels ≠ c.newChanInfo.numChannels

/-- What the receive path sees of the thread. -/
def path (dataRing : DataRing) (c : ClientThread) : RcvPath := ⟨c.rcvRing, c.newChanInfo, dataRing⟩

/-- One turn of the loop of `check_data`. -/
def check (io : ClientIO) (dataRing : DataRing) (c : ClientThread) :
    Except String (ClientThread × DataRing × List Event) := do
  let (again, p, events) ← checkDataIter c.inhibitAdc io.junk (c.path dataRing)
  let c := { c with
    rcvRing := if again then p.ring else purge c.inhibitAdc p.ring
    newChanInfo := p.newChanInfo
    pc := if again then .checking else .publish }
  return (c, p.dataRing, events.map Event.rcv)

/-- One step of the thread. -/
def step (io : ClientIO) (comm : ClientComm) (dataRing : DataRing) (c : ClientThread) :
    Except String (ClientThread × ClientComm × DataRing × List Event) :=
  match c.pc with
  | .start =>
    if !io.lookup then .error "Error looking up remote host"
    else if io.malloc then .ok ({ c with pc := .top }, comm, dataRing, [])
    else .error "ring_ops: Failed to allocate memory for ring buffer"
  | .top => do
    let c ← receiveStage io c
    let c ← dispatch io comm.clientNo c
    return (c, comm, dataRing, [])
  | .sample =>
    .ok ({ c with
      inhibitAdc := comm.chanChange
      newChanInfo := c.oldChanInfo
      pc := .checking }, comm, dataRing, [.sampled comm.chanChange])
  | .checking => do
    let (c, dataRing, events) ← check io dataRing c
    return (c, comm, dataRing, events)
  | .publish =>
    if c.changed then
      .ok ({ c with oldChanInfo := comm.chanInfo, pc := .sending },
        { comm with chanChange := true, chanInfo := c.newChanInfo }, dataRing, [.passEnd true])
    else .ok ({ c with pc := .sending }, comm, dataRing, [.passEnd false])
  | .sending => do
    let c ← sendStage io c
    return (c, comm, dataRing, [])

end ClientThread

end SdrProxy
