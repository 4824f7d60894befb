import SdrProxy.Metadata
import SdrProxy.Relay
import SdrProxy.Switchboard

/-!
# What the client thread is for

The client thread without its rings and its buffers: an inbox that a receive adds to and that
`check_data` takes texts and packets from, and an outbox that a send takes from.

* `Receiver` : what there is to know about the thread; `Receiver.receive`, `Receiver.act`,
  `Receiver.check` and `Receiver.send` are its parts, and `Receiver.step` a step;
* `ClientThread.receiver` : the receiver that a thread stands for;
* `ClientThread.step_receiver` : a step of the thread is one of its receiver.

The cache is a finite map from times to packets again.
-/

namespace SdrProxy

/-- What there is to know about the client thread. -/
structure Receiver where
  pc : ClientPc
  state : RcvState
  failtimer : ℤ
  inhibitAdc : Bool
  newChanInfo : ChannelInfo
  oldChanInfo : ChannelInfo
  /-- What was received and not yet taken. -/
  inbox : List UInt8
  /-- What is still to be sent. -/
  outbox : List UInt8
  writable : Bool

namespace Receiver

/-- The receiver as it is created. -/
def init (failtimer : ℤ) : Receiver where
  pc := .start
  state := .CLI_STATE_GET_SOCKET
  failtimer := failtimer
  inhibitAdc := false
  newChanInfo := .zero
  oldChanInfo := .zero
  inbox := []
  outbox := []
  writable := false

/-- What is received: bytes for the inbox as far as there is room, nothing, or the end of the
connection. -/
def hear (res : RecvResult) (r : Receiver) : Receiver :=
  if r.inbox.length = BFRSIZE then { r with failtimer := r.failtimer - CLIENTCYCLETIMER }
  else
    match res with
    | .again => { r with failtimer := r.failtimer - CLIENTCYCLETIMER }
    | .error => { r with state := .CLI_STATE_RECONNECT }
    | .bytes [] => { r with state := .CLI_STATE_RECONNECT }
    | .bytes (b :: l) =>
      { r with
        inbox := r.inbox ++ (b :: l).take (BFRSIZE - r.inbox.length)
        failtimer := POSTCONNECTIONTIMOUT }

/-- Data are asked for again when the timer has run out. -/
def timeout (r : Receiver) : Receiver :=
  if r.failtimer ≤ 0 then { r with state := .CLI_STATE_SEND_CHANNEL_REQUEST } else r

/-- What is done while there is a connection: `select`, and a receive if there is something. -/
def receive (io : ClientIO) (r : Receiver) : Option Receiver :=
  if r.state.connected then
    io.select.map fun (readable, writable) =>
      let r := { r with writable := writable }
      if readable ∧ r.outbox.length ≠ BFRSIZE then (r.hear io.recv).timeout else r
  else some r

/-- What the state says to do; `none` is the end of the program. -/
def act (io : ClientIO) (clientNo : ℤ) (r : Receiver) : Option Receiver :=
  match r.state with
  | .CLI_STATE_GET_SOCKET =>
    if io.socket < 0 then none else some { r with state := .CLI_STATE_CONNECT, pc := .sending }
  | .CLI_STATE_RECONNECT =>
    if io.close < 0 then none else some { r with state := .CLI_STATE_GET_SOCKET, pc := .sending }
  | .CLI_STATE_CONNECT =>
    if sdrConnect io.connect < 0 then none
    else some { r with
      inbox := []
      outbox := []
      state := .CLI_STATE_SEND_CHANNEL_REQUEST
      pc := .sending }
  | .CLI_STATE_SEND_CHANNEL_REQUEST =>
    if r.writable ∧ r.outbox.length + CHANREQUESTLEN ≤ BFRSIZE then
      some { r with
        outbox := r.outbox ++ (sendStr clientNo).take CHANREQUESTLEN
        state := .CLI_STATE_GET_DATA
        pc := .sending }
    else some { r with pc := .sending }
  | .CLI_STATE_GET_DATA => some { r with pc := .sample }
  | _ => none

/-- What is handed on, if the inbox is worked off as this turn says: an accepted configuration or a
packet for the cache. -/
def handOn (junk : Bfr) (cache : PacketMap) (t : Turn) (r : Receiver) :
    Receiver × PacketMap × List Event :=
  let r := { r with
    inbox := if t.again then t.rest else purged r.inhibitAdc t.rest
    pc := if t.again then .checking else .publish }
  match t.item with
  | none => (r, cache, [])
  | some (.chan c) => ({ r with newChanInfo := c }, cache, [.rcv (.accepted c)])
  | some (.adc pkt) =>
    let element := packetInfo (junk.load 0 pkt) pkt.length
    let (taken, cache) := cache.offer DATASIZE element.packetTime (element, pkt)
    (r, cache, [.rcv (.stored element pkt (if taken then 0 else 1))])

/-- What is sent is gone from the outbox, unless the connection is gone; a broken one ends the
program. -/
def send (io : ClientIO) (r : Receiver) : Option Receiver :=
  if r.state.connected ∧ r.outbox ≠ [] ∧ r.writable then
    if io.send.rv < 0 then
      match io.send.errno with
      | .EWOULDBLOCK | .EAGAIN => some { r with pc := .top }
      | .EPIPE => none
      | _ => some { r with state := .CLI_STATE_RECONNECT, pc := .top }
    else if io.send.rv = 0 then some { r with state := .CLI_STATE_RECONNECT, pc := .top }
    else some { r with outbox := r.outbox.drop io.send.rv.toNat, pc := .top }
  else some { r with pc := .top }

/-- The configuration that was received differs from the old one. -/
def changed (r : Receiver) : Bool :=
  r.oldChanInfo.sps ≠ r.newChanInfo.sps || r.oldChanInfo.numChannels ≠ r.newChanInfo.numChannels

/-- A step of the receiver; `none` is the end of the program. -/
def step (io : ClientIO) (comm : ClientComm) (cache : PacketMap) (r : Receiver) :
    Option (Receiver × ClientComm × PacketMap × List Event) :=
  match r.pc with
  | .start =>
    if io.lookup ∧ io.malloc then some ({ r with pc := .top }, comm, cache, []) else none
  | .top => ((r.receive io).bind fun r => r.act io comm.clientNo).map fun r => (r, comm, cache, [])
  | .sample =>
    some ({ r with inhibitAdc := comm.chanChange, newChanInfo := r.oldChanInfo, pc := .checking },
      comm, cache, [.sampled comm.chanChange])
  | .checking => (turn r.inhibitAdc r.inbox).map fun t =>
    let (r, cache, events) := r.handOn io.junk cache t
    (r, comm, cache, events)
  | .publish =>
    if r.changed then
      some ({ r with oldChanInfo := comm.chanInfo, pc := .sending },
        { comm with chanChange := true, chanInfo := r.newChanInfo }, cache, [.passEnd true])
    else some ({ r with pc := .sending }, comm, cache, [.passEnd false])
  | .sending => (r.send io).map fun r => (r, comm, cache, [])

end Receiver

/-! ### The thread -/

theorem not_ok_of_error {α : Type*} {P : Prop} {msg : String} {x : α}
    (h : (Except.error msg : Except String α) = .ok x) : P := by
  cases h

namespace ClientThread

/-- What there is to know about the thread. -/
def receiver (c : ClientThread) : Receiver where
  pc := c.pc
  state := c.state
  failtimer := c.failtimer
  inhibitAdc := c.inhibitAdc
  newChanInfo := c.newChanInfo
  oldChanInfo := c.oldChanInfo
  inbox := c.rcvRing.contents
  outbox := c.sendRing.contents
  writable := c.writable

/-- The rings have the size that they were allocated with. -/
structure Sized (c : ClientThread) : Prop where
  rcv : c.rcvRing.bfrsize = BFRSIZE + 1
  send : c.sendRing.bfrsize = BFRSIZE + 1

variable {c c' : ClientThread} {io : ClientIO}

theorem sized_init (failtimer : ℤ) (mem : Bfr) : (init failtimer mem).Sized := ⟨rfl, rfl⟩

theorem Sized.of_ok (h : c.Sized) (heq : Except.ok c = (Except.ok c' : Except String _)) :
    c'.Sized := by
  cases heq
  exact h

/-- The room on a ring of the thread. -/
theorem bytesFree_eq {ring : RingSet} (h : ring.bfrsize = BFRSIZE + 1) :
    ring.bytesFree = BFRSIZE - ring.contents.length ∧ ring.contents.length ≤ BFRSIZE := by
  have hsum := ring.bytesStored_add_bytesFree
  rw [h, Nat.add_sub_cancel, ← RingSet.length_contents] at hsum
  omega

theorem receiver_noteReceived (rv : ℤ) (c : ClientThread) : (noteReceived rv c).receiver =
    (if rv < 0 then { c.receiver with state := .CLI_STATE_RECONNECT }
      else if rv = 0 then { c.receiver with failtimer := c.failtimer - CLIENTCYCLETIMER }
      else { c.receiver with failtimer := POSTCONNECTIONTIMOUT }).timeout := by
  unfold noteReceived Receiver.timeout
  dsimp only
  split_ifs <;> first | rfl | contradiction

/-- **What is received is heard.** -/
theorem receiver_hear (h : c.Sized) (res : RecvResult) :
    (noteReceived (clientRcvToRing res c.rcvRing).1
      { c with rcvRing := (clientRcvToRing res c.rcvRing).2 }).receiver =
      (c.receiver.hear res).timeout := by
  obtain ⟨hfree, hle⟩ := bytesFree_eq h.rcv
  have hmin : min BFRSIZE c.rcvRing.bytesFree = BFRSIZE - c.rcvRing.contents.length := by omega
  rw [receiver_noteReceived]
  congr 1
  unfold Receiver.hear
  by_cases hfull : c.rcvRing.contents.length = BFRSIZE
  · have hinbox : c.receiver.inbox.length = BFRSIZE := hfull
    have hrcv : clientRcvToRing res c.rcvRing = (0, c.rcvRing) := by
      unfold clientRcvToRing
      rw [hmin, hfull, Nat.sub_self]
      rfl
    rw [hrcv, if_pos hinbox]
    rfl
  · have hinbox : ¬ c.receiver.inbox.length = BFRSIZE := hfull
    have hroom : ¬ BFRSIZE - c.rcvRing.contents.length = 0 := by omega
    rw [if_neg hinbox]
    cases res with
    | again =>
      have hrcv : clientRcvToRing .again c.rcvRing = (0, c.rcvRing) := ite_self _
      rw [hrcv]
      rfl
    | error =>
      have hrcv : clientRcvToRing .error c.rcvRing = (-1, c.rcvRing) := by
        simp only [clientRcvToRing, hmin, hroom, ↓reduceIte]
      rw [hrcv]
      rfl
    | bytes l =>
      cases l with
      | nil =>
        have hrcv : clientRcvToRing (.bytes []) c.rcvRing = (-2, c.rcvRing) := by
          simp only [clientRcvToRing, hmin, hroom, List.take_nil, List.length_nil, lt_irrefl,
            ↓reduceIte]
        rw [hrcv]
        rfl
      | cons b l =>
        obtain ⟨taken, htaken⟩ :
            ∃ taken, taken = (b :: l).take (BFRSIZE - c.rcvRing.contents.length) := ⟨_, rfl⟩
        have hlen : taken.length ≤ c.rcvRing.bytesFree := by
          rw [hfree, htaken]
          exact List.length_take_le _ _
        have hpos : 0 < taken.length := by
          rw [htaken, List.length_take, List.length_cons]
          omega
        have hrcv : clientRcvToRing (.bytes (b :: l)) c.rcvRing =
            ((taken.length : ℤ), (c.rcvRing.store taken).2) := by
          simp only [clientRcvToRing, hmin, hroom, ← htaken, hpos, ↓reduceIte]
        have hnonneg : ¬ (taken.length : ℤ) < 0 := by omega
        have hne : ¬ (taken.length : ℤ) = 0 := by omega
        rw [hrcv, if_neg hnonneg, if_neg hne]
        have hcontents : (c.rcvRing.store taken).2.contents = c.receiver.inbox ++ taken :=
          RingSet.contents_store hlen
        have htaken' : taken = (b :: l).take (BFRSIZE - c.receiver.inbox.length) := htaken
        dsimp only
        rw [← htaken', ← hcontents]
        rfl

theorem sized_noteReceived {c : ClientThread} (h : c.Sized) (rv : ℤ) :
    (noteReceived rv c).Sized := by
  unfold noteReceived
  dsimp only
  split_ifs <;> exact ⟨h.rcv, h.send⟩

theorem receiver_receive (h : c.Sized) (io : ClientIO) :
    (receiveStage io c).toOption.map receiver = c.receiver.receive io ∧
      ∀ c', receiveStage io c = .ok c' → c'.Sized := by
  obtain ⟨hfree, hle⟩ := bytesFree_eq h.send
  have hstate : c.receiver.state = c.state := rfl
  have houtbox : c.receiver.outbox = c.sendRing.contents := rfl
  unfold receiveStage Receiver.receive
  rw [hstate]
  cases hconn : c.state.connected with
  | false => exact ⟨rfl, fun c' => .of_ok h⟩
  | true =>
    simp only [↓reduceIte]
    cases io.select with
    | none => exact ⟨rfl, fun c' => not_ok_of_error⟩
    | some found =>
      obtain ⟨readable, writable⟩ := found
      have hfull : (!c.sendRing.isFull && readable) = true ↔
          (readable = true ∧ c.receiver.outbox.length ≠ BFRSIZE) := by
        rw [Bool.and_eq_true, Bool.not_eq_true', ← Bool.not_eq_true, RingSet.isFull_iff, hfree,
          houtbox]
        constructor
        · rintro ⟨hroom, hread⟩
          exact ⟨hread, by omega⟩
        · rintro ⟨hread, hroom⟩
          exact ⟨by omega, hread⟩
      have hsized : ({ c with writable := writable } : ClientThread).Sized := ⟨h.rcv, h.send⟩
      simp only [hfull, Option.map_some]
      split_ifs with hread
      · refine ⟨congrArg some (receiver_hear hsized io.recv), ?_⟩
        intro c' hc'
        obtain rfl := Except.ok.inj hc'
        have hstored : ({ c with
            writable := writable
            rcvRing := (clientRcvToRing io.recv c.rcvRing).2 } : ClientThread).Sized :=
          ⟨(bfrsize_clientRcvToRing _ _).trans h.rcv, h.send⟩
        exact sized_noteReceived hstored _
      · exact ⟨rfl, fun c' => .of_ok hsized⟩

theorem receiver_act (h : c.Sized) (io : ClientIO) (clientNo : ℤ) :
    (dispatch io clientNo c).toOption.map receiver = c.receiver.act io clientNo ∧
      ∀ c', dispatch io clientNo c = .ok c' → c'.Sized := by
  obtain ⟨hfree, hle⟩ := bytesFree_eq h.send
  have hstate : c.receiver.state = c.state := rfl
  unfold dispatch Receiver.act
  rw [hstate]
  cases c.state with
  | CLI_STATE_INVALID => exact ⟨rfl, fun c' => not_ok_of_error⟩
  | CLI_STATE_GET_ADDR => exact ⟨rfl, fun c' => not_ok_of_error⟩
  | CLI_STATE_GET_DATA => exact ⟨rfl, fun c' => .of_ok ⟨h.rcv, h.send⟩⟩
  | CLI_STATE_GET_SOCKET =>
    dsimp only
    split_ifs
    · exact ⟨rfl, fun c' => False.elim⟩
    · exact ⟨rfl, fun c' => .of_ok ⟨h.rcv, h.send⟩⟩
  | CLI_STATE_RECONNECT =>
    dsimp only
    split_ifs
    · exact ⟨rfl, fun c' => False.elim⟩
    · exact ⟨rfl, fun c' => .of_ok ⟨h.rcv, h.send⟩⟩
  | CLI_STATE_CONNECT =>
    dsimp only
    split_ifs
    · exact ⟨rfl, fun c' => False.elim⟩
    · refine ⟨?_, fun c' => .of_ok ⟨h.rcv, h.send⟩⟩
      simp only [receiver, Except.toOption, Option.map_some, RingSet.contents_init]
  | CLI_STATE_SEND_CHANNEL_REQUEST =>
    have houtbox : c.receiver.outbox = c.sendRing.contents := rfl
    have hwritable : c.receiver.writable = c.writable := rfl
    have hroom : CHANREQUESTLEN ≤ c.sendRing.bytesFree ↔
        c.receiver.outbox.length + CHANREQUESTLEN ≤ BFRSIZE := by
      rw [hfree, houtbox]
      omega
    dsimp only
    rw [hwritable]
    cases hwrite : c.writable with
    | false =>
      simp only [Bool.false_eq_true, false_and, ↓reduceIte]
      refine ⟨?_, fun c' => .of_ok ⟨h.rcv, h.send⟩⟩
      rw [← hwrite]
      rfl
    | true =>
      simp only [true_and, ↓reduceIte, ← hroom]
      by_cases hfits : CHANREQUESTLEN ≤ c.sendRing.bytesFree
      · have hlen : ((sendStr clientNo).take CHANREQUESTLEN).length ≤ c.sendRing.bytesFree :=
          (List.length_take_le _ _).trans hfits
        have hsend : sendChannelRequest clientNo c.sendRing =
            (0, (c.sendRing.store ((sendStr clientNo).take CHANREQUESTLEN)).2) := if_pos hfits
        rw [hsend, if_pos hfits]
        refine ⟨?_, fun c' => .of_ok ⟨h.rcv, ?_⟩⟩
        · rw [houtbox, ← RingSet.contents_store hlen]
          rfl
        · exact (RingSet.bfrsize_store _ _).trans h.send
      · have hsend : sendChannelRequest clientNo c.sendRing = (-1, c.sendRing) := if_neg hfits
        rw [hsend, if_neg hfits]
        exact ⟨rfl, fun c' => .of_ok ⟨h.rcv, h.send⟩⟩

theorem sendToHost_of_pos {ring : RingSet} {send : SendResult} (hpos : 0 < send.rv)
    (hstored : 0 < ring.bytesStored) : ∃ rv > 0, ∃ n ≤ ring.bytesStored,
      sendToHost send ring = .ok (rv, (ring.delete n).2) ∧
        ring.contents.drop n = ring.contents.drop send.rv.toNat := by
  have hmin : 0 < min send.rv ring.bytesStored := by omega
  unfold sendToHost
  dsimp only
  rw [if_neg hmin.not_gt, if_neg hmin.ne']
  refine ⟨_, hmin, _, ?_, rfl, ?_⟩
  · omega
  · rcases le_total send.rv ring.bytesStored with hle | hle
    · rw [min_eq_left hle]
    · -- more than there is cannot be dropped
      rw [min_eq_right hle, Int.toNat_natCast, List.drop_of_length_le, List.drop_of_length_le]
      · rw [RingSet.length_contents]
        omega
      · rw [RingSet.length_contents]

theorem receiver_send (h : c.Sized) (io : ClientIO) :
    (sendStage io c).toOption.map receiver = c.receiver.send io ∧
      ∀ c', sendStage io c = .ok c' → c'.Sized := by
  have hstate : c.receiver.state = c.state := rfl
  have houtbox : c.receiver.outbox = c.sendRing.contents := rfl
  have hwritable : c.receiver.writable = c.writable := rfl
  have hcall : (c.state.connected && !c.sendRing.isEmpty && c.writable) = true ↔
      (c.state.connected = true ∧ c.receiver.outbox ≠ [] ∧ c.writable = true) := by
    rw [Bool.and_eq_true, Bool.and_eq_true, Bool.not_eq_true', ← Bool.not_eq_true,
      RingSet.isEmpty_iff, houtbox, ← RingSet.length_contents, List.length_eq_zero_iff, and_assoc]
  by_cases hsend : c.state.connected = true ∧ c.receiver.outbox ≠ [] ∧ c.writable = true
  · have hstored : 0 < c.sendRing.bytesStored := by
      rw [← RingSet.length_contents]
      exact List.length_pos_iff.2 hsend.2.1
    unfold sendStage Receiver.send
    rw [if_pos (hcall.2 hsend), hstate, hwritable, if_pos hsend]
    rcases lt_trichotomy io.send.rv 0 with hneg | hzero | hpos
    · have hmin : min io.send.rv c.sendRing.bytesStored < 0 := by omega
      rw [if_pos hneg, sendToHost]
      dsimp only
      rw [if_pos hmin]
      cases io.send.errno with
      | EWOULDBLOCK | EAGAIN => exact ⟨rfl, fun c' => .of_ok ⟨h.rcv, h.send⟩⟩
      | EPIPE => exact ⟨rfl, fun c' => not_ok_of_error⟩
      | ECONNRESET | ECONNREFUSED | ENETUNREACH | ETIMEDOUT | other =>
        simp only [bind, Except.bind, hmin, ↓reduceIte]
        exact ⟨rfl, fun c' => .of_ok ⟨h.rcv, h.send⟩⟩
    · have hmin : min io.send.rv c.sendRing.bytesStored = 0 := by omega
      rw [sendToHost]
      dsimp only
      rw [hmin, hzero]
      exact ⟨rfl, fun c' => .of_ok ⟨h.rcv, h.send⟩⟩
    · obtain ⟨rv, hrv, n, hn, heq, hdrop⟩ := sendToHost_of_pos hpos hstored
      rw [heq, if_neg hpos.not_gt, if_neg hpos.ne']
      simp only [bind, Except.bind, hrv.not_gt, ↓reduceIte]
      refine ⟨?_, fun c' => .of_ok ⟨h.rcv, (RingSet.bfrsize_delete _ _).trans h.send⟩⟩
      rw [houtbox, ← hdrop, ← RingSet.contents_delete hn]
      rfl
  · unfold sendStage Receiver.send
    rw [if_neg (hcall.not.2 hsend), hstate, hwritable, if_neg hsend]
    exact ⟨rfl, fun c' => .of_ok ⟨h.rcv, h.send⟩⟩

end ClientThread

/-! ### The metadata of a packet -/

/-- What is copied over the same place does not matter. -/
theorem Bfr.load_load {b : Bfr} {l l' : List UInt8} (h : l.length ≤ l'.length) :
    (b.load 0 l).load 0 l' = b.load 0 l' := by
  funext i
  rcases lt_or_ge i l'.length with hi | hi
  · rw [load_zero_apply _ hi, load_zero_apply _ hi]
  · rw [Bfr.load_of_ge (by omega), Bfr.load_of_ge (by omega), Bfr.load_of_ge (by omega)]

section Stored

variable {index rv : ℤ} {inhibitAdc again : Bool} {junk : Bfr} {p p' : RcvPath}
variable {events : List RcvEvent} {element : PacketInfo} {pkt : List UInt8} {ret : ℤ}

theorem getAdcData_stored (h : getAdcData index junk p = .ok (rv, p', events))
    (he : .stored element pkt ret ∈ events) :
    element = packetInfo (junk.load 0 pkt) pkt.length := by
  unfold getAdcData at h
  dsimp only at h
  generalize skipTo index p.ring = ring at h
  obtain ⟨hdr, hhdr⟩ : ∃ hdr, hdr = (ring.view PREHDRLEN).getD [] := ⟨_, rfl⟩
  have hhdrlen : hdr.length ≤ PREHDRLEN := by
    rcases Nat.lt_or_ge ring.bytesStored PREHDRLEN with hlt | hge
    · rw [hhdr, RingSet.view_eq_none hlt]
      exact Nat.zero_le _
    · rw [hhdr, RingSet.view_eq hge]
      exact List.length_take_le _ _
  rw [← hhdr] at h
  generalize (junk.load 0 hdr).u16 PREHDR_POS_DATALEN = datalen at h
  generalize junk.load 0 hdr PREHDR_POS_TYPE = type at h
  split at h
  · split at h
    · cases h
    · split at h
      · rename_i hall
        rw [RingSet.retr_eq hall] at h
        dsimp only at h
        have hlen : (ring.contents.take (PREHDRLEN + datalen)).length = PREHDRLEN + datalen := by
          rw [List.length_take, RingSet.length_contents, Nat.min_eq_left hall]
        generalize ring.contents.take (PREHDRLEN + datalen) = bytes at h hlen
        rw [Bfr.load_load (by omega)] at h
        split at h
        · split at h
          · obtain ⟨⟨dataRing, events'⟩, hadd, h⟩ := bind_eq_ok.1 h
            cases h
            obtain ⟨⟨ret', r₁⟩, -, hadd⟩ := bind_eq_ok.1 hadd
            cases hadd
            obtain ⟨rfl, rfl, rfl⟩ := by simpa using he
            rw [← hlen, Bfr.read_load]
            rfl
          · cases h
            cases he
        · cases h
          cases he
      · cases h
        cases he
  · cases h
    cases he

theorem checkDataIter_stored (h : checkDataIter inhibitAdc junk p = .ok (again, p', events))
    (he : .stored element pkt ret ∈ events) :
    element = packetInfo (junk.load 0 pkt) pkt.length := by
  unfold checkDataIter at h
  dsimp only at h
  generalize (if inhibitAdc then -1 else searchRing ADCTOKEN p.ring) = adcidx at h
  split_ifs at h
  · cases h
    exact absurd he (getChanInfo_stored _ _)
  · obtain ⟨⟨rv, p₁, events₁⟩, hget, h⟩ := bind_eq_ok.1 h
    have hevents : events = events₁ := by
      dsimp only at h
      split_ifs at h <;> cases h <;> rfl
    exact getAdcData_stored hget (hevents ▸ he)
  · cases h
    exact absurd he (getChanInfo_stored _ _)
  · cases h
    cases he

end Stored

/-! ### Steps of the thread -/

variable {c : ClientThread} {dataRing : DataRing}

theorem handed_handOn {t : Turn} {p p' : RcvPath} {events : List RcvEvent}
    (r : Receiver) (junk : Bfr) (hok : p.dataRing.Ok) (h : Handed t.item p p' events)
    (hstored : ∀ element pkt ret, .stored element pkt ret ∈ events →
      element = packetInfo (junk.load 0 pkt) pkt.length)
    (hinfo : r.newChanInfo = p.newChanInfo) :
    p'.dataRing.Ok ∧ r.handOn junk p.dataRing.map t = ({ r with
        inbox := if t.again then t.rest else purged r.inhibitAdc t.rest
        pc := if t.again then .checking else .publish
        newChanInfo := p'.newChanInfo }, p'.dataRing.map, events.map .rcv) := by
  obtain ⟨again, rest, item⟩ := t
  unfold Receiver.handOn
  cases h with
  | none hsame hring =>
    rw [hring, hsame, ← hinfo]
    exact ⟨hok, rfl⟩
  | chan c hsame hring =>
    rw [hring, hsame]
    exact ⟨hok, rfl⟩
  | adc element pktImg pkt ret hread hsame hstore =>
    obtain ⟨taken, r', heq, hok', -, hoffer⟩ := DataRing.store_spec hok element pktImg
    obtain ⟨rfl, rfl⟩ : ret = (if taken then 0 else 1) ∧ p'.dataRing = r' := by
      rw [hstore] at heq
      exact Prod.mk.inj (Except.ok.inj heq)
    have helement := hstored element pkt _ List.mem_cons_self
    have hvalue : DataRing.value element pktImg = (element, pkt) := by
      rw [DataRing.value, hread]
    rw [hvalue] at hoffer
    dsimp only
    rw [← helement, hoffer, hsame, ← hinfo]
    exact ⟨hok', rfl⟩

namespace ClientThread

/-- **A turn of `check_data` hands on what the turn of the inbox says.** -/
theorem receiver_check (h : c.Sized) (hok : dataRing.Ok) (io : ClientIO) {t : Turn}
    (ht : turn c.inhibitAdc c.rcvRing.contents = some t) : ∃ c' dataRing' es,
    c.check io dataRing = .ok (c', dataRing', es) ∧ c'.Sized ∧ dataRing'.Ok ∧
      (c'.receiver, dataRing'.map, es) = c.receiver.handOn io.junk dataRing.map t := by
  have hiter := checkDataIter_turn c.inhibitAdc io.junk (c.path dataRing)
  have hturn : turn c.inhibitAdc (c.path dataRing).ring.contents = some t := ht
  rw [hturn] at hiter
  obtain ⟨p', events, heq, hagrees⟩ := hiter
  obtain ⟨ring, hring⟩ : ∃ ring, ring = if t.again then p'.ring else purge c.inhibitAdc p'.ring :=
    ⟨_, rfl⟩
  have hsize : ring.bfrsize = BFRSIZE + 1 := by
    rw [hring]
    split_ifs
    · exact hagrees.bfrsize.trans h.rcv
    · exact (bfrsize_purge _ _).trans (hagrees.bfrsize.trans h.rcv)
  have hinbox : ring.contents = if t.again then t.rest else purged c.inhibitAdc t.rest := by
    rw [hring]
    split_ifs
    · exact hagrees.contents
    · rw [contents_purge, hagrees.contents]
  have hcheck : c.check io dataRing = .ok ({ c with
      rcvRing := ring
      newChanInfo := p'.newChanInfo
      pc := if t.again then .checking else .publish }, p'.dataRing, events.map Event.rcv) := by
    rw [ClientThread.check, heq, hring]
    rfl
  obtain ⟨hok', hhand⟩ := handed_handOn c.receiver io.junk hok hagrees.handed
    (fun element pkt ret he => checkDataIter_stored heq he) rfl
  refine ⟨_, _, _, hcheck, ⟨hsize, h.send⟩, hok', ?_⟩
  refine Eq.trans ?_ hhand.symm
  show ((⟨_, _, _, _, _, _, ring.contents, _, _⟩ : Receiver), _, _) = _
  rw [hinbox]
  rfl

/-- **A step of the thread is one of its receiver.** -/
theorem step_receiver (h : c.Sized) (hok : dataRing.Ok) (io : ClientIO) (comm : ClientComm) :
    (c.step io comm dataRing).toOption.map
        (fun x => (x.1.receiver, x.2.1, x.2.2.1.map, x.2.2.2)) =
      c.receiver.step io comm dataRing.map ∧
    ∀ x, c.step io comm dataRing = .ok x → x.1.Sized ∧ x.2.2.1.Ok := by
  have hpc : c.receiver.pc = c.pc := rfl
  unfold ClientThread.step Receiver.step
  rw [hpc]
  cases c.pc with
  | start =>
    dsimp only
    cases io.lookup with
    | false => exact ⟨rfl, fun x => not_ok_of_error⟩
    | true =>
      cases io.malloc with
      | false => exact ⟨rfl, fun x => not_ok_of_error⟩
      | true =>
        refine ⟨rfl, ?_⟩
        intro x hx
        cases hx
        exact ⟨⟨h.rcv, h.send⟩, hok⟩
  | top =>
    obtain ⟨hreceive, hsized⟩ := receiver_receive h io
    dsimp only
    rw [← hreceive]
    cases hrcv : receiveStage io c with
    | error msg => exact ⟨rfl, fun x => not_ok_of_error⟩
    | ok c₁ =>
      obtain ⟨hact, hsized'⟩ := receiver_act (hsized c₁ hrcv) io comm.clientNo
      show Option.map _ (Except.toOption (Except.bind (dispatch io comm.clientNo c₁) _)) =
          Option.map _ (c₁.receiver.act io comm.clientNo) ∧
        ∀ x, Except.bind (dispatch io comm.clientNo c₁) _ = _ → _
      rw [← hact]
      cases hdisp : dispatch io comm.clientNo c₁ with
      | error msg => exact ⟨rfl, fun x => not_ok_of_error⟩
      | ok c₂ =>
        refine ⟨rfl, ?_⟩
        intro x hx
        cases hx
        exact ⟨hsized' c₂ hdisp, hok⟩
  | sample =>
    refine ⟨rfl, ?_⟩
    intro x hx
    cases hx
    exact ⟨⟨h.rcv, h.send⟩, hok⟩
  | checking =>
    have hiter := checkDataIter_turn c.inhibitAdc io.junk (c.path dataRing)
    have hsame : turn c.inhibitAdc (c.path dataRing).ring.contents =
        turn c.receiver.inhibitAdc c.receiver.inbox := rfl
    dsimp only
    cases ht : turn c.receiver.inhibitAdc c.receiver.inbox with
    | none =>
      rw [hsame, ht] at hiter
      have hcheck : c.check io dataRing = .error TOKENFAIL := by
        rw [ClientThread.check, show checkDataIter c.inhibitAdc io.junk (c.path dataRing) =
          .error TOKENFAIL from hiter]
        rfl
      rw [hcheck]
      exact ⟨rfl, fun x => not_ok_of_error⟩
    | some t =>
      obtain ⟨c', dataRing', es, hcheck, hsized, hok', hhand⟩ := receiver_check h hok io ht
      rw [hcheck]
      refine ⟨?_, ?_⟩
      · rw [Option.map_some, ← hhand]
        rfl
      · intro x hx
        cases hx
        exact ⟨hsized, hok'⟩
  | publish =>
    have hchanged : c.receiver.changed = c.changed := rfl
    dsimp only
    rw [hchanged]
    split_ifs
    · refine ⟨rfl, ?_⟩
      intro x hx
      cases hx
      exact ⟨⟨h.rcv, h.send⟩, hok⟩
    · refine ⟨rfl, ?_⟩
      intro x hx
      cases hx
      exact ⟨⟨h.rcv, h.send⟩, hok⟩
  | sending =>
    obtain ⟨hsend, hsized⟩ := receiver_send h io
    dsimp only
    rw [← hsend]
    cases hstage : sendStage io c with
    | error msg => exact ⟨rfl, fun x => not_ok_of_error⟩
    | ok c' =>
      refine ⟨rfl, ?_⟩
      intro x hx
      cases hx
      exact ⟨hsized c' hstage, hok⟩

end ClientThread

end SdrProxy
