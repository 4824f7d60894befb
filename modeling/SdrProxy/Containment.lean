import SdrProxy.Delivery
import SdrProxy.ServerLoop
import SdrProxy.System

/-!
# A fault on one client connection

What a failing `send` or `recv` on the socket of one client does to the server thread.

* `AttemptsSend` : the service of a connection gets to `send`, with `bytesDue` bytes;
* `Contained` : the service comes to an end, leaves the other connections alone, and shuts the
  connection down if `send_to_client` says that it is to be closed;
* `contained_iff` : it holds unless a `send` is attempted of more bytes than fit `sendbfr`, or fails
  with an error other than `EAGAIN` and `EWOULDBLOCK`.  An error that is not `EPIPE` ends the
  program, and nobody looks at the result for `EPIPE`;
* `reset_ends_program` : one of these.
-/

namespace SdrProxy

/-- Every active connection has its history record, as in every reachable state. -/
def ServerThread.Linked (t : ServerThread) : Prop :=
  ∀ i, (t.connData i).state ≠ .SRVR_STATE_INACTIVE →
    ∃ record, t.hist.deref (t.connData i).history = .ok record

/-- The number of bytes that `put_adc_data` adds to the send ring: the next packet, if it fits. -/
def nextPacketBytes (dataRing : DataRing) (c : Conn) : ℕ :=
  match c.hist.deref c.data.history with
  | .error _ => 0
  | .ok record =>
    match (dataRing.retr record.lastPacketTime).2 with
    | none => 0
    | some (element, _) =>
      if element.packetLen ≤ c.data.sendRing.bytesFree then element.packetLen else 0

/-- The number of bytes that there are to send: what the ring holds, with the text if there is room
for it, or with the next packet if it fits. -/
def bytesToSend (dataRing : DataRing) (state : ServrState) (c : Conn) : ℕ :=
  match state with
  | .SRVR_STATE_SENDCHAN => c.data.sendRing.bytesStored +
      if CHANINFOLEN ≤ c.data.sendRing.bytesFree then CHANINFOLEN else 0
  | .SRVR_STATE_SENDADC => c.data.sendRing.bytesStored + nextPacketBytes dataRing c
  | _ => 0

/-- The bytes for the client after what it had to say. -/
def bytesDue (io : ServerIO) (dataRing : DataRing) (c : Conn) : ℕ :=
  bytesToSend dataRing (serviceIncoming io c.data).state c

/-- A service of the connection gets to `send`: the client can take bytes, and after what it had to
say there are some for it. -/
def AttemptsSend (io : ServerIO) (dataRing : DataRing) (c : Conn) : Prop :=
  c.data.state ≠ .SRVR_STATE_INACTIVE ∧ io.writable = true ∧ 0 < bytesDue io dataRing c

variable {io : ServerIO} {chanInfoG : ChannelInfo} {dataRing : DataRing} {conn : ℕ}
variable {c c₁ : Conn} {es : List Event}

/-- What `put_adc_data` leaves to send: what was there, and the next packet if it fits. -/
theorem PutMove.bytesStored_eq {record : ConnHistData} {now rv : ℤ}
    (hrec : c.hist.deref c.data.history = .ok record)
    (h : PutMove dataRing now conn record c rv c₁ es) :
    c₁.data.sendRing.bytesStored = c.data.sendRing.bytesStored + nextPacketBytes dataRing c := by
  simp only [nextPacketBytes, hrec]
  cases h with
  | nothing hnone => simp only [hnone, Nat.add_zero]
  | full element pkt hretr hlarge =>
    simp only [hretr, Nat.not_le.2 hlarge, ↓reduceIte, Nat.add_zero]
  | placed element pkt hretr hfits =>
    have hlen := DataRing.length_of_retr hretr
    simp only [hretr, hfits, ↓reduceIte]
    rw [RingSet.bytesStored_store (hlen.le.trans hfits), hlen]

theorem PutMove.state_eq {record : ConnHistData} {now rv : ℤ}
    (h : PutMove dataRing now conn record c rv c₁ es) : c₁.data.state = c.data.state := by
  cases h <;> rfl

/-- What the `switch` leaves to send, seen from before it: all there is in the two states of
transmission, nothing in the others. -/
theorem SwitchMove.bytesToSend_eq (h : SwitchMove io chanInfoG dataRing conn c c₁ es) :
    bytesToSend dataRing c.data.state c =
      if c₁.data.state = .SRVR_STATE_SENDCHAN ∨ c₁.data.state = .SRVR_STATE_SENDADC then
        c₁.data.sendRing.bytesStored
      else 0 := by
  cases h with
  | inactive hstate => simp [bytesToSend, hstate]
  | close hstate => simp [bytesToSend, hstate]
  | text hstate hroom =>
    have hlen := length_take_chanInfoText chanInfoG
    simp only [bytesToSend, hstate, hroom, ↓reduceIte, reduceCtorEq, false_or]
    rw [RingSet.bytesStored_store (hlen.le.trans hroom), hlen]
  | noRoom hstate hroom =>
    simp only [bytesToSend, hstate, Nat.not_le.2 hroom, ↓reduceIte, true_or, Nat.add_zero]
  | adc record rv hstate hrec hput =>
    simp only [bytesToSend, hput.state_eq, hstate, hput.bytesStored_eq hrec, or_true, ↓reduceIte]
  | timeout hstate _ => simp [bytesToSend, hstate]
  | wait hstate _ => simp [bytesToSend, hstate]

theorem bytesToSend_heard {state : ServrState} :
    bytesToSend dataRing state (c.heard io) = bytesToSend dataRing state c := by
  obtain ⟨hring, hhist, -⟩ := serviceIncoming_same io c.data
  have hring' : (c.heard io).data.sendRing = c.data.sendRing := hring
  have hhist' : (c.heard io).data.history = c.data.history := hhist
  have hheap : (c.heard io).hist = c.hist := rfl
  unfold bytesToSend nextPacketBytes
  rw [hring', hhist', hheap]

/-- The calls of `send_to_client`, seen from before the service. -/
theorem callsSendToClient_iff (hactive : c.data.state ≠ .SRVR_STATE_INACTIVE)
    (h : SwitchMove io chanInfoG dataRing conn (c.heard io) c₁ es) :
    CallsSendToClient io c₁.data ↔ AttemptsSend io dataRing c := by
  have hdue : bytesDue io dataRing c = _ := bytesToSend_heard.symm.trans h.bytesToSend_eq
  unfold CallsSendToClient AttemptsSend
  rw [hdue]
  constructor
  · rintro ⟨hstored, hwritable, hstate⟩
    rw [if_pos hstate]
    exact ⟨hactive, hwritable, Nat.pos_of_ne_zero hstored⟩
  · rintro ⟨-, hwritable, hpos⟩
    split_ifs at hpos with hstate
    · exact ⟨hpos.ne', hwritable, hstate⟩
    · exact absurd hpos (Nat.lt_irrefl 0)

theorem CallsSendToClient.bytesStored_eq (hcall : CallsSendToClient io c₁.data)
    (h : SwitchMove io chanInfoG dataRing conn (c.heard io) c₁ es) :
    c₁.data.sendRing.bytesStored = bytesDue io dataRing c := by
  have hdue : bytesDue io dataRing c = _ := bytesToSend_heard.symm.trans h.bytesToSend_eq
  rw [hdue, if_pos hcall.2.2]

/-! ### The server thread -/

/-- What the service of the connection `conn` may do to the thread, whatever the outcome of the
calls on its socket. -/
structure Contained (io : ServerIO) (closeCmd : Bool) (chanInfoG : ChannelInfo)
    (dataRing : DataRing) (conn : ℕ) (t : ServerThread) : Prop where
  /-- The program goes on, and the other connections are as they were. -/
  others : ∃ t' closeCmd' es, t.step io closeCmd chanInfoG dataRing = .ok (t', closeCmd', es) ∧
    ∀ i ≠ conn, t'.connData i = t.connData i
  /-- If `send_to_client` says that the connection is to be closed, it is shut down. -/
  shutdown : (t.connData conn).state ≠ .SRVR_STATE_INACTIVE → ∀ c₁ es₁ rv data,
    serviceState io chanInfoG dataRing conn (Conn.heard io ⟨t.connData conn, t.hist⟩) =
      .ok (c₁, es₁) → CallsSendToClient io c₁.data →
    sendToClient io.send c₁.data = .ok (rv, data) → rv = -1 ∨ rv = -2 →
    ∃ t' closeCmd' es, t.step io closeCmd chanInfoG dataRing = .ok (t', closeCmd', es) ∧
      (t'.connData conn).state = .SRVR_STATE_SHUTDOWN

/-- **A fault on one client connection is contained** exactly if no `send` is attempted of more
bytes than the buffer of `send_to_client` takes, or that fails with an error other than `EAGAIN` and
`EWOULDBLOCK`. -/
theorem contained_iff (io : ServerIO) (closeCmd : Bool) (chanInfoG : ChannelInfo)
    (dataRing : DataRing) {conn : ℕ} {t : ServerThread} (hpc : t.pc = .service conn)
    (hlinked : t.Linked) : Contained io closeCmd chanInfoG dataRing conn t ↔
      ¬ (AttemptsSend io dataRing ⟨t.connData conn, t.hist⟩ ∧ (SendFails io.send ∨
        MAXPACKETSIZE < bytesDue io dataRing ⟨t.connData conn, t.hist⟩)) := by
  by_cases hactive : (t.connData conn).state = .SRVR_STATE_INACTIVE
  · -- nothing is done for an inactive connection
    have hserv : serviceConnection io chanInfoG dataRing conn ⟨t.connData conn, t.hist⟩ =
        .ok (⟨t.connData conn, t.hist⟩, []) := serviceConnection_inactive hactive
    obtain ⟨t', closeCmd', es, hstep, hothers, -⟩ := others_of_service hpc hserv
    refine iff_of_true ⟨⟨t', closeCmd', es, hstep, hothers⟩, ?_⟩ ?_
    · intro hne
      exact absurd hactive hne
    · rintro ⟨⟨hne, -⟩, -⟩
      exact hne hactive
  obtain ⟨c₁, es, hswitch, hmove, hserv⟩ := serviceConnection_spec io chanInfoG dataRing conn
    (c := ⟨t.connData conn, t.hist⟩) hactive (hlinked conn hactive)
  have hcalls := callsSendToClient_iff hactive hmove
  constructor
  · rintro hcont ⟨hattempts, hfault⟩
    have hcall := hcalls.2 hattempts
    rw [serviceOutgoing_of_call hcall] at hserv
    rw [← hcall.bytesStored_eq hmove] at hfault
    rcases Nat.lt_or_ge MAXPACKETSIZE c₁.data.sendRing.bytesStored with hover | hcopy
    · rw [sendToClient_of_overrun hover] at hserv
      obtain ⟨t', closeCmd', es', hstep, -⟩ := hcont.others
      rw [step_service hpc, hserv] at hstep
      cases hstep
    have hfails : SendFails io.send := hfault.resolve_right (Nat.not_lt.2 hcopy)
    by_cases herr : io.send.errno = .EPIPE
    · -- the state stays one of the two of transmission
      have hsend : sendToClient io.send c₁.data = .ok (-1, c₁.data) :=
        sendToClient_of_epipe hcopy hfails herr
      obtain ⟨t', closeCmd', es', hstep, hstate⟩ :=
        hcont.shutdown hactive c₁ es (-1) c₁.data hswitch hcall hsend (.inl rfl)
      rw [hsend] at hserv
      obtain ⟨t'', closeCmd'', es'', hstep', -, hdata⟩ := others_of_service hpc hserv
      rw [hstep] at hstep'
      cases hstep'
      rw [hdata] at hstate
      rcases hcall.2.2 with h | h <;> exact absurd (h.symm.trans hstate) (by simp)
    · rw [sendToClient_of_fails hcopy hfails herr] at hserv
      obtain ⟨t', closeCmd', es', hstep, -⟩ := hcont.others
      rw [step_service hpc, hserv] at hstep
      cases hstep
  · intro hnot
    have hok : CallsSendToClient io c₁.data → ∃ rv, sendToClient io.send c₁.data =
        .ok (rv, { c₁.data with
          sendRing := (c₁.data.sendRing.delete (sentCount io c₁.data)).2 }) ∧ 0 ≤ rv := by
      intro hcall
      refine sendToClient_of_not_fails hcall ?_ fun hfails => hnot ⟨hcalls.1 hcall, .inl hfails⟩
      rw [hcall.bytesStored_eq hmove]
      exact not_lt.1 fun hover => hnot ⟨hcalls.1 hcall, .inr hover⟩
    refine ⟨?_, ?_⟩
    · obtain ⟨data, hout⟩ : ∃ data, serviceOutgoing io c₁.data = .ok data := by
        by_cases hcall : CallsSendToClient io c₁.data
        · obtain ⟨rv, heq, -⟩ := hok hcall
          exact ⟨_, by rw [serviceOutgoing_of_call hcall, heq]; rfl⟩
        · exact ⟨_, serviceOutgoing_of_not_call hcall⟩
      rw [hout] at hserv
      obtain ⟨t', closeCmd', es', hstep, hothers, -⟩ := others_of_service hpc hserv
      exact ⟨t', closeCmd', es', hstep, hothers⟩
    · intro _ c₁' es₁ rv data hswitch' hcall hsend hrv
      rw [hswitch] at hswitch'
      cases hswitch'
      -- a `send` that does not fail is not reported as a failure
      obtain ⟨rv', heq, hpos⟩ := hok hcall
      rw [hsend] at heq
      cases heq
      omega

/-- A server whose connections are all about to be sent the text. -/
def textDue : ServerThread where
  pc := .service 0
  connData _ := { newData with state := .SRVR_STATE_SENDCHAN }
  hist := newRecord
  firstIdLst := some 0
  serverConnHistory := none
  prevExpTime := 0

/-- The outcome of a `send` to a client that can be written to. -/
def sendOutcome (rv : ℤ) (errno : Errno) : ServerIO :=
  ⟨true, true, true, false, true, .again, ⟨rv, errno⟩, none, true, 0, fun _ => 0⟩

/-- The client takes some of the text. -/
theorem contained_iff_taken :
    Contained (sendOutcome 7 .EAGAIN) false ⟨10, 1, 1⟩ (.alloc 0 Memory.zero.slots) 0 textDue ↔
      ¬ (AttemptsSend (sendOutcome 7 .EAGAIN) (.alloc 0 Memory.zero.slots)
        ⟨textDue.connData 0, textDue.hist⟩ ∧ (SendFails (sendOutcome 7 .EAGAIN).send ∨
          MAXPACKETSIZE < bytesDue (sendOutcome 7 .EAGAIN) (.alloc 0 Memory.zero.slots)
            ⟨textDue.connData 0, textDue.hist⟩)) :=
  contained_iff _ _ _ _ rfl fun _ _ => ⟨_, rfl⟩

/-- The client has reset the connection. -/
theorem reset_ends_program :
    ¬ Contained (sendOutcome (-1) .ECONNRESET) false ⟨10, 1, 1⟩ (.alloc 0 Memory.zero.slots) 0
      textDue := by
  intro h
  obtain ⟨t', closeCmd', es, hstep, -⟩ := h.others
  have herror : (textDue.step (sendOutcome (-1) .ECONNRESET) false ⟨10, 1, 1⟩
      (.alloc 0 Memory.zero.slots)).isOk = false := by
    decide +kernel
  rw [hstep] at herror
  cases herror

end SdrProxy
