import SdrProxy.Exits

/-!
# The connection to the remote server

The system calls that the client thread makes on its socket, and the bytes it sends there.

* `SockCall`, `ClientThread.calls` : the calls of a step, in order;
* `SockState.next` : a socket is opened, connected, used and closed, then the next one is opened;
* `sentSince` : the bytes sent on the socket at hand;
* `upstream_always` : in every run the calls keep to this order, and what is sent on a socket is the
  channel request, whole and over again.
-/

namespace SdrProxy

/-- A system call on the socket of the client thread. -/
inductive SockCall where
  | socket
  | connect
  | close
  | select
  | recv
  /-- `send`, and the bytes that it took. -/
  | send (bytes : List UInt8)
  deriving DecidableEq, Repr

/-- How far the socket at hand is set up. -/
inductive SockState where
  /-- There is none. -/
  | closed
  /-- It was opened. -/
  | fresh
  /-- `connect` was called on it. -/
  | connected
  deriving DecidableEq, Repr

/-- The socket after a call, if the call may be made. -/
def SockState.next : SockState → SockCall → Option SockState
  | closed, .socket => some fresh
  | fresh, .connect => some connected
  | connected, .close => some closed
  | connected, .select => some connected
  | connected, .recv => some connected
  | connected, .send _ => some connected
  | _, _ => none

/-- The socket after some calls, if they may be made in this order. -/
def SockState.after (sock : SockState) (calls : List SockCall) : Option SockState :=
  calls.foldlM next sock

/-- The bytes that were sent since the last `connect`. -/
def sentSince (sent : List UInt8) (calls : List SockCall) : List UInt8 :=
  calls.foldl (fun sent call => match call with
    | .connect => []
    | .send bytes => sent ++ bytes
    | _ => sent) sent

theorem SockState.after_append {sock sock' : SockState} {calls : List SockCall}
    (h : sock.after calls = some sock') (calls' : List SockCall) :
    sock.after (calls ++ calls') = sock'.after calls' := by
  rw [after, List.foldlM_append]
  change Option.bind (sock.after calls) _ = _
  rw [h]
  rfl

theorem sentSince_append (sent : List UInt8) (calls calls' : List SockCall) :
    sentSince sent (calls ++ calls') = sentSince (sentSince sent calls) calls' :=
  List.foldl_append

/-! ### The calls of a step -/

/-- The socket in a state of the thread. -/
def RcvState.sock : RcvState → SockState
  | CLI_STATE_GET_SOCKET => .closed
  | CLI_STATE_CONNECT => .fresh
  | _ => .connected

theorem RcvState.sock_of_connected {state : RcvState} (h : state.connected = true) :
    state.sock = .connected := by
  cases state <;> first | rfl | cases h

/-- The request of the client. -/
def request (clientNo : ℤ) : List UInt8 := (sendStr clientNo).take CHANREQUESTLEN

namespace ClientThread

variable {io : ClientIO} {c c' : ClientThread} {clientNo : ℤ}

/-- The calls before the `switch`. -/
def receiveCalls (io : ClientIO) (c : ClientThread) : List SockCall :=
  if c.state.connected then if c.CallsRecv io then [.select, .recv] else [.select] else []

/-- The calls of the `switch`. -/
def switchCalls (c : ClientThread) : List SockCall :=
  match c.state with
  | .CLI_STATE_GET_SOCKET => [.socket]
  | .CLI_STATE_RECONNECT => [.close]
  | .CLI_STATE_CONNECT => [.connect]
  | _ => []

/-- The call of `send_to_host`. -/
def sendCalls (io : ClientIO) (c : ClientThread) : List SockCall :=
  if c.CallsSend then
    [.send (c.sendRing.contents.take (min io.send.rv c.sendRing.bytesStored).toNat)]
  else []

/-- The calls of a step of the thread. -/
def calls (io : ClientIO) (c : ClientThread) : List SockCall :=
  match c.pc with
  | .top =>
    match receiveStage io c with
    | .ok c' => c.receiveCalls io ++ c'.switchCalls
    | .error _ => c.receiveCalls io
  | .sending => c.sendCalls io
  | _ => []

/-- The thread and its socket: the calls so far have left it as the state says, and what was sent
and what is still to be sent are whole requests. -/
structure Tidy (clientNo : ℤ) (c : ClientThread) (calls : List SockCall) : Prop where
  sock : SockState.closed.after calls = some c.state.sock
  sent : ∃ n, sentSince [] calls ++ c.sendRing.contents =
    (List.replicate n (request clientNo)).flatten

/-- A step that leaves the socket and the send ring alone. -/
theorem Tidy.same {calls : List SockCall} (h : c.Tidy clientNo calls) (hstate : c'.state = c.state)
    (hring : c'.sendRing = c.sendRing) : c'.Tidy clientNo calls := by
  refine ⟨?_, ?_⟩
  · rw [hstate]
    exact h.sock
  · rw [hring]
    exact h.sent

theorem receiveStage_sendRing (h : receiveStage io c = .ok c') : c'.sendRing = c.sendRing := by
  cases receiveStage_cases h with
  | skipped _ => rfl
  | idle _ _ _ _ _ => rfl
  | called _ _ _ _ => exact noteReceived_sendRing _ _

theorem Tidy.receiveStage {calls : List SockCall} (h : c.Tidy clientNo calls)
    (hrcv : c.receiveStage io = .ok c') : c'.Tidy clientNo (calls ++ c.receiveCalls io) := by
  have hring := receiveStage_sendRing hrcv
  have hsock : c'.state.sock = c.state.sock := by
    rcases receiveStage_state hrcv with hs | ⟨hconn, hs | ⟨hs, -⟩⟩
    · rw [hs]
    · rw [hs, RcvState.sock_of_connected hconn]
      rfl
    · rw [hs, RcvState.sock_of_connected hconn]
      rfl
  refine ⟨?_, ?_⟩
  · rw [SockState.after_append h.sock, hsock, receiveCalls]
    split_ifs with hconn hcalls
    · rw [RcvState.sock_of_connected hconn]
      rfl
    · rw [RcvState.sock_of_connected hconn]
      rfl
    · rfl
  · have hsame : sentSince [] (calls ++ c.receiveCalls io) = sentSince [] calls := by
      rw [sentSince_append, receiveCalls]
      split_ifs <;> rfl
    rw [hsame, hring]
    exact h.sent

/-- **The `switch` makes the call that is due.** -/
theorem Tidy.dispatch {calls : List SockCall} (h : c.Tidy clientNo calls)
    (hdisp : Dispatched io clientNo c c') : c'.Tidy clientNo (calls ++ c.switchCalls) := by
  have hsock := h.sock
  obtain ⟨n, hsent⟩ := h.sent
  cases hdisp with
  | socket hstate _ =>
    refine ⟨?_, n, ?_⟩
    · rw [SockState.after_append hsock, switchCalls, hstate]
      rfl
    · rw [sentSince_append, switchCalls, hstate]
      exact hsent
  | close hstate _ =>
    refine ⟨?_, n, ?_⟩
    · rw [SockState.after_append hsock, switchCalls, hstate]
      rfl
    · rw [sentSince_append, switchCalls, hstate]
      exact hsent
  | connect hstate _ =>
    refine ⟨?_, 0, ?_⟩
    · rw [SockState.after_append hsock, switchCalls, hstate]
      rfl
    · rw [sentSince_append, switchCalls, hstate]
      exact RingSet.contents_init _
  | request hstate _ hroom =>
    refine ⟨?_, n + 1, ?_⟩
    · rw [SockState.after_append hsock, switchCalls, hstate]
      rfl
    · have hlen : (request clientNo).length ≤ c.sendRing.bytesFree :=
        (List.length_take_le _ _).trans hroom
      have hnone : c.switchCalls = [] := by rw [switchCalls, hstate]
      rw [hnone, List.append_nil, List.replicate_succ', List.flatten_append, ← hsent,
        List.flatten_singleton, List.append_assoc]
      exact congrArg _ (RingSet.contents_store hlen)
  | wait hstate _ =>
    have hnone : c.switchCalls = [] := by rw [switchCalls, hstate]
    rw [hnone, List.append_nil]
    exact h.same rfl rfl
  | data hstate =>
    have hnone : c.switchCalls = [] := by rw [switchCalls, hstate]
    rw [hnone, List.append_nil]
    exact h.same rfl rfl

theorem contents_sendToHost {send : SendResult} {ring ring' : RingSet} {rv : ℤ}
    (h : sendToHost send ring = .ok (rv, ring')) :
    ring'.contents = ring.contents.drop (min send.rv ring.bytesStored).toNat := by
  have hnone : (min send.rv ring.bytesStored).toNat ≤ ring.bytesStored := by omega
  unfold sendToHost at h
  dsimp only at h
  by_cases hneg : min send.rv ↑ring.bytesStored < 0
  · have hzero : (min send.rv ↑ring.bytesStored).toNat = 0 := by omega
    rw [if_pos hneg] at h
    rw [hzero, List.drop_zero]
    cases herr : send.errno <;> rw [herr] at h <;> cases h <;> rfl
  · rw [if_neg hneg] at h
    by_cases hzero : min send.rv ↑ring.bytesStored = 0
    · rw [if_pos hzero] at h
      cases h
      rw [hzero]
      rfl
    · rw [if_neg hzero] at h
      cases h
      exact RingSet.contents_delete hnone

/-- **`send_to_host` sends the front of the ring.** -/
theorem Tidy.sendStage {calls : List SockCall} (h : c.Tidy clientNo calls)
    (hpc : c.pc = .sending) (hstage : c.sendStage io = .ok c') :
    c'.Tidy clientNo (calls ++ c.sendCalls io) := by
  by_cases hcall : c.CallsSend
  · obtain ⟨n, hsent⟩ := h.sent
    obtain ⟨-, hconn, hempty, hwritable⟩ := hcall
    have hsock := h.sock
    rw [RcvState.sock_of_connected hconn] at hsock
    have hcond : (c.state.connected && !c.sendRing.isEmpty && c.writable) = true := by
      simp [hconn, hempty, hwritable]
    have hcalls : c.sendCalls io =
        [.send (c.sendRing.contents.take (min io.send.rv c.sendRing.bytesStored).toNat)] :=
      if_pos ⟨hpc, hconn, hempty, hwritable⟩
    rw [ClientThread.sendStage, if_pos hcond] at hstage
    obtain ⟨⟨rv, ring⟩, hsend, hstage⟩ := bind_eq_ok.1 hstage
    cases hstage
    rw [hcalls]
    refine ⟨?_, n, ?_⟩
    · rw [SockState.after_append hsock]
      show some _ = some (ite _ _ _ : RcvState).sock
      split_ifs
      · rfl
      · rw [RcvState.sock_of_connected hconn]
    · rw [sentSince_append]
      show sentSince [] calls ++ _ ++ ring.contents = _
      rw [contents_sendToHost hsend, List.append_assoc, List.take_append_drop]
      exact hsent
  · have hcond : ¬ (c.state.connected && !c.sendRing.isEmpty && c.writable) = true := by
      intro hall
      simp only [Bool.and_eq_true, Bool.not_eq_eq_eq_not, Bool.not_true] at hall
      exact hcall ⟨hpc, hall.1.1, hall.1.2, hall.2⟩
    rw [ClientThread.sendStage, if_neg hcond] at hstage
    cases hstage
    rw [sendCalls, if_neg hcall, List.append_nil]
    exact h.same rfl rfl

/-- **A step of the thread makes its calls in the right order.** -/
theorem Tidy.step {comm comm' : ClientComm} {dataRing dataRing' : DataRing} {es : List Event}
    {calls : List SockCall} (h : c.Tidy comm.clientNo calls)
    (hstep : c.step io comm dataRing = .ok (c', comm', dataRing', es)) :
    c'.Tidy comm.clientNo (calls ++ c.calls io) ∧ comm'.clientNo = comm.clientNo := by
  unfold ClientThread.step at hstep
  cases hpc : c.pc <;> simp only [hpc] at hstep <;> simp only [ClientThread.calls, hpc]
  case start =>
    split_ifs at hstep
    cases hstep
    rw [List.append_nil]
    exact ⟨h.same rfl rfl, rfl⟩
  case top =>
    obtain ⟨c₁, hrcv, hstep⟩ := bind_eq_ok.1 hstep
    obtain ⟨c₂, hdisp, hstep⟩ := bind_eq_ok.1 hstep
    cases hstep
    rw [hrcv, ← List.append_assoc]
    exact ⟨(h.receiveStage hrcv).dispatch (dispatch_cases hdisp), rfl⟩
  case sample =>
    cases hstep
    rw [List.append_nil]
    exact ⟨h.same rfl rfl, rfl⟩
  case checking =>
    obtain ⟨⟨c₁, r, events⟩, hcheck, hstep⟩ := bind_eq_ok.1 hstep
    cases hstep
    obtain ⟨⟨again, p, events⟩, -, hcheck⟩ := bind_eq_ok.1 hcheck
    cases hcheck
    rw [List.append_nil]
    exact ⟨h.same rfl rfl, rfl⟩
  case publish =>
    rw [List.append_nil]
    split_ifs at hstep <;> cases hstep <;> exact ⟨h.same rfl rfl, rfl⟩
  case sending =>
    obtain ⟨c₁, hstage, hstep⟩ := bind_eq_ok.1 hstep
    cases hstep
    exact ⟨h.sendStage hpc hstage, rfl⟩

end ClientThread

/-! ### Runs -/

/-- The calls of a step of the program. -/
def callsOf (calls : List SockCall) (s : Core) (l : Label) (_ : List Event) : List SockCall :=
  match l with
  | .client io => calls ++ s.client.calls io
  | _ => calls

/-- **The socket of the client thread is used as it should be.**  In every run of the three threads
the calls on it come in the order `socket`, `connect`, any number of `select`, `recv` and `send`,
`close`, again and again; and what was sent since the last `connect`, with what is still on the send
ring, is the channel request of the client, whole, some number of times. -/
theorem upstream_always (clientNo failtimer : ℤ) (mem : Memory) (ls : List Label) :
    (proxy.record callsOf).Always (fun _ _ _ sg' => sg'.1.exited = none →
        sg'.1.client.Tidy clientNo sg'.2)
      (.init clientNo failtimer mem, []) ls := by
  refine Machine.always_of_inv (fun sg => sg.1.exited = none →
    sg.1.client.Tidy clientNo sg.2 ∧ sg.1.comm.clientNo = clientNo) ?_ ?_ ls
  · intro _
    refine ⟨⟨rfl, 0, ?_⟩, rfl⟩
    show [] ++ (RingSet.alloc BFRSIZE mem.rings).contents = []
    rw [RingSet.contents_alloc]
    rfl
  · rintro ⟨s, calls⟩ l ⟨s', calls'⟩ es h hstep
    obtain ⟨hstep, rfl⟩ := Machine.record_step.1 hstep
    obtain ⟨htidy, hno⟩ := h (Core.exited_of_step hstep)
    have hnext : s'.exited = none → s'.client.Tidy clientNo (callsOf calls s l es) ∧
        s'.comm.clientNo = clientNo := by
      intro hexited'
      cases l with
      | client io =>
        obtain rfl : s.comm.clientNo = clientNo := hno
        exact htidy.step (Core.client_of_step hstep hexited')
      | main mem =>
        cases Core.step_cases hstep with
        | fail _ _ => cases hexited'
        | main hmain => cases hmain <;> exact ⟨htidy, hno⟩
      | server io =>
        cases Core.step_cases hstep with
        | fail _ _ => cases hexited'
        | server _ _ _ => exact ⟨htidy, hno⟩
    exact ⟨hnext, fun hexited' => (hnext hexited').1⟩

end SdrProxy
