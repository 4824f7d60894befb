import SdrProxy.Expiry
import SdrProxy.Failure
import SdrProxy.Reconnection

/-!
# How the program ends

`main` does not return, so the program ends by `fail`, by a signal, or by a bad pointer or index.

* `Core.Fault` : the steps at which it does: failures of system calls and of `malloc`, a signal for
  the `send` upstream, a `send` to a client of more than can be copied, and a packet whose token is
  followed by a null byte;
* `ClientThread.step_fails_iff`, `ServerThread.step_fails_iff` : the faults of the two threads;
* `exits_iff` : in every run the program ends at exactly these steps.  No pointer to a history
  record is bad, and no state of a thread is one that its `switch` does not know.
-/

namespace SdrProxy

/-! ### The client thread -/

namespace ClientThread

variable {io : ClientIO} {c c' : ClientThread} {comm comm' : ClientComm}
variable {dataRing dataRing' : DataRing} {es : List Event}

/-- The `switch` of the loop knows the state. -/
def KnownState (c : ClientThread) : Prop :=
  c.state ≠ .CLI_STATE_INVALID ∧ c.state ≠ .CLI_STATE_GET_ADDR

/-- The steps of the client thread that end the program. -/
inductive Fault (io : ClientIO) (c : ClientThread) : Prop
  /-- The host is not found. -/
  | lookup : c.pc = .start → io.lookup = false → Fault io c
  /-- There is no memory for the rings. -/
  | memory : c.pc = .start → io.malloc = false → Fault io c
  /-- `select` fails. -/
  | select : c.pc = .top → c.state.connected = true → io.select = none → Fault io c
  /-- There is no socket. -/
  | socket : c.pc = .top → c.state = .CLI_STATE_GET_SOCKET → io.socket < 0 → Fault io c
  /-- `connect` fails with an error that `sdr_connect` does not know. -/
  | connect : c.pc = .top → c.state = .CLI_STATE_CONNECT → sdrConnect io.connect < 0 → Fault io c
  /-- The socket of a lost connection cannot be closed. -/
  | close : c.pc = .top →
      (c.state = .CLI_STATE_RECONNECT ∨ c.LosesConnection io ∧ 0 < c.failtimer) → io.close < 0 →
      Fault io c
  /-- A packet whose token is followed by a null byte. -/
  | packet : c.pc = .checking → c.inhibitAdc = false → NullBehindToken c.rcvRing.contents →
      Fault io c
  /-- The signal of a `send` to a broken pipe. -/
  | signal : c.CallsSend → io.send.rv < 0 → io.send.errno = .EPIPE → Fault io c

/-- What the part before the `switch` does to the thread. -/
inductive Received (io : ClientIO) (c : ClientThread) : ClientThread → Prop
  /-- There is no connection. -/
  | skipped : c.state.connected = false → Received io c c
  /-- Nothing to read, or no room to ask for it. -/
  | idle (readable writable : Bool) : c.state.connected = true →
      io.select = some (readable, writable) → (c.sendRing.isFull = false → readable = false) →
      Received io c { c with writable := writable }
  /-- `client_rcv_to_ring`. -/
  | called (writable : Bool) : c.state.connected = true → io.select = some (true, writable) →
      c.sendRing.isFull = false → Received io c
        (noteReceived (clientRcvToRing io.recv c.rcvRing).1
          { c with writable := writable, rcvRing := (clientRcvToRing io.recv c.rcvRing).2 })

/-- **What the part before the `switch` can do.** -/
theorem receiveStage_cases (h : receiveStage io c = .ok c') : Received io c c' := by
  unfold receiveStage at h
  split_ifs at h with hconn
  · cases hsel : io.select with
    | none => simp [hsel] at h
    | some rw =>
      obtain ⟨readable, writable⟩ := rw
      simp only [hsel] at h
      split_ifs at h with hcond
      · cases h
        obtain ⟨hfull, rfl⟩ : c.sendRing.isFull = false ∧ readable = true := by simpa using hcond
        exact .called writable hconn hsel hfull
      · cases h
        exact .idle readable writable hconn hsel (by simpa using hcond)
  · cases h
    exact .skipped (by simpa using hconn)

@[simp] theorem noteReceived_rcvRing (rv : ℤ) (c : ClientThread) :
    (noteReceived rv c).rcvRing = c.rcvRing := by
  unfold noteReceived
  dsimp only
  split_ifs <;> rfl

@[simp] theorem noteReceived_sendRing (rv : ℤ) (c : ClientThread) :
    (noteReceived rv c).sendRing = c.sendRing := by
  unfold noteReceived
  dsimp only
  split_ifs <;> rfl

theorem receiveStage_state (h : receiveStage io c = .ok c') :
    c'.state = c.state ∨
      c.state.connected = true ∧ (c'.state = .CLI_STATE_SEND_CHANNEL_REQUEST ∨
        c'.state = .CLI_STATE_RECONNECT ∧ (c.pc = .top → c.LosesConnection io) ∧
          0 < c.failtimer) := by
  cases receiveStage_cases h with
  | skipped _ => exact .inl rfl
  | idle _ _ _ _ _ => exact .inl rfl
  | called writable hconn hsel hfull =>
    by_cases hneg : (clientRcvToRing io.recv c.rcvRing).1 < 0
    · -- a loss leaves the fail timer as it is
      right
      refine ⟨hconn, ?_⟩
      simp only [noteReceived, hneg, ↓reduceIte]
      split_ifs with htimer
      · exact .inl rfl
      · refine .inr ⟨rfl, fun hpc => ⟨⟨hpc, hconn, by rw [hsel]; rfl, hfull⟩, hneg⟩, ?_⟩
        exact not_le.1 htimer
    · simp only [noteReceived, hneg, ↓reduceIte]
      split_ifs
      · exact .inr ⟨hconn, .inl rfl⟩
      · exact .inl rfl
      · exact .inr ⟨hconn, .inl rfl⟩
      · exact .inl rfl

theorem receiveStage_fails_iff :
    (∃ msg, receiveStage io c = .error msg) ↔ c.state.connected = true ∧ io.select = none := by
  unfold receiveStage
  by_cases hconn : c.state.connected = true
  · cases hsel : io.select with
    | none => simp [hconn]
    | some rw =>
      simp only [hconn, ↓reduceIte]
      refine iff_of_false ?_ (by simp)
      rintro ⟨msg, h⟩
      split_ifs at h
  · simp [hconn]

theorem dispatch_fails_iff {clientNo : ℤ} (hknown : c.KnownState) :
    (∃ msg, dispatch io clientNo c = .error msg) ↔
      c.state = .CLI_STATE_GET_SOCKET ∧ io.socket < 0 ∨
      c.state = .CLI_STATE_RECONNECT ∧ io.close < 0 ∨
      c.state = .CLI_STATE_CONNECT ∧ sdrConnect io.connect < 0 := by
  unfold dispatch
  cases hstate : c.state with
  | CLI_STATE_INVALID => exact absurd hstate hknown.1
  | CLI_STATE_GET_ADDR => exact absurd hstate hknown.2
  | CLI_STATE_GET_SOCKET =>
    by_cases hneg : io.socket < 0 <;> simp [hneg]
  | CLI_STATE_RECONNECT =>
    by_cases hneg : io.close < 0 <;> simp [hneg]
  | CLI_STATE_CONNECT =>
    by_cases hneg : sdrConnect io.connect < 0 <;> simp [hneg]
  | CLI_STATE_SEND_CHANNEL_REQUEST =>
    by_cases hwritable : c.writable = true <;> simp [hwritable]
  | CLI_STATE_GET_DATA => simp

theorem sendStage_fails_iff (hpc : c.pc = .sending) :
    (∃ msg, sendStage io c = .error msg) ↔
      c.CallsSend ∧ io.send.rv < 0 ∧ io.send.errno = .EPIPE := by
  unfold CallsSend sendStage
  by_cases hcalls : c.state.connected = true ∧ c.sendRing.isEmpty = false ∧ c.writable = true
  · obtain ⟨hconn, hempty, hwritable⟩ := hcalls
    have hneg : min io.send.rv (c.sendRing.bytesStored : ℤ) < 0 ↔ io.send.rv < 0 := by omega
    simp only [hpc, hconn, hempty, hwritable, Bool.not_false, Bool.and_self, ↓reduceIte, and_self,
      true_and, bind_fails_iff, sendToHost, hneg]
    by_cases hrv : io.send.rv < 0
    · cases herr : io.send.errno <;> simp [hrv, pure, Except.pure]
    · simp only [hrv, ↓reduceIte, false_and, iff_false]
      split_ifs <;> simp [pure, Except.pure]
  · have hskip : (c.state.connected && !c.sendRing.isEmpty && c.writable) = false := by
      by_contra hno
      simp only [Bool.not_eq_false, Bool.and_eq_true, Bool.not_eq_eq_eq_not, Bool.not_true] at hno
      exact hcalls ⟨hno.1.1, hno.1.2, hno.2⟩
    rw [hskip]
    exact iff_of_false (by simp) fun h => hcalls h.1.2

/-- What the `switch` does to the thread. -/
inductive Dispatched (io : ClientIO) (clientNo : ℤ) (c : ClientThread) : ClientThread → Prop
  /-- A new socket. -/
  | socket : c.state = .CLI_STATE_GET_SOCKET → 0 ≤ io.socket →
      Dispatched io clientNo c { c with state := .CLI_STATE_CONNECT, pc := .sending }
  /-- The old socket is closed. -/
  | close : c.state = .CLI_STATE_RECONNECT → 0 ≤ io.close →
      Dispatched io clientNo c { c with state := .CLI_STATE_GET_SOCKET, pc := .sending }
  /-- Connected, as `sdr_connect` says. -/
  | connect : c.state = .CLI_STATE_CONNECT → 0 ≤ sdrConnect io.connect →
      Dispatched io clientNo c { c with
        rcvRing := c.rcvRing.init
        sendRing := c.sendRing.init
        state := .CLI_STATE_SEND_CHANNEL_REQUEST
        pc := .sending }
  /-- The request is put on the send ring. -/
  | request : c.state = .CLI_STATE_SEND_CHANNEL_REQUEST → c.writable = true →
      CHANREQUESTLEN ≤ c.sendRing.bytesFree → Dispatched io clientNo c { c with
        sendRing := (c.sendRing.store ((sendStr clientNo).take CHANREQUESTLEN)).2
        state := .CLI_STATE_GET_DATA
        pc := .sending }
  /-- The request has to wait. -/
  | wait : c.state = .CLI_STATE_SEND_CHANNEL_REQUEST →
      (c.writable = true → c.sendRing.bytesFree < CHANREQUESTLEN) →
      Dispatched io clientNo c { c with pc := .sending }
  /-- A pass. -/
  | data : c.state = .CLI_STATE_GET_DATA → Dispatched io clientNo c { c with pc := .sample }

/-- **What the `switch` can do.** -/
theorem dispatch_cases {clientNo : ℤ} (h : dispatch io clientNo c = .ok c') :
    Dispatched io clientNo c c' := by
  unfold dispatch at h
  cases hstate : c.state <;> simp only [hstate] at h
  case CLI_STATE_INVALID => cases h
  case CLI_STATE_GET_ADDR => cases h
  case CLI_STATE_GET_SOCKET =>
    split_ifs at h with hneg
    cases h
    exact .socket hstate (not_lt.1 hneg)
  case CLI_STATE_RECONNECT =>
    split_ifs at h with hneg
    cases h
    exact .close hstate (not_lt.1 hneg)
  case CLI_STATE_CONNECT =>
    split_ifs at h with hneg
    cases h
    exact .connect hstate (not_lt.1 hneg)
  case CLI_STATE_SEND_CHANNEL_REQUEST =>
    by_cases hwritable : c.writable = true
    · by_cases hroom : CHANREQUESTLEN ≤ c.sendRing.bytesFree
      · simp only [hwritable, sendChannelRequest, hroom, ↓reduceIte] at h
        cases h
        rw [← hwritable]
        exact .request hstate hwritable hroom
      · simp only [hwritable, sendChannelRequest, hroom, ↓reduceIte] at h
        cases h
        rw [← hwritable, ← hstate]
        exact .wait hstate fun _ => not_le.1 hroom
    · rw [if_neg hwritable] at h
      cases h
      rw [← hstate]
      exact .wait hstate fun hw => absurd hw hwritable
  case CLI_STATE_GET_DATA =>
    cases h
    rw [← hstate]
    exact .data hstate

theorem receiveStage_of_not_connected (h : c.state.connected = false) :
    receiveStage io c = .ok c := by
  simp [receiveStage, h]

/-- The state that the `switch` sees is one that it knows, if the loop began with one. -/
theorem KnownState.receiveStage (h : c.KnownState) (hrcv : c.receiveStage io = .ok c') :
    c'.KnownState := by
  rcases receiveStage_state hrcv with hs | ⟨-, hs | ⟨hs, -⟩⟩
  · exact ⟨by rw [hs]; exact h.1, by rw [hs]; exact h.2⟩
  · exact ⟨by simp [hs], by simp [hs]⟩
  · exact ⟨by simp [hs], by simp [hs]⟩

theorem step_top_fails_iff (hpc : c.pc = .top) :
    (∃ msg, c.step io comm dataRing = .error msg) ↔
      (∃ msg, c.receiveStage io = .error msg) ∨
        ∃ c₁, c.receiveStage io = .ok c₁ ∧ ∃ msg, c₁.dispatch io comm.clientNo = .error msg := by
  simp only [step, hpc, bind_fails_iff]
  simp [pure, Except.pure]

theorem step_checking_fails_iff (hpc : c.pc = .checking) :
    (∃ msg, c.step io comm dataRing = .error msg) ↔
      turn c.inhibitAdc c.rcvRing.contents = none := by
  have hiter := checkDataIter_turn c.inhibitAdc io.junk (c.path dataRing)
  simp only [step, hpc, check]
  cases ht : turn c.inhibitAdc c.rcvRing.contents with
  | none =>
    simp only [path, ht, IterResult] at hiter
    simp [path, hiter, bind, Except.bind]
  | some t =>
    simp only [path, ht] at hiter
    obtain ⟨p', events, heq, -⟩ := hiter
    simp [path, heq, bind, Except.bind, pure, Except.pure]

theorem step_sending_fails_iff (hpc : c.pc = .sending) :
    (∃ msg, c.step io comm dataRing = .error msg) ↔
      c.CallsSend ∧ io.send.rv < 0 ∧ io.send.errno = .EPIPE := by
  rw [← sendStage_fails_iff hpc]
  simp only [step, hpc, bind_fails_iff]
  simp [pure, Except.pure]

/-- The faults at the top of the loop: of the receive, or of the `switch` after it. -/
theorem fault_top_iff (hknown : c.KnownState) (hpc : c.pc = .top) (clientNo : ℤ) :
    ((∃ msg, c.receiveStage io = .error msg) ∨
      ∃ c₁, c.receiveStage io = .ok c₁ ∧ ∃ msg, c₁.dispatch io clientNo = .error msg) ↔
      c.Fault io := by
  rw [receiveStage_fails_iff]
  constructor
  · rintro (⟨hconn, hsel⟩ | ⟨c₁, hrcv, hdisp⟩)
    · exact .select hpc hconn hsel
    · rw [dispatch_fails_iff (hknown.receiveStage hrcv)] at hdisp
      rcases receiveStage_state hrcv with hs | ⟨-, hs | ⟨hs, hlost, htimer⟩⟩
      · rw [hs] at hdisp
        rcases hdisp with ⟨hst, hneg⟩ | ⟨hst, hneg⟩ | ⟨hst, hneg⟩
        · exact .socket hpc hst hneg
        · exact .close hpc (.inl hst) hneg
        · exact .connect hpc hst hneg
      · simp [hs] at hdisp
      · have hclose : io.close < 0 := by simpa [hs] using hdisp
        exact .close hpc (.inr ⟨hlost hpc, htimer⟩) hclose
  · -- a state without a connection is the one that the `switch` sees
    have hsame : c.state.connected = false → ∀ {P : Prop},
        (∃ msg, dispatch io clientNo c = .error msg) → P ∨
          ∃ c₁, receiveStage io c = .ok c₁ ∧ ∃ msg, dispatch io clientNo c₁ = .error msg :=
      fun hconn _ h => .inr ⟨c, receiveStage_of_not_connected hconn, h⟩
    intro h
    cases h with
    | lookup hpc' _ => simp [hpc] at hpc'
    | memory hpc' _ => simp [hpc] at hpc'
    | packet hpc' _ _ => simp [hpc] at hpc'
    | signal hcalls _ _ => exact absurd (hpc.symm.trans hcalls.1) (by decide)
    | select _ hconn hsel => exact .inl ⟨hconn, hsel⟩
    | socket _ hst hneg =>
      exact hsame (by rw [hst]; rfl) ((dispatch_fails_iff hknown).2 (.inl ⟨hst, hneg⟩))
    | connect _ hst hneg =>
      exact hsame (by rw [hst]; rfl) ((dispatch_fails_iff hknown).2 (.inr (.inr ⟨hst, hneg⟩)))
    | close _ hor hneg =>
      rcases hor with hst | ⟨hlost, htimer⟩
      · exact hsame (by rw [hst]; rfl) ((dispatch_fails_iff hknown).2 (.inr (.inl ⟨hst, hneg⟩)))
      · obtain ⟨c₁, hrcv, hst⟩ := receiveStage_of_lost hlost
        rw [if_neg (not_le.2 htimer)] at hst
        have hknown₁ := hknown.receiveStage hrcv
        exact .inr ⟨c₁, hrcv, (dispatch_fails_iff hknown₁).2 (.inr (.inl ⟨hst, hneg⟩))⟩

/-- A fault is where the thread is. -/
theorem Fault.pc_eq (h : c.Fault io) : c.pc = .start ∧ (io.lookup = false ∨ io.malloc = false) ∨
    c.pc = .top ∨
    c.pc = .checking ∧ c.inhibitAdc = false ∧ NullBehindToken c.rcvRing.contents ∨
    c.pc = .sending ∧ c.CallsSend ∧ io.send.rv < 0 ∧ io.send.errno = .EPIPE := by
  cases h with
  | lookup hpc hno => exact .inl ⟨hpc, .inl hno⟩
  | memory hpc hno => exact .inl ⟨hpc, .inr hno⟩
  | select hpc _ _ | socket hpc _ _ | connect hpc _ _ | close hpc _ _ => exact .inr (.inl hpc)
  | packet hpc hinh hnull => exact .inr (.inr (.inl ⟨hpc, hinh, hnull⟩))
  | signal hcalls hneg herr => exact .inr (.inr (.inr ⟨hcalls.1, hcalls, hneg, herr⟩))

/-- **The faults are the steps of the client thread that end the program.** -/
theorem step_fails_iff (hknown : c.KnownState) :
    (∃ msg, c.step io comm dataRing = .error msg) ↔ c.Fault io := by
  cases hpc : c.pc with
  | start =>
    have hstep : (∃ msg, c.step io comm dataRing = .error msg) ↔
        io.lookup = false ∨ io.malloc = false := by
      simp only [step, hpc]
      cases io.lookup <;> cases io.malloc <;> simp
    rw [hstep]
    refine ⟨fun h => h.elim (.lookup hpc) (.memory hpc), fun h => ?_⟩
    have hat := h.pc_eq
    simpa [hpc] using hat
  | top => rw [step_top_fails_iff hpc, fault_top_iff hknown hpc]
  | sample =>
    refine iff_of_false (by simp [step, hpc]) fun h => ?_
    have hat := h.pc_eq
    simp [hpc] at hat
  | checking =>
    rw [step_checking_fails_iff hpc, turn_eq_fail_iff]
    refine ⟨fun h => .packet hpc h.1 h.2, fun h => ?_⟩
    have hat := h.pc_eq
    simpa [hpc] using hat
  | publish =>
    refine iff_of_false ?_ fun h => ?_
    · rintro ⟨msg, h⟩
      simp only [step, hpc] at h
      split_ifs at h
    · have hat := h.pc_eq
      simp [hpc] at hat
  | sending =>
    rw [step_sending_fails_iff hpc]
    refine ⟨fun h => .signal h.1 h.2.1 h.2.2, fun h => ?_⟩
    have hat := h.pc_eq
    simpa [hpc] using hat

theorem KnownState.step (h : c.KnownState)
    (hstep : c.step io comm dataRing = .ok (c', comm', dataRing', es)) : c'.KnownState := by
  unfold ClientThread.step at hstep
  cases hpc : c.pc <;> simp only [hpc] at hstep
  case start =>
    split_ifs at hstep
    cases hstep
    exact h
  case top =>
    obtain ⟨c₁, hrcv, hstep⟩ := bind_eq_ok.1 hstep
    obtain ⟨c₂, hdisp, hstep⟩ := bind_eq_ok.1 hstep
    cases hstep
    have h₁ := h.receiveStage hrcv
    cases dispatch_cases hdisp with
    | wait _ _ => exact ⟨h₁.1, h₁.2⟩
    | data _ => exact ⟨h₁.1, h₁.2⟩
    | _ => exact ⟨by simp, by simp⟩
  case sample =>
    cases hstep
    exact h
  case checking =>
    obtain ⟨⟨c₁, r, events⟩, hcheck, hstep⟩ := bind_eq_ok.1 hstep
    cases hstep
    obtain ⟨⟨again, p, events⟩, -, hcheck⟩ := bind_eq_ok.1 hcheck
    cases hcheck
    exact h
  case publish =>
    split_ifs at hstep <;> cases hstep <;> exact h
  case sending =>
    obtain ⟨c₁, hsend, hstep⟩ := bind_eq_ok.1 hstep
    cases hstep
    rcases sendStage_cases hsend with rfl | ⟨rv, ring, rfl⟩
    · exact h
    · unfold KnownState
      dsimp only
      split_ifs
      · exact ⟨by simp, by simp⟩
      · exact h

end ClientThread

/-! ### The server thread -/

namespace ServerThread

variable {io : ServerIO} {closeCmd : Bool} {chanInfoG : ChannelInfo} {dataRing : DataRing}
variable {t : ServerThread} {g : Clients} {l : List ℕ}

/-- The steps of the server thread that end the program. -/
inductive Fault (io : ServerIO) (closeCmd : Bool) (dataRing : DataRing) (t : ServerThread) : Prop
  /-- There is no memory for the connection data. -/
  | memory : t.pc = .setup → io.malloc = false → Fault io closeCmd dataRing t
  /-- A listening socket cannot be set up. -/
  | setup : t.pc = .setup → io.setup = false → Fault io closeCmd dataRing t
  /-- A listening socket cannot be closed. -/
  | close : t.pc = .flags → closeCmd = true → io.close = false → Fault io closeCmd dataRing t
  /-- `select` fails. -/
  | select : t.pc = .flags → closeCmd = false → io.select = false → Fault io closeCmd dataRing t
  /-- A `send` to a client fails with an error that `send_to_client` does not know. -/
  | send (conn : ℕ) : t.pc = .service conn →
      AttemptsSend io dataRing ⟨t.connData conn, t.hist⟩ → SendFails io.send →
      io.send.errno ≠ .EPIPE → Fault io closeCmd dataRing t
  /-- A `send` to a client of more bytes than `sendbfr` takes. -/
  | copy (conn : ℕ) : t.pc = .service conn →
      AttemptsSend io dataRing ⟨t.connData conn, t.hist⟩ →
      MAXPACKETSIZE < bytesDue io dataRing ⟨t.connData conn, t.hist⟩ →
      Fault io closeCmd dataRing t
  /-- There is no memory for the connection of a client that was accepted. -/
  | accept (listenerNo : ℕ) : t.pc = .listen listenerNo → io.readable = true →
      t.opens io = true → io.malloc = false → Fault io closeCmd dataRing t

/-- The service of a connection fails if a `send` does, or the copy before it. -/
theorem serviceConnection_fails_iff {conn : ℕ} {c : Conn}
    (hlinked : c.data.state ≠ .SRVR_STATE_INACTIVE →
      ∃ record, c.hist.deref c.data.history = .ok record) :
    (∃ msg, serviceConnection io chanInfoG dataRing conn c = .error msg) ↔
      AttemptsSend io dataRing c ∧ (SendFails io.send ∧ io.send.errno ≠ .EPIPE ∨
        MAXPACKETSIZE < bytesDue io dataRing c) := by
  by_cases hactive : c.data.state = .SRVR_STATE_INACTIVE
  · rw [serviceConnection_inactive hactive]
    refine iff_of_false ?_ ?_
    · simp
    · rintro ⟨⟨hne, -⟩, -⟩
      exact hne hactive
  obtain ⟨c₁, es, -, hmove, hserv⟩ :=
    serviceConnection_spec io chanInfoG dataRing conn hactive (hlinked hactive)
  rw [hserv, ← callsSendToClient_iff hactive hmove]
  by_cases hcall : CallsSendToClient io c₁.data
  · rw [serviceOutgoing_of_call hcall, ← hcall.bytesStored_eq hmove]
    rcases Nat.lt_or_ge MAXPACKETSIZE c₁.data.sendRing.bytesStored with hover | hcopy
    · rw [sendToClient_of_overrun hover]
      exact iff_of_true ⟨_, rfl⟩ ⟨hcall, .inr hover⟩
    have hiff : CallsSendToClient io c₁.data ∧ (SendFails io.send ∧ io.send.errno ≠ .EPIPE ∨
        MAXPACKETSIZE < c₁.data.sendRing.bytesStored) ↔
          SendFails io.send ∧ io.send.errno ≠ .EPIPE := by
      simp only [hcall, true_and, or_iff_left (Nat.not_lt.2 hcopy)]
    rw [hiff]
    by_cases hfails : SendFails io.send
    · by_cases herr : io.send.errno = .EPIPE
      · rw [sendToClient_of_epipe hcopy hfails herr]
        refine iff_of_false ?_ fun h => h.2 herr
        simp [Except.map]
      · rw [sendToClient_of_fails hcopy hfails herr]
        exact iff_of_true ⟨_, rfl⟩ ⟨hfails, herr⟩
    · obtain ⟨rv, heq, -⟩ := sendToClient_of_not_fails hcall hcopy hfails
      rw [heq]
      refine iff_of_false ?_ fun h => hfails h.1
      simp [Except.map]
  · rw [serviceOutgoing_of_not_call hcall]
    refine iff_of_false ?_ fun h => hcall h.1
    simp [Except.map]

/-- `get_new_connection` does not fail: the records are in order. -/
theorem getNewConnection_ok (h : Recorded t g l) (io : ServerIO) (chanInfoG : ChannelInfo)
    (listenerNo : ℕ) :
    ∃ r, t.getNewConnection io chanInfoG listenerNo = .ok r := by
  cases hacc : io.accept with
  | none => exact ⟨_, getNewConnection_of_none (.inl hacc)⟩
  | some remoteIp =>
    cases hfree : findInactive t.connData MAXCLIENTCONNECTIONS 0 with
    | none => exact ⟨_, getNewConnection_of_none (.inr hfree)⟩
    | some newConn =>
      obtain ⟨t', -, hopen, -⟩ :=
        h.accounts.openConnection io chanInfoG remoteIp listenerNo newConn rfl
      rw [getNewConnection_of_some hacc hfree, hopen]
      exact ⟨_, rfl⟩

theorem listen_fails_iff (h : Recorded t g l) {listenerNo : ℕ} :
    (∃ msg, t.listen io chanInfoG listenerNo = .error msg) ↔
      io.readable = true ∧ t.opens io = true ∧ io.malloc = false := by
  obtain ⟨r, hnew⟩ := getNewConnection_ok h io chanInfoG listenerNo
  unfold listen
  rw [hnew]
  cases io.readable <;> cases t.opens io <;> cases io.malloc <;> simp

/-- A service of a connection ends the program where `send_to_client` does. -/
theorem step_service_fails_iff (h : Recorded t g l) {conn : ℕ} (hpc : t.pc = .service conn) :
    (∃ msg, t.step io closeCmd chanInfoG dataRing = .error msg) ↔
      AttemptsSend io dataRing ⟨t.connData conn, t.hist⟩ ∧
        (SendFails io.send ∧ io.send.errno ≠ .EPIPE ∨
          MAXPACKETSIZE < bytesDue io dataRing ⟨t.connData conn, t.hist⟩) := by
  have hlinked : (t.connData conn).state ≠ .SRVR_STATE_INACTIVE →
      ∃ record, t.hist.deref (t.connData conn).history = .ok record := by
    intro hactive
    obtain ⟨a, p, -, hp, hlink⟩ := h.accounts.linked conn hactive
    obtain ⟨e, he, -⟩ := HistHeap.address_of_find hp
    obtain ⟨r, hr, -⟩ := HistHeap.entry_eq_some.1 he
    exact ⟨r, HistHeap.deref_eq_ok.2 ⟨p, hlink, hr⟩⟩
  have hiff : (∃ msg, serviceConnection io chanInfoG dataRing conn ⟨t.connData conn, t.hist⟩ =
      .error msg) ↔ _ := serviceConnection_fails_iff hlinked
  rw [← hiff, step_service hpc]
  cases serviceConnection io chanInfoG dataRing conn ⟨t.connData conn, t.hist⟩ <;>
    simp [Except.map]

theorem step_listen_fails_iff (h : Recorded t g l) {listenerNo : ℕ}
    (hpc : t.pc = .listen listenerNo) :
    (∃ msg, t.step io closeCmd chanInfoG dataRing = .error msg) ↔
      io.readable = true ∧ t.opens io = true ∧ io.malloc = false := by
  have hiff : (∃ msg, t.listen io chanInfoG listenerNo = .error msg) ↔ _ := listen_fails_iff h
  rw [← hiff]
  simp only [step, hpc, bind_fails_iff]
  simp [pure, Except.pure]

/-- **The faults are the steps of the server thread that end the program.** -/
theorem step_fails_iff (h : Recorded t g l) :
    (∃ msg, t.step io closeCmd chanInfoG dataRing = .error msg) ↔
      t.Fault io closeCmd dataRing := by
  cases hpc : t.pc with
  | setup =>
    have hstep : (∃ msg, t.step io closeCmd chanInfoG dataRing = .error msg) ↔
        io.malloc = false ∨ io.setup = false := by
      simp only [step, hpc]
      cases io.malloc <;> cases io.setup <;> simp
    rw [hstep]
    refine ⟨fun hf => hf.elim (.memory hpc) (.setup hpc), fun hf => ?_⟩
    cases hf with
    | memory _ hno => exact .inl hno
    | setup _ hno => exact .inr hno
    | _ => simp_all
  | flags =>
    cases closeCmd with
    | true =>
      have hstep : (∃ msg, t.step io true chanInfoG dataRing = .error msg) ↔
          io.close = false := by
        simp only [step, hpc]
        cases io.close <;> simp
      rw [hstep]
      refine ⟨.close hpc rfl, fun hf => ?_⟩
      cases hf <;> simp_all
    | false =>
      have hstep : (∃ msg, t.step io false chanInfoG dataRing = .error msg) ↔
          io.select = false := by
        simp only [step, hpc]
        cases io.select <;> simp
      rw [hstep]
      refine ⟨.select hpc rfl, fun hf => ?_⟩
      cases hf <;> simp_all
  | service conn =>
    rw [step_service_fails_iff h hpc]
    constructor
    · rintro ⟨hattempts, ⟨hfails, herr⟩ | hover⟩
      · exact .send conn hpc hattempts hfails herr
      · exact .copy conn hpc hattempts hover
    · intro hf
      cases hf with
      | send conn' hpc' hattempts hfails herr =>
        obtain rfl : conn = conn' := ServerPc.service.inj (hpc.symm.trans hpc')
        exact ⟨hattempts, .inl ⟨hfails, herr⟩⟩
      | copy conn' hpc' hattempts hover =>
        obtain rfl : conn = conn' := ServerPc.service.inj (hpc.symm.trans hpc')
        exact ⟨hattempts, .inr hover⟩
      | memory hpc' _ | setup hpc' _ | close hpc' _ _ | select hpc' _ _ | accept _ hpc' _ _ _ =>
        simp [hpc] at hpc'
  | listen listenerNo =>
    rw [step_listen_fails_iff h hpc]
    refine ⟨fun hf => .accept listenerNo hpc hf.1 hf.2.1 hf.2.2, fun hf => ?_⟩
    cases hf with
    | accept _ _ hread hopens hno => exact ⟨hread, hopens, hno⟩
    | _ => simp_all
  | expire =>
    refine iff_of_false ?_ ?_
    · obtain ⟨time, hexp⟩ := expireOld_of_empty h.empty io.now
      simp [step, hpc, hexp, bind, Except.bind, pure, Except.pure]
    · intro hf
      cases hf <;> simp_all
  | closing =>
    refine iff_of_false ?_ ?_
    · simp [step, hpc]
    · intro hf
      cases hf <;> simp_all
  | ended =>
    refine iff_of_false ?_ ?_
    · simp [step, hpc]
    · intro hf
      cases hf <;> simp_all

end ServerThread

/-! ### The program -/

theorem Core.client_of_step {s s' : Core} {io : ClientIO} {es : List Event}
    (h : proxy.step s (.client io) = some (s', es)) (hexited' : s'.exited = none) :
    s.client.step io s.comm s.dataRing = .ok (s'.client, s'.comm, s'.dataRing, es) := by
  have hexited := exited_of_step h
  change s.step (.client io) = _ at h
  simp only [step, hexited, Option.isSome_none, Bool.false_eq_true, ↓reduceIte, clientStep] at h
  cases hres : s.client.step io s.comm s.dataRing with
  | error msg =>
    rw [hres] at h
    cases h
    cases hexited'
  | ok r =>
    rw [hres] at h
    cases h
    rfl

namespace Core

variable {s s' : Core} {label : Label} {es : List Event}

/-- The steps that end the program. -/
inductive Fault (s : Core) : Label → Prop
  /-- `select` fails in the delay of the main loop. -/
  | delay {io : MainIO} : s.mainPc = .poll → io.select = false → Fault s (.main io)
  /-- There is no memory for the data ring. -/
  | memory {io : MainIO} : s.mainPc = .alloc → io.slots = false ∨ io.packets = false →
      Fault s (.main io)
  /-- In the client thread. -/
  | client {io : ClientIO} : s.client.Fault io → Fault s (.client io)
  /-- In the server thread. -/
  | server {io : ServerIO} {t : ServerThread} : s.server = some t →
      t.Fault io s.serverClose s.dataRing → Fault s (.server io)

/-- The client thread is in a state that its `switch` knows, and the records of the server thread
are in order. -/
structure Sound (s : Core) : Prop where
  client : s.client.KnownState
  server : ∀ t ∈ s.server, ∃ g l, Recorded t g l

/-- A step of the main thread ends the program if `select` or `malloc` fails. -/
theorem mainStep_exits {io : MainIO} (h : s.mainStep io = some (s', es))
    (hexited : s.exited = none) : s'.exited ≠ none ↔ (s.mainPc = .poll ∧ io.select = false) ∨
      (s.mainPc = .alloc ∧ (io.slots = false ∨ io.packets = false)) := by
  unfold mainStep at h
  cases hpc : s.mainPc <;> simp only [hpc] at h
  case poll =>
    cases hselect : io.select <;> simp only [hselect] at h <;> cases h <;> simp [hexited]
  case alloc =>
    cases hslots : io.slots <;> cases hpackets : io.packets <;>
      simp only [hslots, hpackets] at h <;> cases h <;> simp [hexited]
  case join =>
    split_ifs at h
    cases h
    simp [hexited]
  all_goals
    cases h
    simp [hexited]

/-- **A step keeps the threads in order, and ends the program exactly if it is a fault.** -/
theorem Sound.step (h : s.Sound) (hstep : proxy.step s label = some (s', es)) :
    s'.Sound ∧ (s'.exited ≠ none ↔ s.Fault label) := by
  have hexited := exited_of_step hstep
  change s.step label = _ at hstep
  simp only [Core.step, hexited, Option.isSome_none, Bool.false_eq_true, ↓reduceIte] at hstep
  cases label with
  | main io =>
    have hfault : s.Fault (.main io) ↔ (s.mainPc = .poll ∧ io.select = false) ∨
        (s.mainPc = .alloc ∧ (io.slots = false ∨ io.packets = false)) := by
      refine ⟨fun hf => ?_, fun hf => hf.elim (fun h => .delay h.1 h.2) fun h => .memory h.1 h.2⟩
      cases hf with
      | delay hpc hno => exact .inl ⟨hpc, hno⟩
      | memory hpc hno => exact .inr ⟨hpc, hno⟩
    rw [hfault, ← mainStep_exits hstep hexited]
    rcases mainStep_cases hstep with hmain | ⟨msg, -, rfl, -⟩
    · cases hmain with
      | spawn mem _ =>
        refine ⟨⟨h.client, ?_⟩, Iff.rfl⟩
        rintro t ⟨⟩
        exact ⟨_, _, recorded_init mem.rings⟩
      | _ => exact ⟨⟨h.client, h.server⟩, Iff.rfl⟩
    · exact ⟨⟨h.client, h.server⟩, Iff.rfl⟩
  | client io =>
    have hiff : (∃ msg, s.client.step io s.comm s.dataRing = .error msg) ↔ s.client.Fault io :=
      ClientThread.step_fails_iff h.client
    have hfault : s.Fault (.client io) ↔ s.client.Fault io :=
      ⟨fun hf => by cases hf; assumption, .client⟩
    rw [hfault, ← hiff]
    simp only [clientStep] at hstep
    cases hres : s.client.step io s.comm s.dataRing with
    | error msg =>
      rw [hres] at hstep
      cases hstep
      exact ⟨⟨h.client, h.server⟩, by simp⟩
    | ok r =>
      rw [hres] at hstep
      cases hstep
      exact ⟨⟨h.client.step hres, h.server⟩, by simpa using hexited⟩
  | server io =>
    simp only [serverStep] at hstep
    cases ht : s.server with
    | none => simp [ht] at hstep
    | some t =>
      obtain ⟨g, l, hrec⟩ := h.server t ht
      have hiff : (∃ msg, t.step io s.serverClose s.chanInfoG s.dataRing = .error msg) ↔
          t.Fault io s.serverClose s.dataRing := ServerThread.step_fails_iff hrec
      have hfault : s.Fault (.server io) ↔ t.Fault io s.serverClose s.dataRing := by
        refine ⟨fun hf => ?_, .server ht⟩
        cases hf with
        | server ht' hf =>
          rw [ht] at ht'
          cases ht'
          exact hf
      rw [hfault, ← hiff]
      simp only [ht] at hstep
      split_ifs at hstep
      cases hres : t.step io s.serverClose s.chanInfoG s.dataRing with
      | error msg =>
        rw [hres] at hstep
        cases hstep
        refine ⟨⟨h.client, ?_⟩, by simp⟩
        rintro t' ht'
        exact h.server t' (ht ▸ ht')
      | ok r =>
        rw [hres] at hstep
        cases hstep
        refine ⟨⟨h.client, ?_⟩, by simpa using hexited⟩
        rintro t' ⟨⟩
        have hthread : threadMachine.step t ⟨io, s.serverClose, s.chanInfoG, s.dataRing⟩ =
            some (r.1, r.2.2) := by
          simp only [threadMachine, hres]
        obtain ⟨l', hrec'⟩ := hrec.step hthread
        exact ⟨_, l', hrec'⟩

end Core

end SdrProxy
