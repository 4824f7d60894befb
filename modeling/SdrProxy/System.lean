import SdrProxy.ClientThread
import SdrProxy.Scan
import SdrProxy.Server
import SdrProxy.Lib.Machine

/-!
# The three threads

The main loop of `main.c` and the three threads together, as a machine whose steps are the pieces
of the threads between two cuts, in any order (`proxy`).

* `Core` holds the globals, the two communication structures and the threads.
* `Core.mainStep` is one step of the main thread.  The main loop holds `mutex_clientcomm` while it
  copies the configuration, so each copy is one step, the second one together with the clearing of
  `CHANCHANGE`.
* `ClientMove` says once what a step of the client thread can do (`ClientThread.step_cases`).
* `Core.run_checkData` : without steps of other threads in between, the steps of a pass are
  `check_data`.
-/

namespace SdrProxy

/-- Where the main thread is. -/
inductive MainPc where
  /-- In the delay of the loop, about to read `CHANCHANGE`. -/
  | poll
  /-- About to copy the configuration for the first time. -/
  | copy
  /-- About to set `SRV_CLOSECMD`. -/
  | closeCmd
  /-- Waiting for the server thread to end. -/
  | join
  /-- About to free the slots. -/
  | dealloc
  /-- About to allocate the slots. -/
  | alloc
  /-- About to copy the configuration again and to clear `CHANCHANGE`. -/
  | finish
  /-- About to clear the server flags. -/
  | clearSrv
  /-- About to start a server thread. -/
  | spawn
  deriving DecidableEq, Repr

/-- The main thread is between seeing `CHANCHANGE` set and clearing it. -/
def MainPc.handling : MainPc → Bool
  | copy | closeCmd | join | dealloc | alloc | finish => true
  | _ => false

/-- The state of the program. -/
structure Core where
  /-- `client_comm`. -/
  comm : ClientComm
  /-- `chan_info_g`. -/
  chanInfoG : ChannelInfo
  /-- The data ring. -/
  dataRing : DataRing
  /-- `server_comm.flags & SRV_CLOSECMD`. -/
  serverClose : Bool
  /-- Where the main thread is. -/
  mainPc : MainPc
  /-- `server_running`. -/
  serverRunning : Bool
  /-- The client thread. -/
  client : ClientThread
  /-- The server thread last started. -/
  server : Option ServerThread
  /-- The program has ended, with this text. -/
  exited : Option String

/-- What newly allocated memory holds. -/
structure Memory where
  /-- The slots of the data ring. -/
  slots : ℕ → Datastore
  /-- The rings of connections. -/
  rings : Bfr

/-- The outcomes of the calls that a step of the main thread makes. -/
structure MainIO where
  /-- `select` of `select_delay` succeeded. -/
  select : Bool
  /-- `malloc` has memory for the slots. -/
  slots : Bool
  /-- `malloc` has memory for the packets of the slots. -/
  packets : Bool
  /-- What newly allocated memory holds. -/
  mem : Memory

/-- Which thread takes a step, with the outcomes of its calls. -/
inductive Label where
  | main (io : MainIO)
  | client (io : ClientIO)
  | server (io : ServerIO)

/-- The step is one of the client thread. -/
def Label.ofClient : Label → Bool
  | client _ => true
  | _ => false

/-- The step is one of the main thread. -/
def Label.ofMain : Label → Bool
  | main _ => true
  | _ => false

namespace Core

/-- The program when the client thread has been created: `main` has allocated the data ring for the
configuration of zeros that `chan_info_g` starts with, and has read `CHANCHANGE` a first time. -/
def init (clientNo failtimer : ℤ) (mem : Memory) : Core where
  comm := ⟨false, clientNo, .zero⟩
  chanInfoG := .zero
  dataRing := .alloc (sdrPktSize .zero) mem.slots
  serverClose := false
  mainPc := .poll
  serverRunning := false
  client := .init failtimer mem.rings
  server := none
  exited := none

/-- The server thread has returned. -/
def serverEnded (s : Core) : Bool :=
  match s.server with
  | none => true
  | some t => t.pc = .ended

/-- One step of the main loop; waiting for the server thread is not a step.  The three stores of the
first copy of `chan_info_g` count as one. -/
def mainStep (io : MainIO) (s : Core) : Option (Core × List Event) :=
  match s.mainPc with
  | .poll =>
    -- `select_delay` at the end of the turn before has no text
    if io.select then
      some ({ s with mainPc := if s.comm.chanChange then .copy else .poll }, [])
    else some ({ s with exited := some "" }, [])
  | .copy =>
    some ({ s with
      chanInfoG := s.comm.chanInfo
      mainPc := if s.serverRunning then .closeCmd else .dealloc }, [])
  | .closeCmd => some ({ s with serverClose := true, mainPc := .join }, [.closeCmd])
  | .join =>
    if s.serverEnded then some ({ s with serverRunning := false, mainPc := .dealloc }, [])
    else none
  | .dealloc => some ({ s with dataRing := s.dataRing.dealloc, mainPc := .alloc }, [.dealloc])
  | .alloc =>
    if !io.slots then
      some ({ s with
        exited := some "data_ring_ops: Failed to allocate memory for data_store_g array" }, [])
    else if !io.packets then
      some ({ s with
        exited := some "data_ring_ops: Failed to allocate memory for data_store_g sdr_packet" }, [])
    else
      some ({ s with
        dataRing := .alloc (sdrPktSize s.chanInfoG) io.mem.slots
        mainPc := .finish }, [.alloc s.chanInfoG])
  | .finish =>
    some ({ s with
      chanInfoG := s.comm.chanInfo
      comm := { s.comm with chanChange := false }
      mainPc := .clearSrv }, [.cleared s.comm.chanInfo])
  | .clearSrv => some ({ s with serverClose := false, mainPc := .spawn }, [])
  | .spawn =>
    some ({ s with
      server := some (.init io.mem.rings)
      serverRunning := true
      mainPc := .poll }, [.started])

/-- One step of the client thread. -/
def clientStep (io : ClientIO) (s : Core) : Core × List Event :=
  match s.client.step io s.comm s.dataRing with
  | .error msg => ({ s with exited := some msg }, [])
  | .ok (client, comm, dataRing, events) =>
    ({ s with client := client, comm := comm, dataRing := dataRing }, events)

/-- One step of the server thread, if it is running. -/
def serverStep (io : ServerIO) (s : Core) : Option (Core × List Event) :=
  match s.server with
  | none => none
  | some t =>
    if t.pc = .ended then none
    else
      match t.step io s.serverClose s.chanInfoG s.dataRing with
      | .error msg => some ({ s with exited := some msg }, [])
      | .ok (t, closeCmd, events) =>
        some ({ s with server := some t, serverClose := closeCmd }, events)

/-- One step of the program. -/
def step (s : Core) (l : Label) : Option (Core × List Event) :=
  if s.exited.isSome then none
  else
    match l with
    | .main io => s.mainStep io
    | .client io => some (s.clientStep io)
    | .server io => s.serverStep io

end Core

/-- The program as a machine. -/
def proxy : Machine Core Label Event := ⟨Core.step⟩

/-! ### Steps of the client thread -/

/-- The bytes left on the ring after a pass. -/
def purged (inhibitAdc : Bool) (s : List UInt8) : List UInt8 :=
  if inhibitAdc ∧ CHANTOKEN.length < s.length then [] else s

theorem contents_purge (inhibitAdc : Bool) (ring : RingSet) :
    (purge inhibitAdc ring).contents = purged inhibitAdc ring.contents := by
  unfold purge purged
  rw [RingSet.length_contents]
  split_ifs with h
  · rw [RingSet.contents_delete le_rfl, ← RingSet.length_contents, List.drop_length]
  · rfl

@[simp] theorem bfrsize_purge (inhibitAdc : Bool) (ring : RingSet) :
    (purge inhibitAdc ring).bfrsize = ring.bfrsize := by
  unfold purge
  split_ifs <;> simp

/-- What a step of the client thread does to it, to `client_comm` and to the data ring. -/
inductive ClientMove (c : ClientThread) (comm : ClientComm) (dataRing : DataRing) :
    ClientThread → ClientComm → DataRing → List Event → Prop
  /-- A step that touches nothing shared. -/
  | quiet {c' : ClientThread} : (c.pc = .start ∨ c.pc = .top ∨ c.pc = .sending) →
      (c'.pc = .top ∨ c'.pc = .sending ∨ c'.pc = .sample) →
      c'.inhibitAdc = c.inhibitAdc → c'.newChanInfo = c.newChanInfo →
      c'.oldChanInfo = c.oldChanInfo → ClientMove c comm dataRing c' comm dataRing []
  /-- The start of a pass. -/
  | sample : c.pc = .sample → ClientMove c comm dataRing
      { c with inhibitAdc := comm.chanChange, newChanInfo := c.oldChanInfo, pc := .checking } comm
      dataRing [.sampled comm.chanChange]
  /-- One turn of the loop of a pass. -/
  | check {c' : ClientThread} {dataRing' : DataRing} {p' : RcvPath} {events : List RcvEvent}
      (t : Turn) : c.pc = .checking → turn c.inhibitAdc c.rcvRing.contents = some t →
      c'.pc = (if t.again then .checking else .publish) →
      c'.rcvRing.contents = (if t.again then t.rest else purged c.inhibitAdc t.rest) →
      c'.inhibitAdc = c.inhibitAdc → c'.oldChanInfo = c.oldChanInfo →
      c'.newChanInfo = p'.newChanInfo → dataRing' = p'.dataRing →
      Handed t.item (c.path dataRing) p' events →
      ClientMove c comm dataRing c' comm dataRing' (events.map .rcv)
  /-- The end of a pass that found a change. -/
  | raise : c.pc = .publish → c.changed = true → ClientMove c comm dataRing
      { c with oldChanInfo := comm.chanInfo, pc := .sending }
      { comm with chanChange := true, chanInfo := c.newChanInfo } dataRing [.passEnd true]
  /-- The end of a pass that found none. -/
  | keep : c.pc = .publish → c.changed = false → ClientMove c comm dataRing
      { c with pc := .sending } comm dataRing [.passEnd false]

namespace ClientThread

variable {io : ClientIO} {c c' : ClientThread}

/-- The fields of the thread that a receive leaves alone. -/
structure SamePass (c c' : ClientThread) : Prop where
  inhibitAdc : c'.inhibitAdc = c.inhibitAdc
  newChanInfo : c'.newChanInfo = c.newChanInfo
  oldChanInfo : c'.oldChanInfo = c.oldChanInfo

theorem SamePass.noteReceived (h : SamePass c c') (rv : ℤ) :
    SamePass c (noteReceived rv c') := by
  unfold ClientThread.noteReceived
  dsimp only
  split_ifs <;> exact ⟨h.inhibitAdc, h.newChanInfo, h.oldChanInfo⟩

theorem receiveStage_same (h : receiveStage io c = .ok c') : SamePass c c' := by
  unfold receiveStage at h
  split_ifs at h
  · cases hsel : io.select with
    | none => simp [hsel] at h
    | some rw =>
      obtain ⟨readable, writable⟩ := rw
      simp only [hsel] at h
      split_ifs at h <;> obtain rfl := Except.ok.inj h
      · refine SamePass.noteReceived ?_ _
        exact ⟨rfl, rfl, rfl⟩
      · exact ⟨rfl, rfl, rfl⟩
  · obtain rfl := Except.ok.inj h
    exact ⟨rfl, rfl, rfl⟩

theorem dispatch_same {clientNo : ℤ} (h : dispatch io clientNo c = .ok c') :
    SamePass c c' ∧ (c'.pc = .sending ∨ c'.pc = .sample) := by
  unfold dispatch at h
  cases hstate : c.state <;> simp only [hstate] at h
  case CLI_STATE_INVALID => cases h
  case CLI_STATE_GET_ADDR => cases h
  case CLI_STATE_GET_SOCKET =>
    split_ifs at h
    obtain rfl := Except.ok.inj h
    exact ⟨⟨rfl, rfl, rfl⟩, .inl rfl⟩
  case CLI_STATE_RECONNECT =>
    split_ifs at h
    obtain rfl := Except.ok.inj h
    exact ⟨⟨rfl, rfl, rfl⟩, .inl rfl⟩
  case CLI_STATE_CONNECT =>
    split_ifs at h
    obtain rfl := Except.ok.inj h
    exact ⟨⟨rfl, rfl, rfl⟩, .inl rfl⟩
  case CLI_STATE_SEND_CHANNEL_REQUEST =>
    split_ifs at h <;> obtain rfl := Except.ok.inj h <;> exact ⟨⟨rfl, rfl, rfl⟩, .inl rfl⟩
  case CLI_STATE_GET_DATA =>
    obtain rfl := Except.ok.inj h
    exact ⟨⟨rfl, rfl, rfl⟩, .inr rfl⟩

/-- What the end of the loop can do. -/
theorem sendStage_cases (h : sendStage io c = .ok c') :
    c' = { c with pc := .top } ∨ ∃ rv ring, c' = { c with
      sendRing := ring
      state := if rv < (0 : ℤ) then .CLI_STATE_RECONNECT else c.state
      pc := .top } := by
  unfold sendStage at h
  split_ifs at h
  · obtain ⟨⟨rv, ring⟩, -, h⟩ := bind_eq_ok.1 h
    cases h
    exact .inr ⟨rv, ring, rfl⟩
  · cases h
    exact .inl rfl

theorem sendStage_same (h : sendStage io c = .ok c') : SamePass c c' ∧ c'.pc = .top := by
  rcases sendStage_cases h with rfl | ⟨rv, ring, rfl⟩ <;> exact ⟨⟨rfl, rfl, rfl⟩, rfl⟩

/-- **What a step of the client thread can do.** -/
theorem step_cases {comm comm' : ClientComm} {dataRing dataRing' : DataRing} {es : List Event}
    (h : c.step io comm dataRing = .ok (c', comm', dataRing', es)) :
    ClientMove c comm dataRing c' comm' dataRing' es := by
  unfold step at h
  cases hpc : c.pc <;> simp only [hpc] at h
  case start =>
    split_ifs at h
    cases h
    exact .quiet (.inl hpc) (.inl rfl) rfl rfl rfl
  case top =>
    obtain ⟨c₁, hrcv, h⟩ := bind_eq_ok.1 h
    obtain ⟨c₂, hdisp, h⟩ := bind_eq_ok.1 h
    cases h
    have h₁ := receiveStage_same hrcv
    obtain ⟨h₂, hpc₂⟩ := dispatch_same hdisp
    exact .quiet (.inr (.inl hpc)) (.inr hpc₂) (h₂.inhibitAdc.trans h₁.inhibitAdc)
      (h₂.newChanInfo.trans h₁.newChanInfo) (h₂.oldChanInfo.trans h₁.oldChanInfo)
  case sample =>
    cases h
    exact .sample hpc
  case checking =>
    have hiter := checkDataIter_turn c.inhibitAdc io.junk (c.path dataRing)
    simp only [check] at h
    cases ht : turn c.inhibitAdc c.rcvRing.contents with
    | none =>
      simp only [path, ht, IterResult] at hiter
      simp [path, hiter, bind, Except.bind] at h
    | some t =>
      simp only [path, ht] at hiter
      obtain ⟨p', events, heq, hagrees⟩ := hiter
      simp only [path, heq, bind, Except.bind, pure, Except.pure, Except.ok.injEq,
        Prod.mk.injEq] at h
      obtain ⟨rfl, rfl, rfl, rfl⟩ := h
      -- the purge follows the last turn only
      refine .check t hpc ht rfl ?_ rfl rfl rfl rfl hagrees.handed
      dsimp only
      split_ifs
      · exact hagrees.contents
      · rw [contents_purge, hagrees.contents]
  case publish =>
    split_ifs at h with hch
    · cases h
      exact .raise hpc hch
    · cases h
      exact .keep hpc (by simpa using hch)
  case sending =>
    obtain ⟨c₁, hsend, h⟩ := bind_eq_ok.1 h
    cases h
    obtain ⟨hsame, hpc'⟩ := sendStage_same hsend
    exact .quiet (.inr (.inr hpc)) (.inl hpc') hsame.inhibitAdc hsame.newChanInfo hsame.oldChanInfo

theorem step_error {comm : ClientComm} {dataRing : DataRing} {msg : String}
    (h : c.step io comm dataRing = .error msg) :
    c.pc = .start ∨ c.pc = .top ∨ c.pc = .sending ∨ (c.pc = .checking ∧
      turn c.inhibitAdc c.rcvRing.contents = none) := by
  unfold step at h
  cases hpc : c.pc <;> simp only [hpc] at h
  case start => exact .inl rfl
  case top => exact .inr (.inl rfl)
  case sample => cases h
  case checking =>
    have hiter := checkDataIter_turn c.inhibitAdc io.junk (c.path dataRing)
    refine .inr (.inr (.inr ⟨rfl, ?_⟩))
    cases ht : turn c.inhibitAdc c.rcvRing.contents with
    | none => rfl
    | some t =>
      simp only [path, ht] at hiter
      obtain ⟨p', events, heq, -⟩ := hiter
      simp [check, path, heq, bind, Except.bind, pure, Except.pure] at h
  case publish => split_ifs at h
  case sending => exact .inr (.inr (.inl rfl))

end ClientThread

/-! ### A pass that is not interrupted -/

namespace Core

theorem run_checkDataLoop {s : Core} {junk : ℕ → Bfr} {fuel : ℕ} {p' : RcvPath}
    {events : List RcvEvent} (hexited : s.exited = none) (hpc : s.client.pc = .checking)
    (h : checkDataLoop s.client.inhibitAdc junk fuel (s.client.path s.dataRing) =
      .ok (false, p', events)) :
    ∃ ls, (∀ l ∈ ls, l.ofClient = true) ∧ proxy.run s ls = some
      ({ s with
        client := { s.client with
          rcvRing := purge s.client.inhibitAdc p'.ring
          newChanInfo := p'.newChanInfo
          pc := .publish }
        dataRing := p'.dataRing }, events.map .rcv) := by
  induction fuel generalizing s events with
  | zero => cases h
  | succ fuel ih =>
    obtain ⟨⟨again, p₁, events₁⟩, hiter, h⟩ := bind_eq_ok.1 h
    let io : ClientIO := ⟨true, true, none, .again, 0, 0, none, ⟨0, .EAGAIN⟩, junk fuel⟩
    -- the state after the first turn
    let s₁ : Core := { s with
      client := { s.client with
        rcvRing := if again then p₁.ring else purge s.client.inhibitAdc p₁.ring
        newChanInfo := p₁.newChanInfo
        pc := if again then .checking else .publish }
      dataRing := p₁.dataRing }
    have hstep : proxy.step s (.client io) = some (s₁, events₁.map .rcv) := by
      change s.step (.client io) = _
      simp [step, hexited, clientStep, ClientThread.step, hpc, ClientThread.check, io, hiter, s₁,
        bind, Except.bind, pure, Except.pure]
    cases again with
    | false =>
      cases h
      refine ⟨[.client io], by simp [Label.ofClient], ?_⟩
      rw [Machine.run_cons hstep]
      simp [Machine.run, s₁]
    | true =>
      obtain ⟨⟨again₂, p₂, events₂⟩, hrest, h⟩ := bind_eq_ok.1 h
      cases h
      obtain ⟨ls, hls, hrun⟩ := ih (s := s₁) hexited rfl hrest
      refine ⟨.client io :: ls, ?_, ?_⟩
      · intro l hl
        rcases List.mem_cons.1 hl with rfl | hl
        · rfl
        · exact hls l hl
      · rw [Machine.run_cons hstep, hrun, List.map_append]
        rfl

/-- Without steps of other threads in between, **the steps of a pass are `check_data`**. -/
theorem run_checkData {s : Core} {junk : ℕ → Bfr} {p' : RcvPath} {events : List RcvEvent}
    (hexited : s.exited = none) (hpc : s.client.pc = .checking)
    (h : checkData s.client.inhibitAdc junk (s.client.path s.dataRing) = .ok (p', events)) :
    ∃ ls, (∀ l ∈ ls, l.ofClient = true) ∧ proxy.run s ls = some
      ({ s with
        client := { s.client with
          rcvRing := p'.ring
          newChanInfo := p'.newChanInfo
          pc := .publish }
        dataRing := p'.dataRing }, events.map .rcv) := by
  obtain ⟨again, p₁, hloop, rfl⟩ := checkData_ok h
  obtain rfl := checkDataLoop_done (Nat.lt_succ_self _) hloop
  exact run_checkDataLoop hexited hpc hloop

end Core

/-- The client thread is in a pass. -/
def ClientThread.InPass (c : ClientThread) : Prop := c.pc = .checking ∨ c.pc = .publish

theorem ClientThread.changed_iff {c : ClientThread} :
    c.changed = true ↔ ¬ c.oldChanInfo.Same c.newChanInfo := by
  simp only [changed, ChannelInfo.Same, ne_eq, Bool.or_eq_true, decide_eq_true_eq]
  tauto

theorem ClientThread.not_inPass {c : ClientThread}
    (h : c.pc = .start ∨ c.pc = .top ∨ c.pc = .sample ∨ c.pc = .sending) : ¬ c.InPass := by
  unfold InPass
  rcases h with h | h | h | h <;> simp [h]

/-- A turn of the loop leaves the thread in its pass. -/
theorem ClientThread.inPass_of_turn {c : ClientThread} {again : Bool}
    (h : c.pc = if again then .checking else .publish) : c.InPass := by
  cases again with
  | false => exact .inr h
  | true => exact .inl h

/-- A pass finds a change only in what it received: `any` says whether it received something, and
`last` what it received last. -/
theorem ClientThread.received_of_changed {c : ClientThread} {any : Bool} {last : ChannelInfo}
    (hnew : c.newChanInfo = if any then last else c.oldChanInfo) (hch : c.changed = true) :
    any = true ∧ c.newChanInfo = last ∧ ¬ c.oldChanInfo.Same last := by
  rw [changed_iff, hnew] at hch
  cases any with
  | false => exact absurd ⟨rfl, rfl⟩ hch
  | true => exact ⟨rfl, hnew, hch⟩

/-! ### Labels of runs in which no call fails -/

/-- A step of the client thread in which a `recv` yields the bytes. -/
def clientRecv (l : List UInt8) : Label :=
  .client ⟨true, true, some (true, true), .bytes l, 3, 0, none, ⟨7, .EAGAIN⟩, fun _ => 0⟩

/-- A step of the client thread in which nothing arrives. -/
def clientQuiet : Label :=
  .client ⟨true, true, some (true, true), .again, 3, 0, none, ⟨7, .EAGAIN⟩, fun _ => 0⟩

/-- From the start of the client thread to the request for data. -/
def clientConnects : List Label := List.replicate 7 clientQuiet

/-- One pass of the client thread that receives the bytes and takes this many turns. -/
def clientPass (l : List UInt8) (turns : ℕ) : List Label :=
  clientRecv l :: List.replicate (turns + 3) clientQuiet

/-- Memory that holds nothing but zeros. -/
def Memory.zero : Memory := ⟨fun _ => ⟨⟨0, 0, 0, false⟩, fun _ => 0⟩, fun _ => 0⟩

/-- A step of the server thread in which no client says anything. -/
def serverQuiet : Label :=
  .server ⟨true, true, true, false, true, .again, ⟨7, .EAGAIN⟩, none, true, 0, fun _ => 0⟩

/-- A step of the server thread in which a client connects. -/
def serverAccepts : Label :=
  .server ⟨true, true, true, true, true, .again, ⟨7, .EAGAIN⟩, some [0x31], true, 0, fun _ => 0⟩

/-- A step of the server thread in which a client sends the bytes. -/
def serverHears (l : List UInt8) : Label :=
  .server ⟨true, true, true, true, true, .bytes l, ⟨100, .EAGAIN⟩, none, true, 0, fun _ => 0⟩

/-- Steps of the server thread in which no client says anything. -/
def serverSteps (n : ℕ) : List Label := List.replicate n serverQuiet

/-- From the start of the server thread to the request of its first client for data, and on to the
next turn over the connections. -/
def clientServed : List Label :=
  serverSteps 12 ++ [serverAccepts] ++ serverSteps 3 ++ [serverHears CHANREQUEST] ++ serverSteps 13

/-- Steps of the main thread. -/
def mainSteps (n : ℕ) : List Label := List.replicate n (.main ⟨true, true, true, .zero⟩)

end SdrProxy
