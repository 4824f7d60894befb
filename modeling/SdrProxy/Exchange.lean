import SdrProxy.Receiver
import SdrProxy.ServerRefinement

/-!
# The program without its memory

The whole program in terms of what it is for: a receiver that takes texts and packets from the
remote server, a cache that is a finite map, a switchboard with the clients, and the handshake of
the three threads.  There are no rings, no slots, no records and no uninitialised memory.

* `Exchange` : the state; `Exchange.step` is one step of a thread;
* `Core.Is` : a state of the program as one of the exchange (`Core.Is.step`);
* `proxy_refines` : the runs of the program are those of the exchange, with the same events;
* `memory_irrelevant` : so what newly allocated memory and local buffers hold makes no difference,
  as long as no packet without a whole header is taken.
-/

namespace SdrProxy

/-- The state of the program, without its memory. -/
structure Exchange where
  comm : ClientComm
  chanInfoG : ChannelInfo
  /-- The packets that are served. -/
  cache : PacketMap
  serverClose : Bool
  mainPc : MainPc
  serverRunning : Bool
  /-- The client thread. -/
  receiver : Receiver
  /-- The server thread last started. -/
  switchboard : Option Switchboard
  /-- The program has ended. -/
  exited : Bool

/-- Which thread takes a step, with the outcomes of its calls. -/
inductive ExchangeLabel where
  /-- `select` succeeded, and there was enough memory. -/
  | main (select memory : Bool)
  | client (io : ClientIO)
  | server (io : ServerIO)

namespace Exchange

/-- The exchange when the receiver has been created. -/
def init (clientNo failtimer : ℤ) : Exchange where
  comm := ⟨false, clientNo, .zero⟩
  chanInfoG := .zero
  cache := .empty
  serverClose := false
  mainPc := .poll
  serverRunning := false
  receiver := .init failtimer
  switchboard := none
  exited := false

/-- The switchboard is closed. -/
def serverEnded (x : Exchange) : Bool :=
  match x.switchboard with
  | none => true
  | some o => o.pc = .ended

/-- One step of the main loop: a change of the configuration is handled. -/
def mainStep (select memory : Bool) (x : Exchange) : Option (Exchange × List Event) :=
  match x.mainPc with
  | .poll =>
    if select then some ({ x with mainPc := if x.comm.chanChange then .copy else .poll }, [])
    else some ({ x with exited := true }, [])
  | .copy =>
    some ({ x with
      chanInfoG := x.comm.chanInfo
      mainPc := if x.serverRunning then .closeCmd else .dealloc }, [])
  | .closeCmd => some ({ x with serverClose := true, mainPc := .join }, [.closeCmd])
  | .join =>
    if x.serverEnded then some ({ x with serverRunning := false, mainPc := .dealloc }, []) else none
  | .dealloc => some ({ x with cache := .empty, mainPc := .alloc }, [.dealloc])
  | .alloc =>
    if memory then some ({ x with cache := .empty, mainPc := .finish }, [.alloc x.chanInfoG])
    else some ({ x with exited := true }, [])
  | .finish =>
    some ({ x with
      chanInfoG := x.comm.chanInfo
      comm := { x.comm with chanChange := false }
      mainPc := .clearSrv }, [.cleared x.comm.chanInfo])
  | .clearSrv => some ({ x with serverClose := false, mainPc := .spawn }, [])
  | .spawn =>
    some ({ x with switchboard := some .init, serverRunning := true, mainPc := .poll }, [.started])

/-- One step of the receiver. -/
def clientStep (io : ClientIO) (x : Exchange) : Exchange × List Event :=
  match x.receiver.step io x.comm x.cache with
  | none => ({ x with exited := true }, [])
  | some (receiver, comm, cache, events) =>
    ({ x with receiver := receiver, comm := comm, cache := cache }, events)

/-- One step of the switchboard, if it is open. -/
def serverStep (io : ServerIO) (x : Exchange) : Option (Exchange × List Event) :=
  match x.switchboard with
  | none => none
  | some o =>
    if o.pc = .ended then none
    else
      match o.step ⟨io, x.serverClose, x.chanInfoG, x.cache⟩ with
      | none => some ({ x with exited := true }, [])
      | some (o', events) =>
        some ({ x with
          switchboard := some o'
          serverClose := x.serverClose && o.pc != .closing }, events)

/-- One step of the exchange. -/
def step (x : Exchange) (l : ExchangeLabel) : Option (Exchange × List Event) :=
  if x.exited then none
  else
    match l with
    | .main select memory => x.mainStep select memory
    | .client io => some (x.clientStep io)
    | .server io => x.serverStep io

end Exchange

/-- The exchange as a machine. -/
def exchangeMachine : Machine Exchange ExchangeLabel Event := ⟨Exchange.step⟩

/-! ### The program -/

/-- The label without the contents of the memory that the main thread is given. -/
def Label.abstract : Label → ExchangeLabel
  | main io => .main io.select (io.slots && io.packets)
  | client io => .client io
  | server io => .server io

/-- The state of the program is that of the exchange. -/
structure Core.Is (s : Core) (x : Exchange) : Prop where
  comm : s.comm = x.comm
  chanInfoG : s.chanInfoG = x.chanInfoG
  serverClose : s.serverClose = x.serverClose
  mainPc : s.mainPc = x.mainPc
  serverRunning : s.serverRunning = x.serverRunning
  exited : s.exited.isSome = x.exited
  ring_ok : s.dataRing.Ok
  cache : s.dataRing.map = x.cache
  sized : s.client.Sized
  receiver : s.client.receiver = x.receiver
  server : Option.Rel ServerThread.Serves s.server x.switchboard

variable {s : Core} {x : Exchange}

theorem map_alloc (size : ℕ) (mem : ℕ → Datastore) : (DataRing.alloc size mem).map = .empty := by
  rw [DataRing.map, DataRing.entries_alloc, FinMap.ofList_nil]

theorem map_dealloc (r : DataRing) : r.dealloc.map = .empty := by
  rw [DataRing.map, DataRing.entries_dealloc, FinMap.ofList_nil]

theorem core_is_init (clientNo failtimer : ℤ) (mem : Memory) :
    (Core.init clientNo failtimer mem).Is (.init clientNo failtimer) where
  comm := rfl
  chanInfoG := rfl
  serverClose := rfl
  mainPc := rfl
  serverRunning := rfl
  exited := rfl
  ring_ok := DataRing.ok_alloc _ _
  cache := map_alloc _ _
  sized := ClientThread.sized_init _ _
  receiver := by
    simp only [ClientThread.receiver, Core.init, ClientThread.init, RingSet.contents_alloc]
    rfl
  server := .none

theorem Core.Is.serverEnded (h : s.Is x) : s.serverEnded = x.serverEnded := by
  have hserver := h.server
  unfold Core.serverEnded Exchange.serverEnded
  generalize s.server = t at hserver
  generalize x.switchboard = o at hserver
  cases hserver with
  | none => rfl
  | some hserves =>
    obtain ⟨l, addr, his⟩ := hserves
    dsimp only
    rw [his.pc]

/-- A step of the main thread is one of the exchange. -/
theorem Core.Is.mainStep (h : s.Is x) (io : MainIO) : Machine.Mirrors Core.Is (s.mainStep io)
    (x.mainStep io.select (io.slots && io.packets)) := by
  have hended := h.serverEnded
  unfold Core.mainStep Exchange.mainStep
  rw [← h.mainPc]
  cases s.mainPc with
  | poll =>
    dsimp only
    rw [h.comm]
    split_ifs
    · exact .some ⟨{ h with comm := rfl, mainPc := rfl }, rfl⟩
    · exact .some ⟨{ h with comm := rfl, mainPc := rfl }, rfl⟩
    · exact .some ⟨{ h with comm := rfl, mainPc := rfl, exited := rfl }, rfl⟩
  | copy =>
    dsimp only
    rw [h.comm, h.serverRunning]
    exact .some ⟨{ h with
      comm := rfl, chanInfoG := rfl, serverRunning := rfl, mainPc := rfl }, rfl⟩
  | closeCmd => exact .some ⟨{ h with serverClose := rfl, mainPc := rfl }, rfl⟩
  | join =>
    dsimp only
    rw [hended]
    split_ifs
    · exact .some ⟨{ h with serverRunning := rfl, mainPc := rfl }, rfl⟩
    · exact .none
  | dealloc =>
    exact .some ⟨{ h with
      ring_ok := DataRing.ok_dealloc h.ring_ok, cache := map_dealloc _, mainPc := rfl }, rfl⟩
  | alloc =>
    dsimp only
    rw [h.chanInfoG]
    cases io.slots with
    | false => exact .some ⟨{ h with chanInfoG := rfl, mainPc := rfl, exited := rfl }, rfl⟩
    | true =>
      cases io.packets with
      | false => exact .some ⟨{ h with chanInfoG := rfl, mainPc := rfl, exited := rfl }, rfl⟩
      | true =>
        exact .some ⟨{ h with
          chanInfoG := rfl
          ring_ok := DataRing.ok_alloc _ _
          cache := map_alloc _ _
          mainPc := rfl }, rfl⟩
  | finish =>
    dsimp only
    rw [h.comm]
    exact .some ⟨{ h with chanInfoG := rfl, comm := rfl, mainPc := rfl }, rfl⟩
  | clearSrv => exact .some ⟨{ h with serverClose := rfl, mainPc := rfl }, rfl⟩
  | spawn =>
    exact .some ⟨{ h with
      server := .some (serves_init _), serverRunning := rfl, mainPc := rfl }, rfl⟩

theorem Core.Is.clientStep (h : s.Is x) (io : ClientIO) :
    (s.clientStep io).1.Is (x.clientStep io).1 ∧ (s.clientStep io).2 = (x.clientStep io).2 := by
  obtain ⟨hstep, hkeep⟩ := ClientThread.step_receiver h.sized h.ring_ok io s.comm
  unfold Core.clientStep Exchange.clientStep
  rw [← h.receiver, ← h.comm, ← h.cache, ← hstep]
  cases hc : s.client.step io s.comm s.dataRing with
  | error msg =>
    exact ⟨{ h with comm := rfl, cache := rfl, receiver := rfl, exited := rfl }, rfl⟩
  | ok y =>
    obtain ⟨client, comm, dataRing, events⟩ := y
    obtain ⟨hsized, hok⟩ := hkeep _ hc
    exact ⟨{ h with comm := rfl, ring_ok := hok, cache := rfl, sized := hsized, receiver := rfl },
      rfl⟩

theorem Core.Is.serverStep (h : s.Is x) (io : ServerIO) :
    Machine.Mirrors Core.Is (s.serverStep io) (x.serverStep io) := by
  have hserver := h.server
  unfold Core.serverStep Exchange.serverStep
  generalize ht : s.server = t at hserver
  generalize ho : x.switchboard = o at hserver
  cases hserver with
  | none => exact .none
  | @some t o hserves =>
    obtain ⟨l, addr, his⟩ := hserves
    dsimp only
    rw [← his.pc]
    split_ifs
    · exact .none
    · have hstep : Machine.Mirrors ServerThread.Serves
          (threadMachine.step t ⟨io, s.serverClose, s.chanInfoG, s.dataRing⟩)
          (switchboardMachine.step o
            (ThreadLabel.abstract ⟨io, s.serverClose, s.chanInfoG, s.dataRing⟩)) :=
        his.step h.ring_ok
      rw [threadMachine_step] at hstep
      have hlabel : (⟨io, s.serverClose, s.chanInfoG, s.dataRing⟩ : ThreadLabel).abstract =
          ⟨io, x.serverClose, x.chanInfoG, x.cache⟩ := by
        rw [ThreadLabel.abstract, h.serverClose, h.chanInfoG, h.cache]
      rw [hlabel] at hstep
      change Machine.Mirrors _ _ (o.step _) at hstep
      generalize o.step ⟨io, x.serverClose, x.chanInfoG, x.cache⟩ = r' at hstep
      dsimp only at hstep
      cases hres : t.step io s.serverClose s.chanInfoG s.dataRing with
      | error msg =>
        rw [hres] at hstep
        cases hstep
        exact .some ⟨{ h with server := .some ⟨l, addr, his⟩, exited := rfl }, rfl⟩
      | ok y =>
        obtain ⟨t', closeCmd, events⟩ := y
        obtain ⟨-, hclose⟩ := ServerThread.pc_of_step hres
        rw [hres] at hstep
        cases hstep with
        | @some _ y' hrel =>
          obtain ⟨o', events'⟩ := y'
          obtain ⟨hserves', rfl⟩ := hrel
          refine .some ⟨{ h with server := .some hserves', serverClose := ?_ }, rfl⟩
          rw [hclose, h.serverClose]

/-- **A step of the program is one of the exchange.** -/
theorem Core.Is.step (h : s.Is x) (l : Label) :
    Machine.Mirrors Core.Is (proxy.step s l) (exchangeMachine.step x l.abstract) := by
  show Machine.Mirrors Core.Is (s.step l) (x.step l.abstract)
  unfold Core.step Exchange.step
  rw [h.exited]
  split_ifs
  · exact .none
  · cases l with
    | main io => exact h.mainStep io
    | client io => exact .some (h.clientStep io)
    | server io => exact h.serverStep io

/-- The steps are of the same thread, and their calls have the same outcomes: only what newly
allocated memory and local buffers hold may be different. -/
inductive Label.SameCalls : Label → Label → Prop where
  | main (io : MainIO) (mem : Memory) : SameCalls (.main io) (.main { io with mem := mem })
  | client (io : ClientIO) (junk : Bfr) : SameCalls (.client io) (.client { io with junk := junk })
  | server (io : ServerIO) (mem : Bfr) : SameCalls (.server io) (.server { io with mem := mem })

/-- What `rcv_bfr` held does not matter to a packet with a whole header. -/
theorem Receiver.handOn_junk (r : Receiver) (junk junk' : Bfr) (cache : PacketMap) {t : Turn}
    (h : ∀ pkt, t.item = some (.adc pkt) → PREHDRLEN + DATAHDRLEN ≤ pkt.length) :
    r.handOn junk cache t = r.handOn junk' cache t := by
  obtain ⟨again, rest, item⟩ := t
  unfold Receiver.handOn
  cases item with
  | none => rfl
  | some item =>
    cases item with
    | chan c => rfl
    | adc pkt =>
      have hinfo : packetInfo (junk.load 0 pkt) pkt.length =
          packetInfo (junk'.load 0 pkt) pkt.length := by
        refine packetInfo_congr ?_ (h pkt rfl) pkt.length
        intro j hj
        rw [load_zero_apply _ hj, load_zero_apply _ hj]
      dsimp only
      rw [hinfo]

theorem Receiver.step_junk (r : Receiver) (io : ClientIO) (junk : Bfr) (comm : ClientComm)
    (cache : PacketMap) (h : ∀ t pkt, r.pc = .checking → turn r.inhibitAdc r.inbox = some t →
      t.item = some (.adc pkt) → PREHDRLEN + DATAHDRLEN ≤ pkt.length) :
    r.step { io with junk := junk } comm cache = r.step io comm cache := by
  unfold Receiver.step
  cases hpc : r.pc with
  | start | top | sample | publish | sending => rfl
  | checking =>
    refine Option.map_congr ?_
    intro t ht
    dsimp only
    rw [Receiver.handOn_junk r junk io.junk cache fun pkt => h t pkt hpc (Option.mem_def.1 ht)]

/-- A packet that is handed on has a whole header, if none is taken that has not. -/
theorem Core.long_of_turn (hshort : ¬ s.AtShortPacket) (hpc : s.client.pc = .checking) {t : Turn}
    {pkt : List UInt8} (ht : turn s.client.inhibitAdc s.client.rcvRing.contents = some t)
    (hitem : t.item = some (.adc pkt)) : PREHDRLEN + DATAHDRLEN ≤ pkt.length := by
  by_contra hlt
  have hinh : s.client.inhibitAdc = false := by
    cases hinh : s.client.inhibitAdc with
    | false => rfl
    | true =>
      rw [hinh] at ht
      exact absurd hitem (item_ne_of_inhibited ht)
  rw [hinh] at ht
  rcases turn_cases false s.client.rcvRing.contents with
    ⟨-, -, heq⟩ | ⟨c, -, -, heq⟩ | ⟨a, ha, hfirst, heq⟩
  · rw [heq] at ht
    cases ht
    cases hitem
  · rw [heq] at ht
    cases ht
    exact absurd hitem (chanTurn_item_ne _ _)
  · rw [heq] at ht
    obtain ⟨hwhole, rfl, hgood⟩ := adcTurn_item ht hitem
    rw [List.length_take, Nat.min_eq_left hwhole] at hlt
    exact hshort ⟨hpc, hinh, a, ha, hfirst, hwhole, by omega, hgood⟩

theorem Core.Is.sameCalls (h : s.Is x) {l l' : Label} (hsame : l.SameCalls l')
    (hshort : ∀ s' es, proxy.step s l = some (s', es) → MeetsNoShort s l es s') :
    exchangeMachine.step x l'.abstract = exchangeMachine.step x l.abstract := by
  show x.step l'.abstract = x.step l.abstract
  unfold Exchange.step
  cases hexited : x.exited with
  | true => rfl
  | false =>
    cases hsame with
    | main io mem => rfl
    | server io mem =>
      show x.serverStep { io with mem := mem } = x.serverStep io
      rfl
    | client io junk =>
      have hstep : proxy.step s (.client io) = some (s.clientStep io) := by
        show s.step (.client io) = some (s.clientStep io)
        rw [Core.step, h.exited, hexited]
        rfl
      have hno := hshort _ _ hstep rfl
      show some (x.clientStep { io with junk := junk }) = some (x.clientStep io)
      unfold Exchange.clientStep
      rw [Receiver.step_junk]
      intro t pkt hpc ht hitem
      rw [← h.receiver] at hpc ht
      exact Core.long_of_turn hno hpc ht hitem

/-- Two states of the program that show the same state of the exchange have the same runs. -/
theorem Core.Is.same_run {s s' : Core} {x : Exchange} {ls ls' : List Label} (hs : s.Is x)
    (hs' : s'.Is x) (hsame : List.Forall₂ Label.SameCalls ls ls')
    (halways : proxy.Always MeetsNoShort s ls) :
    Option.Rel (fun r r' => r.2 = r'.2 ∧ ∃ x, r.1.Is x ∧ r'.1.Is x) (proxy.run s ls)
      (proxy.run s' ls') := by
  induction hsame generalizing s s' x with
  | nil => exact .some ⟨rfl, x, hs, hs'⟩
  | @cons l l' ls ls' hl _ ih =>
    rw [Machine.always_cons] at halways
    have hmirrors := hs.step l
    have hmirrors' := hs'.step l'
    rw [hs.sameCalls hl fun s₁ es h => (halways s₁ es h).1] at hmirrors'
    rw [Machine.run, Machine.run]
    generalize exchangeMachine.step x l.abstract = r at hmirrors hmirrors'
    generalize hr' : proxy.step s' l' = r' at hmirrors'
    generalize hr : proxy.step s l = r₀ at hmirrors
    cases hmirrors with
    | none =>
      cases hmirrors'
      exact .none
    | @some r₀ r h =>
      cases hmirrors' with
      | @some r' _ h' =>
        have hrest := ih h.1 h'.1 (halways r₀.1 r₀.2 hr).2
        show Option.Rel _ ((proxy.run r₀.1 ls).bind _) ((proxy.run r'.1 ls').bind _)
        have hes : r₀.2 = r'.2 := h.2.trans h'.2.symm
        generalize proxy.run r₀.1 ls = ran at hrest
        generalize proxy.run r'.1 ls' = ran' at hrest
        cases hrest with
        | none => exact .none
        | some hrun => exact .some ⟨congrArg₂ (· ++ ·) hes hrun.1, hrun.2⟩

/-- **Memory is irrelevant**: two runs in which the same threads take steps and their calls have the
same outcomes have the same events and lead to states that show the same state of the exchange, or
neither goes on, whatever newly allocated memory, the slots of the cache and the local buffers hold,
if the first one takes no packet without a whole header. -/
theorem memory_irrelevant (clientNo failtimer : ℤ) (mem mem' : Memory) {ls ls' : List Label}
    (hsame : List.Forall₂ Label.SameCalls ls ls')
    (hshort : proxy.Always MeetsNoShort (.init clientNo failtimer mem) ls) :
    Option.Rel (fun r r' => r.2 = r'.2 ∧ ∃ x, r.1.Is x ∧ r'.1.Is x)
      (proxy.run (.init clientNo failtimer mem) ls)
      (proxy.run (.init clientNo failtimer mem') ls') :=
  (core_is_init clientNo failtimer mem).same_run (core_is_init clientNo failtimer mem') hsame
    hshort

/-- The calls of a client thread that receives a text whenever it looks. -/
def textCalls (junk : Bfr) : ClientIO :=
  ⟨true, true, some (true, true), .bytes (chanInfoText ⟨10, 1, 1⟩), 3, 0, none, ⟨7, .EAGAIN⟩, junk⟩

/-- The client thread connects and raises a change, and the main thread starts a server thread. -/
def startRun (mem : Memory) (junk : Bfr) : List Label :=
  List.replicate 14 (.client (textCalls junk)) ++
    List.replicate 8 (.main ⟨true, true, true, mem⟩)

theorem meetsNoShort_startRun :
    proxy.Always MeetsNoShort (.init (-1) 0 Memory.zero) (startRun Memory.zero fun _ => 0) := by
  -- there is no packet on the ring at any time
  have hnone : proxy.Always (fun s _ _ _ => findSub ADCTOKEN s.client.rcvRing.contents = none)
      (.init (-1) 0 Memory.zero) (startRun Memory.zero fun _ => 0) := by
    decide +kernel
  refine Machine.always_imp (fun _ => True) trivial ?_ _ hnone
  intro s l s' es _ _ hno
  refine ⟨trivial, ?_⟩
  rintro - ⟨-, -, a, ha, -⟩
  rw [hno] at ha
  cases ha

theorem forall₂_replicate {α β : Type*} {R : α → β → Prop} {a : α} {b : β} (h : R a b) (n : ℕ) :
    List.Forall₂ R (List.replicate n a) (List.replicate n b) := by
  induction n with
  | zero => exact .nil
  | succ n ih => exact .cons h ih

/-- The server thread is started whether memory is zero or not. -/
theorem memory_irrelevant_start :
    Option.Rel (fun r r' => r.2 = r'.2 ∧ ∃ x, r.1.Is x ∧ r'.1.Is x)
      (proxy.run (.init (-1) 0 Memory.zero) (startRun Memory.zero fun _ => 0))
      (proxy.run (.init (-1) 0 ⟨fun _ => ⟨⟨1, 1, 1, true⟩, fun _ => 1⟩, fun _ => 1⟩)
        (startRun ⟨fun _ => ⟨⟨1, 1, 1, true⟩, fun _ => 1⟩, fun _ => 1⟩ fun _ => 1)) ∧
    (proxy.run (.init (-1) 0 Memory.zero) (startRun Memory.zero fun _ => 0)).any
      (fun r => r.1.server.isSome) = true := by
  refine ⟨memory_irrelevant (-1) 0 Memory.zero _ ?_ meetsNoShort_startRun, by decide +kernel⟩
  exact List.rel_append (forall₂_replicate (.client (textCalls fun _ => 0) _) 14)
    (forall₂_replicate (.main ⟨true, true, true, _⟩ _) 8)

end SdrProxy
