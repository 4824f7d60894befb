import SdrProxy.Cache
import SdrProxy.ServerLoop
import SdrProxy.Service
import SdrProxy.System

/-!
# What a step of the program can do

The inversion lemmas of the steps; the proofs about runs use them instead of the definitions.

* `ServerMove` : what a step of the server thread can do (`ServerThread.step_cases`).
* `MainMove` : what a step of the main thread can do (`Core.mainStep_cases`).
* `Core.Move` : what a step of the program can do (`Core.step_cases`).
* `Core.Handshake` : while the main thread handles a change `CHANCHANGE` is set, and while a pass of
  the client thread is not inhibited it is clear (`Core.handshake_always`).  So the slots do not
  change under a pass that stores packets.
* `Core.Stopped` : while the main thread changes the slots, no server thread runs
  (`Core.Stopped.step`).
-/

namespace SdrProxy

/-! ### The server thread -/

/-- The connection is one that packets are sent to. -/
def ConnectionData.Sends (c : ConnectionData) : Prop := c.state = .SRVR_STATE_SENDADC

/-- A service of the connection gets to `put_channel_data` with room for the text. -/
def PlacesText (io : ServerIO) (c : ConnectionData) : Prop :=
  c.state ≠ .SRVR_STATE_INACTIVE ∧ (serviceIncoming io c).state = .SRVR_STATE_SENDCHAN ∧
    CHANINFOLEN ≤ (serviceIncoming io c).sendRing.bytesFree

instance (io : ServerIO) (c : ConnectionData) : Decidable (PlacesText io c) :=
  inferInstanceAs (Decidable (_ ∧ _ ∧ _))

/-- What a step of the server thread does to its connections, and what it is seen to do. -/
inductive ServerMove (io : ServerIO) (chanInfoG : ChannelInfo) (dataRing : DataRing)
    (t t' : ServerThread) : List Event → Prop
  /-- A step that places nothing. -/
  | quiet : (∀ i, (t'.connData i).Sends → (t.connData i).Sends) →
      ServerMove io chanInfoG dataRing t t' []
  /-- A new connection. -/
  | opened (conn : ℕ) : ¬ (t'.connData conn).Sends →
      (∀ i, (t'.connData i).Sends → (t.connData i).Sends) →
      ServerMove io chanInfoG dataRing t t' [.opened conn]
  /-- `put_channel_data`. -/
  | text (conn : ℕ) : t.pc = .service conn → PlacesText io (t.connData conn) →
      (∀ i ≠ conn, (t'.connData i).Sends → (t.connData i).Sends) →
      ServerMove io chanInfoG dataRing t t'
        [.chanPlaced conn ((chanInfoText chanInfoG).take CHANINFOLEN)]
  /-- `put_adc_data`. -/
  | packet (conn : ℕ) (time : PacketTime) (element : PacketInfo) (pkt : List UInt8) :
      (t.connData conn).Sends → (dataRing.retr time).2 = some (element, pkt) →
      (∀ i, (t'.connData i).Sends → (t.connData i).Sends) →
      ServerMove io chanInfoG dataRing t t' [.packetPlaced conn element pkt]

/-- What a service of a connection does to it. -/
inductive ServiceMove (io : ServerIO) (chanInfoG : ChannelInfo) (dataRing : DataRing) (conn : ℕ)
    (c c' : ConnectionData) : List Event → Prop
  | quiet : (c'.Sends → c.Sends) → ServiceMove io chanInfoG dataRing conn c c' []
  | text : PlacesText io c → ServiceMove io chanInfoG dataRing conn c c'
      [.chanPlaced conn ((chanInfoText chanInfoG).take CHANINFOLEN)]
  | packet (time : PacketTime) (element : PacketInfo) (pkt : List UInt8) :
      c.Sends → (dataRing.retr time).2 = some (element, pkt) →
      ServiceMove io chanInfoG dataRing conn c c' [.packetPlaced conn element pkt]

section Service

variable {io : ServerIO} {chanInfoG : ChannelInfo} {dataRing : DataRing} {conn : ℕ}
variable {es : List Event}

/-- A request or the end of a connection stops the packets; nothing the client says starts
them. -/
theorem serviceIncoming_sends {c : ConnectionData} (h : (serviceIncoming io c).Sends) :
    c.Sends := by
  obtain ⟨-, -, hsame | hchan | hdown⟩ := serviceIncoming_same io c
  · exact hsame.symm.trans h
  · cases hchan.symm.trans h
  · cases hdown.symm.trans h

/-- **What a service of a connection can do.** -/
theorem serviceConnection_cases {c c' : Conn}
    (h : serviceConnection io chanInfoG dataRing conn c = .ok (c', es)) :
    ServiceMove io chanInfoG dataRing conn c.data c'.data es := by
  by_cases hin : c.data.state = .SRVR_STATE_INACTIVE
  · rw [serviceConnection_inactive hin] at h
    cases h
    exact .quiet id
  · obtain ⟨c₁, -, hmove, -, hdata⟩ := serviceConnection_moves h hin
    have hheard : (c.heard io).data.Sends → c.data.Sends := serviceIncoming_sends
    -- sending what is on the ring keeps the state that the switch has set
    have hsends : c'.data.Sends → c₁.data.Sends := by
      rw [hdata]
      exact id
    cases hmove with
    | inactive _ => exact .quiet fun hs => hheard (hsends hs)
    | close _ => exact .quiet fun hs => by cases hsends hs
    | text hstate hroom => exact .text ⟨hin, hstate, hroom⟩
    | noRoom _ _ => exact .quiet fun hs => hheard (hsends hs)
    | adc record rv hstate _ hput =>
      have hs : c.data.Sends := hheard hstate
      cases hput with
      | nothing _ => exact .quiet fun _ => hs
      | full element pkt _ _ => exact .quiet fun _ => hs
      | placed element pkt hretr _ => exact .packet _ element pkt hs hretr
    | timeout _ _ => exact .quiet fun hs => by cases hsends hs
    | wait _ _ => exact .quiet fun hs => hheard (hsends hs)

theorem ConnectionData.not_sends_opened (io : ServerIO) (chanInfoG : ChannelInfo)
    (record : Option ℕ) : ¬ (opened io chanInfoG record).Sends := by
  simp [Sends, opened]

end Service

namespace ServerThread

variable {io : ServerIO} {chanInfoG : ChannelInfo} {dataRing : DataRing}
variable {t t' : ServerThread} {es : List Event}

/-- **What a step of the server thread can do.** -/
theorem step_cases {closeCmd closeCmd' : Bool}
    (h : t.step io closeCmd chanInfoG dataRing = .ok (t', closeCmd', es)) :
    ServerMove io chanInfoG dataRing t t' es := by
  cases threadMove_of_step h with
  | quiet pc => exact .quiet fun _ => id
  | closed pc _ => exact .quiet fun i hs => by cases hs
  | served pc conn c es hpc hserv =>
    -- the other connections are left alone
    have hother : ∀ i ≠ conn, (Function.update t.connData conn c.data i).Sends →
        (t.connData i).Sends := by
      intro i hi hs
      rwa [Function.update_of_ne hi] at hs
    have hall : (c.data.Sends → (t.connData conn).Sends) →
        ∀ i, (Function.update t.connData conn c.data i).Sends → (t.connData i).Sends := by
      intro himp i hs
      by_cases hi : i = conn
      · subst hi
        rw [Function.update_self] at hs
        exact himp hs
      · exact hother i hi hs
    cases serviceConnection_cases hserv with
    | quiet himp => exact .quiet (hall himp)
    | text hplaces => exact .text conn hpc hplaces hother
    | packet time element pkt hs hretr =>
      exact .packet conn time element pkt hs hretr (hall fun _ => hs)
  | accepted pc listenerNo newConn remoteIp t₁ _ _ _ hopen =>
    obtain ⟨record, hdata⟩ := openConnection_connData hopen
    have hnew := ConnectionData.not_sends_opened io chanInfoG record
    refine .opened newConn ?_ ?_
    · show ¬ (t₁.connData newConn).Sends
      rw [hdata, Function.update_self]
      exact hnew
    · intro i hs
      change (t₁.connData i).Sends at hs
      rw [hdata] at hs
      by_cases hi : i = newConn
      · subst hi
        rw [Function.update_self] at hs
        exact absurd hs hnew
      · rwa [Function.update_of_ne hi] at hs
  | expired pc t₁ _ hexp =>
    refine .quiet fun i hs => ?_
    change (t₁.connData i).Sends at hs
    rwa [expireOld_connData hexp] at hs

end ServerThread

/-! ### The slots -/

theorem DataRing.slotSize_store {element : PacketInfo} {pktImg : Bfr} {ret : ℤ} {r r' : DataRing}
    (h : r.store element pktImg = .ok (ret, r')) : r'.slotSize = r.slotSize := by
  unfold store at h
  dsimp only at h
  split_ifs at h <;> cases h <;> first | rfl | exact DataRing.slotSize_grow _

theorem Handed.slotSize {item : Option Item} {p p' : RcvPath} {events : List RcvEvent}
    (h : Handed item p p' events) : p'.dataRing.slotSize = p.dataRing.slotSize := by
  cases h with
  | none _ hring => rw [hring]
  | chan _ _ hring => rw [hring]
  | adc _ _ _ _ _ _ hstore => exact DataRing.slotSize_store hstore

/-! ### The main thread and the program -/

/-- The events of the client thread. -/
def Event.ofClient : Event → Bool
  | sampled _ | rcv _ | passEnd _ => true
  | _ => false

/-- The main thread has no server thread running. -/
def MainPc.serverOff : MainPc → Bool
  | dealloc | alloc | finish | clearSrv | spawn => true
  | _ => false

/-- What a step of the main thread can do. -/
inductive MainMove (s : Core) : Core → List Event → Prop
  /-- `CHANCHANGE` is clear. -/
  | idle : s.mainPc = .poll → s.comm.chanChange = false → MainMove s s []
  /-- `CHANCHANGE` is set. -/
  | seen : s.mainPc = .poll → s.comm.chanChange = true → MainMove s { s with mainPc := .copy } []
  /-- The first copy of the configuration. -/
  | copy : s.mainPc = .copy → MainMove s { s with
      chanInfoG := s.comm.chanInfo
      mainPc := if s.serverRunning then .closeCmd else .dealloc } []
  /-- The server thread is told to shut down. -/
  | closeCmd : s.mainPc = .closeCmd →
      MainMove s { s with serverClose := true, mainPc := .join } [.closeCmd]
  /-- The server thread has ended. -/
  | join : s.mainPc = .join → s.serverEnded = true →
      MainMove s { s with serverRunning := false, mainPc := .dealloc } []
  /-- The slots are freed. -/
  | dealloc : s.mainPc = .dealloc →
      MainMove s { s with dataRing := s.dataRing.dealloc, mainPc := .alloc } [.dealloc]
  /-- New slots for the configuration of the first copy. -/
  | alloc (mem : Memory) : s.mainPc = .alloc → MainMove s { s with
      dataRing := .alloc (sdrPktSize s.chanInfoG) mem.slots
      mainPc := .finish } [.alloc s.chanInfoG]
  /-- The second copy of the configuration, with the flag. -/
  | finish : s.mainPc = .finish → MainMove s { s with
      chanInfoG := s.comm.chanInfo
      comm := { s.comm with chanChange := false }
      mainPc := .clearSrv } [.cleared s.comm.chanInfo]
  /-- The server flags are cleared. -/
  | clearSrv : s.mainPc = .clearSrv →
      MainMove s { s with serverClose := false, mainPc := .spawn } []
  /-- A server thread is started. -/
  | spawn (mem : Memory) : s.mainPc = .spawn → MainMove s { s with
      server := some (.init mem.rings)
      serverRunning := true
      mainPc := .poll } [.started]

/-- Where a step may end the program. -/
structure Core.MayFail (s : Core) (l : Label) : Prop where
  main : l.ofMain = true → s.mainPc = .poll ∨ s.mainPc = .alloc
  client : l.ofClient = true → s.client.pc = .start ∨ s.client.pc = .top ∨
    s.client.pc = .sending ∨
      (s.client.pc = .checking ∧ turn s.client.inhibitAdc s.client.rcvRing.contents = none)

/-- What a step of the program can do. -/
inductive Core.Move (s : Core) : Label → Core → List Event → Prop
  | main {io : MainIO} {s' : Core} {es : List Event} : MainMove s s' es →
      Core.Move s (.main io) s' es
  | client {io : ClientIO} {client : ClientThread} {comm : ClientComm} {dataRing : DataRing}
      {es : List Event} : ClientMove s.client s.comm s.dataRing client comm dataRing es →
      Core.Move s (.client io) { s with client := client, comm := comm, dataRing := dataRing } es
  | server {io : ServerIO} {t t' : ServerThread} {closeCmd : Bool} {es : List Event} :
      s.server = some t → t.pc ≠ .ended → ServerMove io s.chanInfoG s.dataRing t t' es →
      Core.Move s (.server io) { s with server := some t', serverClose := closeCmd } es
  /-- The end of the program. -/
  | fail {l : Label} (msg : String) : s.MayFail l → Core.Move s l { s with exited := some msg } []

/-- The second copy. -/
theorem MainMove.of_finish {s s' : Core} {es : List Event} (h : MainMove s s' es)
    (hpc : s.mainPc = .finish) :
    es = [.cleared s.comm.chanInfo] ∧ s' = { s with
      chanInfoG := s.comm.chanInfo
      comm := { s.comm with chanChange := false }
      mainPc := .clearSrv } := by
  cases h with
  | finish _ => exact ⟨rfl, rfl⟩
  | _ => simp_all

namespace Core

variable {s s' : Core} {l : Label} {es : List Event}

/-- **What a step of the main thread can do.** -/
theorem mainStep_cases {io : MainIO} (h : s.mainStep io = some (s', es)) :
    MainMove s s' es ∨ ∃ msg, (s.mainPc = .poll ∨ s.mainPc = .alloc) ∧
      s' = { s with exited := some msg } ∧ es = [] := by
  unfold mainStep at h
  cases hpc : s.mainPc <;> simp only [hpc] at h
  case poll =>
    by_cases hselect : io.select = true
    · rw [if_pos hselect] at h
      obtain ⟨rfl, rfl⟩ := Prod.mk.inj (Option.some.inj h)
      cases hflag : s.comm.chanChange with
      | false =>
        have hs : { s with mainPc := if false = true then MainPc.copy else MainPc.poll } = s := by
          rw [if_neg Bool.false_ne_true, ← hpc]
        rw [hs]
        exact .inl (.idle hpc hflag)
      | true => exact .inl (.seen hpc hflag)
    · rw [if_neg hselect] at h
      cases h
      exact .inr ⟨_, .inl rfl, rfl, rfl⟩
  case alloc =>
    split_ifs at h
    · cases h
      exact .inr ⟨_, .inr rfl, rfl, rfl⟩
    · cases h
      exact .inr ⟨_, .inr rfl, rfl, rfl⟩
    · cases h
      exact .inl (.alloc io.mem hpc)
  case join =>
    split_ifs at h with hended
    obtain ⟨rfl, rfl⟩ := Prod.mk.inj (Option.some.inj h)
    exact .inl (.join hpc hended)
  all_goals obtain ⟨rfl, rfl⟩ := Prod.mk.inj (Option.some.inj h)
  case copy => exact .inl (.copy hpc)
  case closeCmd => exact .inl (.closeCmd hpc)
  case dealloc => exact .inl (.dealloc hpc)
  case finish => exact .inl (.finish hpc)
  case clearSrv => exact .inl (.clearSrv hpc)
  case spawn => exact .inl (.spawn io.mem hpc)

/-- **What a step of the program can do.** -/
theorem step_cases (h : proxy.step s l = some (s', es)) : s.Move l s' es := by
  change s.step l = some (s', es) at h
  unfold step at h
  split_ifs at h
  cases l with
  | main io =>
    rcases mainStep_cases h with hmain | ⟨msg, hpc, rfl, rfl⟩
    · exact .main hmain
    · exact .fail msg ⟨fun _ => hpc, fun hl => by cases hl⟩
  | client io =>
    obtain ⟨rfl, rfl⟩ := Prod.mk.inj (Option.some.inj h)
    cases hstep : s.client.step io s.comm s.dataRing with
    | error msg =>
      exact .fail msg ⟨fun hl => (by cases hl), fun _ => ClientThread.step_error hstep⟩
    | ok r => exact .client (ClientThread.step_cases hstep)
  | server io =>
    simp only [serverStep] at h
    cases hserver : s.server with
    | none => simp [hserver] at h
    | some t =>
      simp only [hserver] at h
      split_ifs at h with hended
      cases hstep : t.step io s.serverClose s.chanInfoG s.dataRing with
      | error msg =>
        simp only [hstep, Option.some.injEq, Prod.mk.injEq] at h
        obtain ⟨rfl, rfl⟩ := h
        rw [← hserver]
        exact .fail msg ⟨fun hl => (by cases hl), fun hl => by cases hl⟩
      | ok r =>
        simp only [hstep, Option.some.injEq, Prod.mk.injEq] at h
        obtain ⟨rfl, rfl⟩ := h
        exact .server hserver hended (ServerThread.step_cases hstep)

theorem exited_of_step {r : Core × List Event} (h : proxy.step s l = some r) : s.exited = none := by
  change s.step l = some r at h
  unfold step at h
  split_ifs at h with hexited
  simpa using hexited

/-- A step that is not one of the client thread, or ends the program, leaves the client thread and
the published configuration alone, and shows no event of the client thread. -/
theorem Move.client_cases (hm : s.Move l s' es) :
    (s'.client = s.client ∧ s'.comm.chanInfo = s.comm.chanInfo ∧ (∀ e ∈ es, e.ofClient = false) ∧
      (l.ofClient = true → s.client.pc ≠ .publish)) ∨
    (l.ofClient = true ∧
      ClientMove s.client s.comm s.dataRing s'.client s'.comm s'.dataRing es) := by
  cases hm with
  | fail msg hmay =>
    refine .inl ⟨rfl, rfl, fun _ he => (by cases he), fun hl => ?_⟩
    rcases hmay.client hl with hpc | hpc | hpc | ⟨hpc, -⟩ <;> simp [hpc]
  | server _ _ hserver =>
    refine .inl ⟨rfl, rfl, ?_, fun hl => (by cases hl)⟩
    cases hserver <;> simp [Event.ofClient]
  | main hmain =>
    refine .inl ?_
    cases hmain <;> exact ⟨rfl, rfl, by simp [Event.ofClient], fun hl => (by cases hl)⟩
  | client hclient => exact .inr ⟨rfl, hclient⟩

/-- The client thread is in a pass that stores packets. -/
def Storing (s : Core) : Prop := s.client.InPass ∧ s.client.inhibitAdc = false

/-- What the flag says about the two threads. -/
structure Handshake (s : Core) : Prop where
  /-- While the main thread handles a change the flag is set. -/
  handling : s.mainPc.handling = true → s.comm.chanChange = true
  /-- While a pass stores packets the flag is clear. -/
  storing : s.Storing → s.comm.chanChange = false

theorem handshake_init (clientNo failtimer : ℤ) (mem : Memory) :
    (init clientNo failtimer mem).Handshake :=
  ⟨fun h => (by cases h), fun _ => rfl⟩

/-- The slots do not change under a pass that stores packets. -/
theorem Handshake.not_handling (h : s.Handshake) (hs : s.Storing) :
    s.mainPc.handling = false := by
  by_contra hm
  have := h.handling (by simpa using hm)
  simp [h.storing hs] at this

theorem Handshake.not_storing (h : s.Handshake) (hh : s.mainPc.handling = true) :
    ¬ s.Storing := by
  intro hs
  simp [h.not_handling hs] at hh

theorem Handshake.step (h : s.Handshake) (hm : s.Move l s' es) : s'.Handshake := by
  cases hm with
  | fail msg _ => exact ⟨h.handling, h.storing⟩
  | server _ _ _ => exact ⟨h.handling, h.storing⟩
  | main hmain =>
    cases hmain with
    | idle hpc hflag => exact h
    | seen hpc hflag => exact ⟨fun _ => hflag, h.storing⟩
    | copy hpc => exact ⟨fun _ => h.handling (by rw [hpc]; rfl), h.storing⟩
    | closeCmd hpc => exact ⟨fun _ => h.handling (by rw [hpc]; rfl), h.storing⟩
    | join hpc _ => exact ⟨fun _ => h.handling (by rw [hpc]; rfl), h.storing⟩
    | dealloc hpc => exact ⟨fun _ => h.handling (by rw [hpc]; rfl), h.storing⟩
    | alloc mem hpc => exact ⟨fun _ => h.handling (by rw [hpc]; rfl), h.storing⟩
    | finish hpc => exact ⟨fun hh => (by cases hh), fun _ => rfl⟩
    | clearSrv hpc => exact ⟨fun hh => (by cases hh), h.storing⟩
    | spawn mem hpc => exact ⟨fun hh => (by cases hh), h.storing⟩
  | client hclient =>
    cases hclient with
    | quiet _ hpc' _ _ _ =>
      refine ⟨h.handling, ?_⟩
      intro hs
      exact absurd hs.1 (ClientThread.not_inPass (by tauto))
    -- the flag just read is the one that decides whether the pass stores packets
    | sample hpc => exact ⟨h.handling, fun hs => hs.2⟩
    | check t hpc _ _ _ hinh _ _ _ _ =>
      exact ⟨h.handling, fun hs => h.storing ⟨.inl hpc, hinh ▸ hs.2⟩⟩
    | raise hpc _ => exact ⟨fun _ => rfl, fun hs => absurd hs.1 (ClientThread.not_inPass (by simp))⟩
    | keep hpc _ => exact ⟨h.handling, fun hs => absurd hs.1 (ClientThread.not_inPass (by simp))⟩

/-- **In every run the flag keeps the handling of a change and the storing of packets apart.** -/
theorem handshake_always (clientNo failtimer : ℤ) (mem : Memory) (ls : List Label) :
    proxy.Always (fun _ _ _ s' => s'.Handshake) (init clientNo failtimer mem) ls := by
  refine Machine.always_of_inv Handshake (handshake_init _ _ _) ?_ ls
  intro s l s' es h hstep
  exact ⟨h.step (step_cases hstep), h.step (step_cases hstep)⟩

/-- Where the main thread has no server thread running, the last one has ended. -/
def Stopped (s : Core) : Prop :=
  s.mainPc.serverOff = true ∨ s.serverRunning = false → s.serverEnded = true

theorem stopped_init (clientNo failtimer : ℤ) (mem : Memory) :
    (init clientNo failtimer mem).Stopped :=
  fun _ => rfl

/-- A server thread that takes a step is not stopped. -/
theorem Stopped.not_off (h : s.Stopped) {t : ServerThread} (ht : s.server = some t)
    (hpc : t.pc ≠ .ended) : ¬ (s.mainPc.serverOff = true ∨ s.serverRunning = false) := by
  intro hoff
  have hended := h hoff
  simp [serverEnded, ht, hpc] at hended

/-- The main thread starts a server thread last, and waits for its end before it goes on. -/
theorem Stopped.main (h : s.Stopped) (hm : MainMove s s' es) : s'.Stopped := by
  have hoff : s.mainPc.serverOff = true → s.serverEnded = true := fun hoff => h (.inl hoff)
  have hrun : s.serverRunning = false → s.serverEnded = true := fun hrun => h (.inr hrun)
  cases hm with
  | idle hpc hflag => exact h
  | seen hpc hflag =>
    rintro (hoff' | hrun')
    · cases hoff'
    · exact hrun hrun'
  | copy hpc =>
    intro hor
    cases hr : s.serverRunning with
    | false => exact hrun hr
    | true =>
      rw [hr] at hor
      rcases hor with hor | hor <;> cases hor
  | closeCmd hpc =>
    rintro (hoff' | hrun')
    · cases hoff'
    · exact hrun hrun'
  | join hpc hended => exact fun _ => hended
  | dealloc hpc => exact fun _ => hoff (by rw [hpc]; rfl)
  | alloc mem hpc => exact fun _ => hoff (by rw [hpc]; rfl)
  | finish hpc => exact fun _ => hoff (by rw [hpc]; rfl)
  | clearSrv hpc => exact fun _ => hoff (by rw [hpc]; rfl)
  | spawn mem hpc =>
    rintro (hoff' | hrun')
    · cases hoff'
    · cases hrun'

theorem Stopped.step (h : s.Stopped) (hm : s.Move l s' es) : s'.Stopped := by
  cases hm with
  | fail msg _ => exact h
  | client _ => exact h
  | server ht hpc _ =>
    intro hoff
    exact absurd hoff (h.not_off ht hpc)
  | main hmain => exact h.main hmain

theorem Handshake.slotSize (h : s.Handshake) (hm : s.Move l s' es) (hs : s'.Storing) :
    s'.dataRing.slotSize = s.dataRing.slotSize := by
  cases hm with
  | fail _ _ => rfl
  | server _ _ _ => rfl
  | main hmain =>
    -- the main thread is not in a change, so it neither frees nor allocates the slots
    have hnot : s.client = s'.client → s.mainPc.handling = false := by
      intro hclient
      apply h.not_handling
      rw [Storing, hclient]
      exact hs
    cases hmain with
    | dealloc hpc => simp [hpc, MainPc.handling] at hnot
    | alloc mem hpc => simp [hpc, MainPc.handling] at hnot
    | _ => rfl
  | client hclient =>
    cases hclient with
    | check t _ _ _ _ _ _ _ hring hhanded => exact hring ▸ hhanded.slotSize
    | _ => rfl

end Core

end SdrProxy
