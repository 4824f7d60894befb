import SdrProxy.Fragmentation
import SdrProxy.Items

/-!
# What remote clients are told

A remote client is sent the text of a configuration, and then packets.

* `Served` : the configuration each packet was received under, and the text each connection was sent
  last, read off the events;
* `PacketsAgree` : a packet is placed on a connection only behind the text of the configuration that
  was in force when it was received;
* `RingCurrent` : a pass that stores packets starts with none on the ring behind a configuration
  other than that in `chan_info_g`;
* `TextCurrent` : a text is placed while `chan_info_g` holds what the server thread was started
  with;
* `packetsAgree_of_current` : in a run with these two, what the clients are told is right;
* `packet_disagrees` : a packet that arrives behind a new channel info goes to clients that were
  sent the old one.
-/

namespace SdrProxy

/-- What the remote clients have to do with. -/
structure Served where
  /-- The last valid channel info received. -/
  last : Option ChannelInfo
  /-- The one that was in force when the packet of a time was received. -/
  conf : PacketTime → Option ChannelInfo
  /-- The text last placed on the send ring of a connection. -/
  text : ℕ → Option (List UInt8)
  /-- The configuration that the server thread was started with. -/
  served : Option ChannelInfo

namespace Served

/-- Nothing received and nothing sent. -/
def none : Served := ⟨.none, fun _ => .none, fun _ => .none, .none⟩

/-- What an event tells. -/
def see (g : Served) : Event → Served
  | .rcv (.accepted c) => { g with last := some c }
  | .rcv (.stored element _ ret) =>
    if ret = 0 then { g with conf := Function.update g.conf element.packetTime g.last } else g
  | .opened conn => { g with text := Function.update g.text conn .none }
  | .chanPlaced conn text => { g with text := Function.update g.text conn (some text) }
  | .cleared c => { g with served := some c }
  | _ => g

end Served

/-- If the event places a packet, the text in front of it is that of the configuration in force when
the packet was received. -/
def Event.Agrees (g : Served) : Event → Prop
  | packetPlaced conn element _ =>
    ∃ c ∈ g.conf element.packetTime, g.text conn = some (chanInfoText c)
  | _ => True

/-- Packets are placed behind the text of the configuration they were received under. -/
def PacketsAgree (sg : Core × Served) (_ : Label) (es : List Event) (_ : Core × Served) : Prop :=
  ∀ e ∈ es, e.Agrees sg.2

/-- A pass that stores packets after the first change was handled starts with none on the ring
behind a configuration other than that in `chan_info_g`. -/
def RingCurrent (sg : Core × Served) (l : Label) (_ : List Event) (_ : Core × Served) : Prop :=
  sg.1.StartsPass l → EachPacket (fun _ c => some c)
    (fun last _ => sg.2.served ≠ none → last = some sg.1.chanInfoG) sg.2.last
    (items sg.1.client.rcvRing.contents)

/-- The server thread is about to place a text on a connection. -/
def PlacesTextNow (s : Core) (l : Label) : Prop :=
  match l, s.server with
  | .server io, some t =>
    match t.pc with
    | .service conn => PlacesText io (t.connData conn)
    | _ => False
  | _, _ => False

/-- A text is placed while `chan_info_g` holds what the server thread was started with. -/
def TextCurrent (sg : Core × Served) (l : Label) (_ : List Event) (_ : Core × Served) : Prop :=
  PlacesTextNow sg.1 l → sg.2.served = some sg.1.chanInfoG

section

variable (sg : Core × Served) (l : Label) (es : List Event) (sg' : Core × Served)

instance (g : Served) (e : Event) : Decidable (e.Agrees g) := by
  unfold Event.Agrees
  split <;> infer_instance

instance : Decidable (PacketsAgree sg l es sg') :=
  inferInstanceAs (Decidable (∀ e ∈ es, e.Agrees sg.2))

instance : Decidable (RingCurrent sg l es sg') := inferInstanceAs (Decidable (_ → _))

instance (s : Core) : Decidable (PlacesTextNow s l) := by
  unfold PlacesTextNow
  split
  · split <;> infer_instance
  · infer_instance

instance : Decidable (TextCurrent sg l es sg') := inferInstanceAs (Decidable (_ → _))

end

/-- The main thread is not between its two copies of the configuration. -/
def MainPc.copied : MainPc → Bool
  | poll | copy | clearSrv | spawn => true
  | _ => false

/-- The text of a configuration as it is placed on a send ring. -/
def placedText (c : ChannelInfo) : List UInt8 := (chanInfoText c).take CHANINFOLEN

/-- The invariant. -/
structure Served.Ok (g : Served) (s : Core) : Prop where
  handshake : s.Handshake
  rest : s.RestMeets (fun _ c => some c)
    (fun last _ => g.served ≠ .none → last = some s.chanInfoG) g.last
  ring : s.dataRing.Ok
  last_valid : ∀ c ∈ g.last, c.Valid
  conf_valid : ∀ time, ∀ c ∈ g.conf time, c.Valid
  /-- The packets of the data ring were received under the configuration that is served. -/
  stored : g.served ≠ .none → ∀ e ∈ s.dataRing.entries, g.conf e.1 = g.served
  /-- At the second copy the data ring is empty. -/
  fresh : s.mainPc = .finish → s.dataRing.entries = []
  current : g.served ≠ .none → s.mainPc.copied = true → g.served = some s.chanInfoG
  off : s.mainPc.serverOff = true ∨ s.serverRunning = false → s.serverEnded = true
  started : s.serverEnded = false → g.served ≠ .none
  handled : s.mainPc = .clearSrv ∨ s.mainPc = .spawn → g.served ≠ .none
  /-- The connections that packets are sent to were sent the text of what is served. -/
  text : ∀ t ∈ s.server, t.pc ≠ .ended → ∀ i, (t.connData i).Sends →
    g.text i = g.served.map placedText

variable {g : Served} {s s' : Core} {l : Label} {es : List Event}

namespace Served

theorem last_foldl (g : Served) (es : List Event) :
    (es.foldl see g).last = es.foldl (noteEvent fun _ c => some c) g.last := by
  induction es generalizing g with
  | nil => rfl
  | cons e es ih =>
    rw [List.foldl_cons, List.foldl_cons, ih]
    congr 1
    cases e with
    | rcv e =>
      cases e with
      | accepted c => rfl
      | stored element pkt ret =>
        simp only [see, noteEvent]
        split_ifs <;> rfl
    | _ => rfl

theorem ok_init (clientNo failtimer : ℤ) (mem : Memory) :
    none.Ok (.init clientNo failtimer mem) where
  handshake := Core.handshake_init _ _ _
  rest := Core.restMeets_init _ _ _
  ring := DataRing.ok_alloc _ _
  last_valid _ hc := by cases hc
  conf_valid _ _ hc := by cases hc
  stored hserved := absurd rfl hserved
  fresh hpc := by cases hpc
  current hserved := absurd rfl hserved
  off _ := rfl
  started hended := by cases hended
  handled hpc := by rcases hpc with hpc | hpc <;> cases hpc
  text _ ht := by cases ht

/-- The main thread moves on and touches nothing but its own variables and the server flags. -/
theorem Ok.move (h : g.Ok s) {pc : MainPc} {running close : Bool}
    (hshake : ({ s with mainPc := pc, serverRunning := running, serverClose := close } :
      Core).Handshake)
    (hfinish : pc ≠ .finish) (hcopied : pc.copied = true → s.mainPc.copied = true)
    (hstop : ({ s with mainPc := pc, serverRunning := running, serverClose := close } :
      Core).Stopped)
    (hhandled : pc = .clearSrv ∨ pc = .spawn → g.served ≠ .none) :
    g.Ok { s with mainPc := pc, serverRunning := running, serverClose := close } :=
  { h with
    handshake := hshake
    rest := ⟨h.rest.each⟩
    fresh := fun hpc => absurd hpc hfinish
    current := fun hserved hpc => h.current hserved (hcopied hpc)
    off := hstop
    handled := hhandled }

theorem Ok.renew (h : g.Ok s) {dataRing : DataRing} {pc : MainPc}
    (hshake : ({ s with dataRing := dataRing, mainPc := pc } : Core).Handshake)
    (hstop : ({ s with dataRing := dataRing, mainPc := pc } : Core).Stopped)
    (hring : dataRing.Ok) (hempty : dataRing.entries = []) (hcopied : pc.copied = false)
    (hhandled : pc ≠ .clearSrv ∧ pc ≠ .spawn) :
    g.Ok { s with dataRing := dataRing, mainPc := pc } :=
  { h with
    handshake := hshake
    rest := ⟨h.rest.each⟩
    ring := hring
    stored := fun _ e he => by
      dsimp only at he
      rw [hempty] at he
      cases he
    fresh := fun _ => hempty
    current := fun _ hpc => by simp [hcopied] at hpc
    off := hstop
    handled := fun hpc => (not_or.2 hhandled hpc).elim }

/-- The first copy of the configuration: the packets cached are no longer those of `chan_info_g`,
which nobody relies on until the second copy. -/
theorem Ok.copy (h : g.Ok s) (hpc : s.mainPc = .copy) {pc : MainPc}
    (hnext : pc = if s.serverRunning then .closeCmd else .dealloc)
    (hshake : ({ s with chanInfoG := s.comm.chanInfo, mainPc := pc } : Core).Handshake)
    (hstop : ({ s with chanInfoG := s.comm.chanInfo, mainPc := pc } : Core).Stopped) :
    g.Ok { s with chanInfoG := s.comm.chanInfo, mainPc := pc } := by
  have hrest := h.handshake.not_storing (by rw [hpc]; rfl)
  have hcopied : pc.copied = false := by rw [hnext]; split_ifs <;> rfl
  have hfinish : pc ≠ .finish := by rw [hnext]; split_ifs <;> simp
  have hhandled : ¬ (pc = .clearSrv ∨ pc = .spawn) := by rw [hnext]; split_ifs <;> simp
  exact { h with
    handshake := hshake
    rest := Core.restMeets_of_not_storing hrest
    fresh := fun hpc' => absurd hpc' hfinish
    current := fun _ hpc' => by simp [hcopied] at hpc'
    off := hstop
    handled := fun hpc' => absurd hpc' hhandled }

/-- The second copy: what is served from now on is the configuration in `chan_info_g`, of which
nothing is cached yet, and no server thread is running. -/
theorem Ok.finish (h : g.Ok s) (hpc : s.mainPc = .finish) {s' : Core}
    (hs' : s' = { s with
      chanInfoG := s.comm.chanInfo
      comm := { s.comm with chanChange := false }
      mainPc := .clearSrv })
    (hshake : s'.Handshake) (hstop : s'.Stopped) : (g.see (.cleared s.comm.chanInfo)).Ok s' := by
  subst hs'
  have hended := h.off (.inl (by rw [hpc]; rfl))
  exact { h with
    handshake := hshake
    rest := Core.restMeets_of_not_storing (h.handshake.not_storing (by rw [hpc]; rfl))
    stored := fun _ e he => by
      dsimp only at he
      rw [h.fresh hpc] at he
      cases he
    fresh := fun hpc' => by cases hpc'
    current := fun _ _ => rfl
    off := hstop
    started := fun _ => by simp [see]
    handled := fun _ => by simp [see]
    -- the server thread of before has ended
    text := fun t ht hpc' => by
      have ht' : s.server = some t := ht
      simp [Core.serverEnded, ht', hpc'] at hended }

theorem Ok.spawn (h : g.Ok s) (hpc : s.mainPc = .spawn) (mem : Memory)
    (hshake : ({ s with
      server := some (.init mem.rings)
      serverRunning := true
      mainPc := .poll } : Core).Handshake)
    (hstop : ({ s with
      server := some (.init mem.rings)
      serverRunning := true
      mainPc := .poll } : Core).Stopped) :
    g.Ok { s with server := some (.init mem.rings), serverRunning := true, mainPc := .poll } :=
  { h with
    handshake := hshake
    rest := ⟨h.rest.each⟩
    fresh := fun hpc' => by cases hpc'
    current := fun hserved _ => h.current hserved (by rw [hpc]; rfl)
    off := hstop
    started := fun _ => h.handled (.inr hpc)
    handled := fun hpc' => by rcases hpc' with hpc' | hpc' <;> cases hpc'
    text := fun t ht _ i hs => by
      obtain rfl := Option.some.inj ht
      cases hs }

theorem Ok.main (h : g.Ok s) (hm : MainMove s s' es) (hshake : s'.Handshake) :
    (es.foldl see g).Ok s' := by
  have hno : ∀ {pc : MainPc}, pc ≠ .clearSrv ∧ pc ≠ .spawn →
      pc = .clearSrv ∨ pc = .spawn → g.served ≠ .none :=
    fun hpc hor => (not_or.2 hpc hor).elim
  have hstop : s'.Stopped := Core.Stopped.main h.off hm
  cases hm with
  | idle _ _ => exact h
  | seen hpc _ =>
    exact h.move hshake (by decide) (fun _ => by rw [hpc]; rfl) hstop (hno (by decide))
  | copy hpc => exact h.copy hpc rfl hshake hstop
  | closeCmd hpc =>
    exact h.move hshake (by decide) (fun hc => by cases hc) hstop (hno (by decide))
  | join hpc hended =>
    exact h.move hshake (by decide) (fun hc => by cases hc) hstop (hno (by decide))
  | dealloc hpc =>
    exact h.renew hshake hstop (DataRing.ok_dealloc h.ring) (DataRing.entries_dealloc _) rfl
      (by decide)
  | alloc mem hpc =>
    exact h.renew hshake hstop (DataRing.ok_alloc _ _) (DataRing.entries_alloc _ _) rfl (by decide)
  | finish hpc => exact h.finish hpc rfl hshake hstop
  | clearSrv hpc =>
    exact h.move hshake (by decide) (fun _ => by rw [hpc]; rfl) hstop
      (fun _ => h.handled (.inl hpc))
  | spawn mem hpc => exact h.spawn hpc mem hshake hstop

theorem placedText_eq {c : ChannelInfo} (h : c.Valid) : placedText c = chanInfoText c :=
  List.take_of_length_le (length_chanInfoText h).le

theorem Ok.agrees (h : g.Ok s) {t : ServerThread} (ht : s.server = some t) (hpc : t.pc ≠ .ended)
    {conn : ℕ} {time : PacketTime} {element : PacketInfo} {pkt : List UInt8}
    (hs : (t.connData conn).Sends) (hretr : (s.dataRing.retr time).2 = some (element, pkt)) :
    (Event.packetPlaced conn element pkt).Agrees g := by
  have hserved : g.served ≠ .none := h.started (by simp [Core.serverEnded, ht, hpc])
  have hconf := h.stored hserved _ (DataRing.mem_entries_retr h.ring hretr)
  have htext := h.text t ht hpc conn hs
  obtain ⟨c, hc⟩ := Option.ne_none_iff_exists'.1 hserved
  rw [hc] at hconf htext
  refine ⟨c, hconf, ?_⟩
  rw [htext, Option.map_some, placedText_eq (h.conf_valid _ c hconf)]

theorem Ok.serve (h : g.Ok s) {t t' : ServerThread} {closeCmd : Bool} (ht : s.server = some t)
    (hpc : t.pc ≠ .ended) {text : ℕ → Option (List UInt8)}
    (htext : ∀ i, (t'.connData i).Sends → text i = g.served.map placedText) :
    ({ g with text := text } : Served).Ok
      { s with server := some t', serverClose := closeCmd } := by
  have hrunning : s.serverEnded = false := by simp [Core.serverEnded, ht, hpc]
  exact { h with
    handshake := ⟨h.handshake.handling, h.handshake.storing⟩
    rest := ⟨h.rest.each⟩
    off := fun hoff => by simp [h.off hoff] at hrunning
    started := fun _ => h.started hrunning
    text := fun t₁ ht₁ _ => by
      obtain rfl := Option.some.inj ht₁
      exact htext }

theorem Ok.server (h : g.Ok s) {io : ServerIO} {t t' : ServerThread} {closeCmd : Bool}
    (ht : s.server = some t) (hpc : t.pc ≠ .ended)
    (hm : ServerMove io s.chanInfoG s.dataRing t t' es)
    (htext : PlacesTextNow s (.server io) → g.served = some s.chanInfoG) :
    (es.foldl see g).Ok { s with server := some t', serverClose := closeCmd } ∧
      ∀ e ∈ es, e.Agrees g := by
  have hold := h.text t ht hpc
  cases hm with
  | quiet hsends =>
    exact ⟨h.serve ht hpc fun i hs => hold i (hsends i hs), fun _ he => by cases he⟩
  | opened conn hnot hsends =>
    refine ⟨h.serve ht hpc fun i hs => ?_, fun e he => by rw [List.mem_singleton.1 he]; trivial⟩
    have hne : i ≠ conn := fun heq => hnot (heq ▸ hs)
    exact (Function.update_of_ne hne _ _).trans (hold i (hsends i hs))
  | text conn hserv hplaces hsends =>
    refine ⟨h.serve ht hpc fun i hs => ?_, fun e he => by rw [List.mem_singleton.1 he]; trivial⟩
    have hserved : g.served = some s.chanInfoG :=
      htext (by simpa only [PlacesTextNow, ht, hserv] using hplaces)
    by_cases hi : i = conn
    · rw [hi, Function.update_self, hserved]
      rfl
    · rw [Function.update_of_ne hi]
      exact hold i (hsends i hi hs)
  | packet conn time element pkt hs hretr hsends =>
    refine ⟨h.serve ht hpc fun i hs => hold i (hsends i hs), fun e he => ?_⟩
    rw [List.mem_singleton.1 he]
    exact h.agrees ht hpc hs hretr

/-- The packet noted under a time came under the last configuration. -/
theorem Ok.conf_valid_update (h : g.Ok s) (t time : PacketTime) :
    ∀ c ∈ Function.update g.conf t g.last time, c.Valid := by
  intro c hc
  by_cases htime : time = t
  · subst htime
    rw [Function.update_self] at hc
    exact h.last_valid c hc
  · rw [Function.update_of_ne htime] at hc
    exact h.conf_valid time c hc

theorem Ok.handed (h : g.Ok s) {item : Option Item} {p' : RcvPath} {events : List RcvEvent}
    (hm : Handed item (s.client.path s.dataRing) p' events)
    (hvalid : ∀ c, item = some (.chan c) → c.Valid)
    (hstores : ∀ element pkt ret, .stored element pkt ret ∈ events →
      s.Storing ∧ (g.served ≠ .none → g.last = some s.chanInfoG)) :
    p'.dataRing.Ok ∧ (∀ c ∈ ((events.map .rcv).foldl see g).last, c.Valid) ∧
      (∀ time, ∀ c ∈ ((events.map .rcv).foldl see g).conf time, c.Valid) ∧
      (g.served ≠ .none → ∀ e ∈ p'.dataRing.entries,
        ((events.map .rcv).foldl see g).conf e.1 = g.served) ∧
      (s.mainPc = .finish → p'.dataRing.entries = []) := by
  cases hm with
  | none _ hring =>
    rw [hring]
    exact ⟨h.ring, h.last_valid, h.conf_valid, h.stored, h.fresh⟩
  | chan c _ hring =>
    rw [hring]
    refine ⟨h.ring, ?_, h.conf_valid, h.stored, h.fresh⟩
    intro d hd
    obtain rfl := Option.some.inj hd
    exact hvalid c rfl
  | adc element pktImg pkt ret _ _ hstore =>
    obtain ⟨hstoring, hlast⟩ := hstores element pkt ret (by simp)
    obtain ⟨hok, hmem⟩ := DataRing.mem_entries_store h.ring hstore
    -- the pass is not inhibited, so the main thread is not between its copies
    have hhandling := h.handshake.not_handling hstoring
    have hcopied : g.served ≠ .none → g.last = g.served := by
      intro hserved
      rw [hlast hserved]
      refine (h.current hserved ?_).symm
      cases hpc : s.mainPc <;> simp_all [MainPc.handling, MainPc.copied]
    refine ⟨hok, ?_⟩
    simp only [List.map_cons, List.map_nil, List.foldl_cons, List.foldl_nil, see]
    by_cases hret : ret = 0
    · simp only [hret, ↓reduceIte]
      refine ⟨h.last_valid, ?_, ?_, ?_⟩
      · exact h.conf_valid_update element.packetTime
      · -- an entry with the time of the packet is the packet: one of before was replaced
        intro hserved e he
        by_cases htime : e.1 = element.packetTime
        · rw [htime, Function.update_self, hcopied hserved]
        · rw [Function.update_of_ne htime]
          rcases hmem e he with ⟨-, rfl⟩ | hold
          · exact absurd rfl htime
          · exact h.stored hserved e hold
      · intro hpc
        simp [hpc, MainPc.handling] at hhandling
    · simp only [hret, ↓reduceIte]
      refine ⟨h.last_valid, h.conf_valid, ?_, ?_⟩
      · intro hserved e he
        rcases hmem e he with ⟨hzero, -⟩ | hold
        · exact absurd hzero hret
        · exact h.stored hserved e hold
      · intro hpc
        simp [hpc, MainPc.handling] at hhandling

theorem served_rcv (g : Served) (events : List RcvEvent) :
    ((events.map .rcv).foldl see g).served = g.served ∧
      ((events.map .rcv).foldl see g).text = g.text := by
  induction events generalizing g with
  | nil => exact ⟨rfl, rfl⟩
  | cons e events ih =>
    obtain ⟨h₁, h₂⟩ := ih (see g (.rcv e))
    refine ⟨h₁.trans ?_, h₂.trans ?_⟩ <;> cases e <;> simp only [see] <;> split_ifs <;> rfl

theorem Ok.client (h : g.Ok s) {io : ClientIO} {client : ClientThread} {comm : ClientComm}
    {dataRing : DataRing} (hm : ClientMove s.client s.comm s.dataRing client comm dataRing es)
    (hshake : ({ s with client := client, comm := comm, dataRing := dataRing } : Core).Handshake)
    (hring : s.StartsPass (.client io) → EachPacket (fun _ c => some c)
      (fun last _ => g.served ≠ .none → last = some s.chanInfoG) g.last
      (items s.client.rcvRing.contents)) :
    (es.foldl see g).Ok { s with client := client, comm := comm, dataRing := dataRing } ∧
      ∀ e ∈ es, e.Agrees g := by
  have hmove : s.Move (.client io) _ es := .client hm
  obtain ⟨hstores, hrest⟩ := h.rest.step hmove hring
  rw [← last_foldl] at hrest
  cases hm with
  | quiet _ _ _ _ _ =>
    exact ⟨{ h with handshake := hshake, rest := hrest }, fun _ he => by cases he⟩
  | sample _ => exact ⟨{ h with handshake := hshake, rest := hrest },
      fun e he => by rw [List.mem_singleton.1 he]; trivial⟩
  | raise _ _ => exact ⟨{ h with handshake := hshake, rest := hrest },
      fun e he => by rw [List.mem_singleton.1 he]; trivial⟩
  | keep _ _ => exact ⟨{ h with handshake := hshake, rest := hrest },
      fun e he => by rw [List.mem_singleton.1 he]; trivial⟩
  | @check _ _ _ events t _ ht _ _ _ _ _ hdata hhanded =>
    subst hdata
    obtain ⟨hok, hlast, hconf, hstored, hfresh⟩ := h.handed hhanded
      (fun c hc => item_valid ht hc) (fun element pkt ret he => by
        obtain ⟨hs, -, hp⟩ := hstores element pkt ret (List.mem_map_of_mem he)
        exact ⟨hs, hp⟩)
    obtain ⟨hserved, htext⟩ := served_rcv g events
    refine ⟨?_, fun e he => ?_⟩
    · exact {
        handshake := hshake
        rest := by rwa [hserved]
        ring := hok
        last_valid := hlast
        conf_valid := hconf
        stored := by rwa [hserved]
        fresh := hfresh
        current := by rw [hserved]; exact h.current
        off := h.off
        started := by rw [hserved]; exact h.started
        handled := by rw [hserved]; exact h.handled
        text := by rw [hserved, htext]; exact h.text }
    · obtain ⟨e', -, rfl⟩ := List.mem_map.1 he
      trivial

end Served

/-- In a run in which every pass that stores packets starts with none behind a configuration other
than that in `chan_info_g`, and texts are placed while that is what the server thread was started
with, **every packet that a client is sent follows the text of the configuration it was received
under**. -/
theorem packetsAgree_of_current (clientNo failtimer : ℤ) (mem : Memory) (ls : List Label)
    (hring : (proxy.watch Served.see).Always RingCurrent (.init clientNo failtimer mem, .none) ls)
    (htext : (proxy.watch Served.see).Always TextCurrent (.init clientNo failtimer mem, .none) ls) :
    (proxy.watch Served.see).Always PacketsAgree (.init clientNo failtimer mem, .none) ls := by
  refine Machine.always_imp (fun sg => sg.2.Ok sg.1) (Served.ok_init _ _ _) ?_ ls
    ((Machine.always_and ls).2 ⟨hring, htext⟩)
  rintro ⟨s, g⟩ l ⟨s', g'⟩ es hok hstep ⟨hring, htext⟩
  obtain ⟨hstep, rfl⟩ := Machine.watch_step.1 hstep
  have hm := Core.step_cases hstep
  have hshake := hok.handshake.step hm
  cases hm with
  | fail msg _ =>
    exact ⟨{ hok with handshake := hshake, rest := ⟨hok.rest.each⟩ }, fun _ he => by cases he⟩
  | main hmain =>
    refine ⟨hok.main hmain hshake, fun e he => ?_⟩
    cases hmain <;> simp_all [Event.Agrees]
  | client hclient => exact hok.client hclient hshake hring
  | server ht hpc hserver => exact hok.server ht hpc hserver htext

/-- A packet of the first day of 2020. -/
def datedPacket : List UInt8 :=
  (Message.adc ⟨0, [0xE4, 7, 1, 0, 0, 0, 1] ++ List.replicate 15 0, by decide, by decide,
    by decide⟩).encode

/-- A client that is sent the text of a configuration and then a packet received under it. -/
theorem packetsAgree_one :
    (proxy.watch Served.see).Always PacketsAgree (.init (-1) 0 .zero, .none)
      (clientConnects ++ clientPass (chanInfoText ⟨10, 1, 1⟩) 2 ++ mainSteps 7 ++ clientServed ++
        clientPass datedPacket 2 ++ serverSteps 1) :=
  packetsAgree_of_current _ _ _ _ (by decide +kernel) (by decide +kernel)

/-- A packet that arrives behind a new channel info is cached in the same pass, and goes to a client
that was sent the old text. -/
theorem packet_disagrees :
    ¬ (proxy.watch Served.see).Always PacketsAgree (.init (-1) 0 .zero, .none)
      (clientConnects ++ clientPass (chanInfoText ⟨10, 1, 1⟩) 2 ++ mainSteps 7 ++ clientServed ++
        clientPass (chanInfoText ⟨20, 1, 1⟩ ++ datedPacket) 3 ++ serverSteps 1) := by
  decide +kernel

end SdrProxy
