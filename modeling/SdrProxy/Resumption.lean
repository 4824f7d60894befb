import SdrProxy.Agreement
import SdrProxy.Exchange
import SdrProxy.Lib.Cursor

/-!
# What a client is given over all its connections

The server thread keeps for each client the time up to where it was served, which outlives the
connections of the client.  A client that comes back is set back by `SECONDS_OVERLAP`.

* `Visits` : what can be seen of the clients of a server thread, each call and each packet that is
  placed for them;
* `Visits.Of` : on the switchboard the visits of a client say where its mark is (`Visits.Of.step`),
  and so they do on the exchange (`Accord.step`) and in the program (`Tracked.step`);
* `no_gaps` : since a call, a client was given every packet behind the mark, up to the latest one;
* `resent_rarely` : it is not given a packet more often than it calls, and what it is given again
  lies `SECONDS_OVERLAP` back for each call.
-/

namespace SdrProxy

/-! ### Visits -/

/-- What can be seen of the clients. -/
structure Visits where
  /-- The client on each connection. -/
  client : ℕ → Option Address
  /-- What each client did and was given, the newest first. -/
  log : Address → List (Visit PacketTime)

namespace Visits

/-- Nothing was seen. -/
def none : Visits := ⟨fun _ => .none, fun _ => []⟩

/-- What an event says. -/
def seeEvent (pc : ServerPc) (io : ServerIO) (g : Visits) : Event → Visits
  | .opened conn => match Clients.accepted pc io with
    | some a => ⟨Function.update g.client conn (some a),
        Function.update g.log a (.called :: g.log a)⟩
    | .none => g
  | .packetPlaced conn element _ => match g.client conn with
    | some a => { g with log := Function.update g.log a (.read element.packetTime :: g.log a) }
    | .none => g
  | _ => g

/-- What a step says. -/
def see (pc : ServerPc) (io : ServerIO) (g : Visits) (es : List Event) : Visits :=
  es.foldl (seeEvent pc io) g

end Visits

/-- The mark of a client that had these visits. -/
def markOf : List (Visit PacketTime) → Option PacketTime :=
  cursor 0 fun time => time - SECONDS_OVERLAP

/-- The visits of a client go on, if the packets of these times are served. -/
def GoesOn (times : Set PacketTime) (vs vs' : List (Visit PacketTime)) : Prop :=
  Extends 0 (fun time => time - SECONDS_OVERLAP) times vs vs'

/-! ### The switchboard -/

/-- The packets are listed under their times, which are whole milliseconds. -/
def PacketMap.Timed (cache : PacketMap) : Prop :=
  ∀ time v, cache.get time = some v → v.1.packetTime = time ∧ Millis time

/-- The visits of the clients say where their marks are. -/
structure Visits.Of (o : Switchboard) (g : Visits) : Prop where
  client : ∀ i s, o.sessions i = some s → g.client i = some s.client
  mark : ∀ a, o.marks a = markOf (g.log a)
  known : ∀ i s, o.sessions i = some s → (o.marks s.client).isSome
  millis : ∀ a m, o.marks a = some m → Millis m

theorem Visits.of_init : Visits.none.Of .init :=
  ⟨by simp [Switchboard.init], fun _ => rfl, by simp [Switchboard.init], by simp [Switchboard.init]⟩

theorem millis_overlap {m : PacketTime} (h : Millis m) : Millis (m - SECONDS_OVERLAP) := by
  obtain ⟨k, rfl⟩ := h
  refine ⟨k - 4000, ?_⟩
  rw [SECONDS_OVERLAP]
  push_cast
  ring

/-- The packet behind a mark. -/
theorem nextPacket_eq_some {cache : PacketMap} {m : PacketTime} {element : PacketInfo}
    {pkt : List UInt8} (htimed : cache.Timed) (hm : Millis m)
    (h : Switchboard.nextPacket cache m = some (element, pkt)) :
    IsLeast ({time | time ∈ cache.dom} ∩ Set.Ioi m) element.packetTime ∧
      Millis element.packetTime := by
  obtain ⟨⟨time, v⟩, hnext, rfl⟩ := Option.map_eq_some_iff.1 h
  obtain ⟨hget, ⟨hmem, hle⟩, hleast⟩ := FinMap.isLeast_of_next hnext
  obtain ⟨htime, hmillis⟩ := htimed time _ hget
  dsimp only at htime
  rw [htime]
  refine ⟨⟨⟨hmem, ?_⟩, ?_⟩, hmillis⟩
  · exact lt_of_lt_of_le (by norm_num) hle
  · rintro j ⟨hj, hmj⟩
    obtain ⟨w, hw⟩ := (cache.mem_dom j).1 hj
    exact hleast ⟨hj, hm.succ_le (htimed j w hw).2 hmj⟩

/-- What a service of a session places: nothing, a text or the packet that is next. -/
theorem Session.placed_of_service {s : Session} {io : ServerIO} {text : List UInt8}
    {next : Option (PacketInfo × List UInt8)} {conn : ℕ} {s' : Option Session}
    {placed : Option PacketTime} {es : List Event}
    (h : s.service io text next conn = some (s', placed, es)) :
    (placed = none ∧ (es = [] ∨ ∃ text, es = [.chanPlaced conn text])) ∨
      ∃ element pkt, next = some (element, pkt) ∧ placed = some element.packetTime ∧
        es = [.packetPlaced conn element pkt] := by
  have hturn : ((s.hear io).turn text next conn).2 = (placed, es) := by
    unfold service at h
    dsimp only at h
    split at h
    · exact congrArg Prod.snd (Option.some.inj h)
    · obtain ⟨s'', -, heq⟩ := Option.map_eq_some_iff.1 h
      exact congrArg Prod.snd heq
  unfold turn at hturn
  split at hturn
  · cases hturn
    exact .inl ⟨rfl, .inl rfl⟩
  · cases hturn
    exact .inl ⟨rfl, .inl rfl⟩
  · cases hturn
    exact .inl ⟨rfl, .inl rfl⟩
  · split_ifs at hturn <;> cases hturn
    · exact .inl ⟨rfl, .inr ⟨_, rfl⟩⟩
    · exact .inl ⟨rfl, .inl rfl⟩
  · cases next with
    | none =>
      cases hturn
      exact .inl ⟨rfl, .inl rfl⟩
    | some found =>
      dsimp only at hturn
      split_ifs at hturn <;> cases hturn
      · exact .inr ⟨_, _, rfl, rfl, rfl⟩
      · exact .inl ⟨rfl, .inl rfl⟩

variable {o o' : Switchboard} {g : Visits} {l : SwitchboardLabel} {es : List Event}

/-- The record `g` of the switchboard goes on as `g'`: it says where the marks are now, and the
visits of each client go on. -/
structure Visits.Follows (l : SwitchboardLabel) (g g' : Visits) (o' : Switchboard) : Prop where
  is_of : g'.Of o'
  goesOn : ∀ a, g'.log a = g.log a ∨ GoesOn {time | time ∈ l.cache.dom} (g.log a) (g'.log a)

theorem Visits.Of.follows (h : g.Of o) (l : SwitchboardLabel) : g.Follows l g o :=
  ⟨h, fun _ => .inl rfl⟩

/-- The visits go on at a service. -/
theorem Visits.Of.serve (h : g.Of o) (htimed : l.cache.Timed) {conn : ℕ} {pc : ServerPc}
    (hserve : o.serve l conn = some (o', es)) : g.Follows l (g.see pc l.io es) o' := by
  unfold Switchboard.serve at hserve
  cases hsession : o.sessions conn with
  | none =>
    rw [hsession] at hserve
    cases hserve
    exact h.follows l
  | some s =>
    rw [hsession] at hserve
    obtain ⟨⟨s', placed, es'⟩, hservice, heq⟩ := Option.map_eq_some_iff.1 hserve
    cases heq
    have hclient := h.client conn s hsession
    obtain ⟨m, hm⟩ := Option.isSome_iff_exists.1 (h.known conn s hsession)
    rw [hm, Option.getD_some] at hservice
    -- the sessions after the service are those of the same clients
    have hsessions : ∀ i s₁, Function.update o.sessions conn s' i = some s₁ →
        ∃ s₀, o.sessions i = some s₀ ∧ s₀.client = s₁.client := by
      intro i s₁ hs₁
      by_cases hi : i = conn
      · subst hi
        rw [Function.update_self] at hs₁
        subst hs₁
        exact ⟨s, hsession, (Session.client_of_service hservice).symm⟩
      · rw [Function.update_of_ne hi] at hs₁
        exact ⟨s₁, hs₁, rfl⟩
    rcases Session.placed_of_service hservice with ⟨rfl, hes⟩ | ⟨element, pkt, hnext, rfl, rfl⟩
    · have hsee : g.see pc l.io es = g := by
        rcases hes with rfl | ⟨text, rfl⟩ <;> rfl
      rw [hsee]
      refine ⟨⟨?_, h.mark, ?_, h.millis⟩, fun _ => .inl rfl⟩
      · intro i s₁ hs₁
        obtain ⟨s₀, hs₀, heq⟩ := hsessions i s₁ hs₁
        exact heq ▸ h.client i s₀ hs₀
      · intro i s₁ hs₁
        obtain ⟨s₀, hs₀, heq⟩ := hsessions i s₁ hs₁
        exact heq ▸ h.known i s₀ hs₀
    · obtain ⟨hleast, hmillis⟩ := nextPacket_eq_some htimed (h.millis _ m hm) hnext
      have hsee : g.see pc l.io [.packetPlaced conn element pkt] =
          ⟨g.client, Function.update g.log s.client
            (.read element.packetTime :: g.log s.client)⟩ := by
        show g.seeEvent pc l.io (.packetPlaced conn element pkt) = _
        rw [seeEvent, hclient]
      rw [hsee]
      refine ⟨⟨?_, ?_, ?_, ?_⟩, ?_⟩
      · intro i s₁ hs₁
        obtain ⟨s₀, hs₀, heq⟩ := hsessions i s₁ hs₁
        exact heq ▸ h.client i s₀ hs₀
      · intro a
        show Function.update o.marks s.client (some element.packetTime) a =
          markOf (Function.update g.log s.client _ a)
        by_cases ha : a = s.client
        · rw [ha, Function.update_self, Function.update_self]
          rfl
        · rw [Function.update_of_ne ha, Function.update_of_ne ha]
          exact h.mark a
      · intro i s₁ hs₁
        obtain ⟨s₀, hs₀, heq⟩ := hsessions i s₁ hs₁
        show (Function.update o.marks s.client (some element.packetTime) s₁.client).isSome
        by_cases ha : s₁.client = s.client
        · rw [ha, Function.update_self]
          rfl
        · rw [Function.update_of_ne ha, ← heq]
          exact h.known i s₀ hs₀
      · intro a m' hm'
        change Function.update o.marks s.client (some element.packetTime) a = some m' at hm'
        by_cases ha : a = s.client
        · rw [ha, Function.update_self] at hm'
          obtain rfl := Option.some.inj hm'
          exact hmillis
        · rw [Function.update_of_ne ha] at hm'
          exact h.millis a m' hm'
      · intro a
        show Function.update g.log s.client _ a = _ ∨
          GoesOn _ _ (Function.update g.log s.client _ a)
        by_cases ha : a = s.client
        · subst ha
          rw [Function.update_self]
          exact .inr (.read ((h.mark _).symm.trans hm) hleast)
        · rw [Function.update_of_ne ha]
          exact .inl rfl

theorem Visits.Of.accept (h : g.Of o) (l : SwitchboardLabel) (listenerNo : ℕ) :
    g.Follows l (g.see (.listen listenerNo) l.io (o.accept l listenerNo).2)
      (o.accept l listenerNo).1 := by
  unfold Switchboard.accept
  cases hacc : l.io.accept with
  | none => exact h.follows l
  | some remoteIp =>
    cases Switchboard.freeLine o.sessions with
    | none => exact h.follows l
    | some conn =>
      dsimp only
      obtain ⟨a, ha⟩ : ∃ a : Address, a = (remoteIp, (SERVERPORTNO + listenerNo : ℤ)) := ⟨_, rfl⟩
      rw [← ha]
      have hsee : g.see (.listen listenerNo) l.io [.opened conn] =
          ⟨Function.update g.client conn (some a),
            Function.update g.log a (.called :: g.log a)⟩ := by
        show g.seeEvent (.listen listenerNo) l.io (.opened conn) = _
        rw [seeEvent, Clients.accepted, hacc, Option.map_some, ← ha]
      have hmarks : ∀ b, (Function.update o.marks a
          (some (Switchboard.startMark (o.marks a))) b).isSome = true ∨
          Function.update o.marks a (some (Switchboard.startMark (o.marks a))) b = o.marks b := by
        intro b
        by_cases hb : b = a
        · rw [hb, Function.update_self]
          exact .inl rfl
        · exact .inr (Function.update_of_ne hb _ _)
      rw [hsee]
      refine ⟨⟨?_, ?_, ?_, ?_⟩, ?_⟩
      · intro i s hs
        change Function.update o.sessions conn _ i = some s at hs
        show Function.update g.client conn (some a) i = some s.client
        by_cases hi : i = conn
        · subst hi
          rw [Function.update_self] at hs ⊢
          obtain rfl := Option.some.inj hs
          rfl
        · rw [Function.update_of_ne hi] at hs ⊢
          exact h.client i s hs
      · intro b
        show Function.update o.marks a _ b = markOf (Function.update g.log a _ b)
        by_cases hb : b = a
        · rw [hb, Function.update_self, Function.update_self, h.mark]
          rfl
        · rw [Function.update_of_ne hb, Function.update_of_ne hb]
          exact h.mark b
      · intro i s hs
        change Function.update o.sessions conn _ i = some s at hs
        show (Function.update o.marks a _ s.client).isSome
        rcases hmarks s.client with hsome | hsame
        · exact hsome
        · by_cases hi : i = conn
          · subst hi
            rw [Function.update_self] at hs
            obtain rfl := Option.some.inj hs
            show (Function.update o.marks a _ a).isSome
            rw [Function.update_self]
            rfl
          · rw [Function.update_of_ne hi] at hs
            rw [hsame]
            exact h.known i s hs
      · intro b m hm
        change Function.update o.marks a _ b = some m at hm
        by_cases hb : b = a
        · rw [hb, Function.update_self] at hm
          obtain rfl := Option.some.inj hm
          cases hold : o.marks a with
          | none => exact ⟨0, by simp [Switchboard.startMark]⟩
          | some m₀ => exact millis_overlap (h.millis a m₀ hold)
        · rw [Function.update_of_ne hb] at hm
          exact h.millis b m hm
      · intro b
        show Function.update g.log a _ b = _ ∨ GoesOn _ _ (Function.update g.log a _ b)
        by_cases hb : b = a
        · subst hb
          rw [Function.update_self]
          exact .inr (.called _)
        · rw [Function.update_of_ne hb]
          exact .inl rfl

/-- **The visits go on at each step.** -/
theorem Visits.Of.step (h : g.Of o) (htimed : l.cache.Timed)
    (hstep : switchboardMachine.step o l = some (o', es)) :
    g.Follows l (g.see o.pc l.io es) o' := by
  obtain ⟨⟨o₁, es₁⟩, hact, heq⟩ := Option.map_eq_some_iff.1 hstep
  cases heq
  -- where the thread goes next does not matter
  suffices hfollows : g.Follows l (g.see o.pc l.io es) o₁ from
    ⟨⟨hfollows.is_of.client, hfollows.is_of.mark, hfollows.is_of.known, hfollows.is_of.millis⟩,
      hfollows.goesOn⟩
  unfold Switchboard.act at hact
  cases hpc : o.pc with
  | service conn =>
    rw [hpc] at hact
    exact h.serve htimed hact
  | listen listenerNo =>
    rw [hpc] at hact
    dsimp only at hact
    split_ifs at hact
    · cases hact
      exact h.follows l
    · have heq := Option.some.inj hact
      have haccept := h.accept l listenerNo
      rwa [heq] at haccept
  | flags =>
    rw [hpc] at hact
    dsimp only at hact
    split_ifs at hact
    · cases hact
      exact ⟨⟨by simp, h.mark, by simp, h.millis⟩, fun _ => .inl rfl⟩
    · cases hact
      exact h.follows l
  | setup =>
    rw [hpc] at hact
    dsimp only at hact
    split_ifs at hact
    cases hact
    exact h.follows l
  | closing | expire | ended =>
    rw [hpc] at hact
    cases hact
    exact h.follows l

/-! ### The exchange -/

/-- The outcomes of the calls of the server thread, if the step is one of it. -/
def ExchangeLabel.serverIO : ExchangeLabel → Option ServerIO
  | server io => some io
  | _ => none

/-- What a step says that the server thread takes with these outcomes where it is, or another
thread: a new server thread knows no client. -/
def Visits.note (g : Visits) (io : Option ServerIO) (pc : Option ServerPc) (es : List Event) :
    Visits :=
  match io, pc with
  | some io, some pc => g.see pc io es
  | _, _ => if .started ∈ es then .none else g

/-- What was seen of the clients says where the marks of the switchboard are, and the packets are
listed under their times. -/
structure Accord (x : Exchange) (g : Visits) : Prop where
  is_of : ∀ o, x.switchboard = some o → g.Of o
  timed : x.cache.Timed

theorem timed_empty : PacketMap.Timed .empty := by
  intro time v hget
  cases hget

theorem accord_init (clientNo failtimer : ℤ) : Accord (.init clientNo failtimer) .none :=
  ⟨nofun, timed_empty⟩

/-- The times that are decoded are whole milliseconds. -/
theorem millis_decodePktTime (b : Bfr) (pos : ℕ) : Millis (decodePktTime b pos) := by
  refine ⟨1000 * getPacketTime b pos + b.i16 (pos + DATAHDR_POS_MSEC_REL), ?_⟩
  rw [decodePktTime]
  push_cast
  ring

variable {x x' : Exchange}

theorem PacketMap.Timed.handOn {cache : PacketMap} (h : cache.Timed) (r : Receiver) (junk : Bfr)
    (t : Turn) : PacketMap.Timed (r.handOn junk cache t).2.1 := by
  obtain ⟨again, rest, item⟩ := t
  unfold Receiver.handOn
  cases item with
  | none => exact h
  | some item =>
    cases item with
    | chan c => exact h
    | adc pkt =>
      intro time v hget
      rcases FinMap.get_offer (Prod.ext rfl rfl) hget with ⟨-, rfl, rfl⟩ | hold
      · exact ⟨rfl, millis_decodePktTime _ _⟩
      · exact h time v hold

theorem Receiver.started_notMem_handOn (r : Receiver) (junk : Bfr) (cache : PacketMap) (t : Turn) :
    .started ∉ (r.handOn junk cache t).2.2 := by
  obtain ⟨again, rest, item⟩ := t
  unfold Receiver.handOn
  cases item with
  | none => exact List.not_mem_nil
  | some item =>
    cases item with
    | chan c => exact List.not_mem_cons_of_ne_of_not_mem nofun List.not_mem_nil
    | adc pkt => exact List.not_mem_cons_of_ne_of_not_mem nofun List.not_mem_nil

theorem Receiver.cache_of_step {r r' : Receiver} {io : ClientIO} {comm comm' : ClientComm}
    {cache cache' : PacketMap} {es : List Event}
    (h : r.step io comm cache = some (r', comm', cache', es)) :
    (cache' = cache ∨ ∃ t, cache' = (r.handOn io.junk cache t).2.1) ∧ .started ∉ es := by
  unfold Receiver.step at h
  cases hpc : r.pc with
  | start =>
    rw [hpc] at h
    dsimp only at h
    split_ifs at h
    cases h
    exact ⟨.inl rfl, List.not_mem_nil⟩
  | top =>
    rw [hpc] at h
    obtain ⟨r₁, -, heq⟩ := Option.map_eq_some_iff.1 h
    cases heq
    exact ⟨.inl rfl, List.not_mem_nil⟩
  | sample =>
    rw [hpc] at h
    cases h
    exact ⟨.inl rfl, by simp⟩
  | checking =>
    rw [hpc] at h
    obtain ⟨t, -, heq⟩ := Option.map_eq_some_iff.1 h
    cases heq
    exact ⟨.inr ⟨t, rfl⟩, r.started_notMem_handOn io.junk cache t⟩
  | publish =>
    rw [hpc] at h
    dsimp only at h
    split_ifs at h <;> cases h <;> exact ⟨.inl rfl, by simp⟩
  | sending =>
    rw [hpc] at h
    obtain ⟨r₁, -, heq⟩ := Option.map_eq_some_iff.1 h
    cases heq
    exact ⟨.inl rfl, List.not_mem_nil⟩

/-- A step of another thread that starts none says nothing. -/
theorem Visits.note_none (g : Visits) (pc : Option ServerPc) {es : List Event}
    (h : .started ∉ es) : g.note .none pc es = g := if_neg h

/-- The visits of the exchange go on as `g'`: they say where the marks are now, and the visits of
each client go on, or there are new ones. -/
structure Accord.Follows (x : Exchange) (g g' : Visits) (x' : Exchange) : Prop where
  accord : Accord x' g'
  goesOn : ∀ a, g'.log a = g.log a ∨ GoesOn {time | time ∈ x.cache.dom} (g.log a) (g'.log a) ∨
    g'.log a = []

theorem Accord.mainStep {g : Visits} (h : Accord x g) {select memory : Bool}
    (pc : Option ServerPc) (hstep : x.mainStep select memory = some (x', es)) :
    Accord.Follows x g (g.note none pc es) x' := by
  have hquiet : .started ∉ es → x'.switchboard = x.switchboard → x'.cache.Timed →
      Accord.Follows x g (g.note none pc es) x' := by
    intro hes hswitch htimed
    rw [g.note_none pc hes]
    exact ⟨⟨fun o ho => h.is_of o (hswitch ▸ ho), htimed⟩, fun _ => .inl rfl⟩
  unfold Exchange.mainStep at hstep
  cases hpc : x.mainPc with
  | spawn =>
    rw [hpc] at hstep
    cases hstep
    refine ⟨⟨?_, h.timed⟩, fun _ => .inr (.inr rfl)⟩
    rintro o ⟨⟩
    exact Visits.of_init
  | join =>
    rw [hpc] at hstep
    dsimp only at hstep
    split_ifs at hstep
    cases hstep
    exact hquiet List.not_mem_nil rfl h.timed
  | dealloc =>
    rw [hpc] at hstep
    cases hstep
    exact hquiet (by simp) rfl timed_empty
  | alloc =>
    rw [hpc] at hstep
    dsimp only at hstep
    split_ifs at hstep <;> cases hstep
    · exact hquiet (by simp) rfl timed_empty
    · exact hquiet List.not_mem_nil rfl h.timed
  | poll =>
    rw [hpc] at hstep
    dsimp only at hstep
    split_ifs at hstep <;> cases hstep <;> exact hquiet List.not_mem_nil rfl h.timed
  | copy | closeCmd | finish | clearSrv =>
    rw [hpc] at hstep
    cases hstep
    exact hquiet (by simp) rfl h.timed

theorem Accord.clientStep {g : Visits} (h : Accord x g) (io : ClientIO) (pc : Option ServerPc) :
    Accord.Follows x g (g.note none pc (x.clientStep io).2) (x.clientStep io).1 := by
  unfold Exchange.clientStep
  cases hstep : x.receiver.step io x.comm x.cache with
  | none =>
    rw [g.note_none pc List.not_mem_nil]
    exact ⟨⟨h.is_of, h.timed⟩, fun _ => .inl rfl⟩
  | some y =>
    obtain ⟨receiver, comm, cache, events⟩ := y
    obtain ⟨hcache, hes⟩ := Receiver.cache_of_step hstep
    rw [g.note_none pc hes]
    refine ⟨⟨h.is_of, ?_⟩, fun _ => .inl rfl⟩
    show cache.Timed
    rcases hcache with rfl | ⟨t, rfl⟩
    · exact h.timed
    · exact h.timed.handOn _ _ t

theorem Accord.serverStep {g : Visits} (h : Accord x g) {io : ServerIO}
    (hstep : x.serverStep io = some (x', es)) :
    Accord.Follows x g (g.note (some io) (x.switchboard.map Switchboard.pc) es) x' := by
  unfold Exchange.serverStep at hstep
  cases ho : x.switchboard with
  | none =>
    rw [ho] at hstep
    cases hstep
  | some o =>
    rw [ho] at hstep
    dsimp only at hstep
    split_ifs at hstep
    show Accord.Follows x g (g.see o.pc io es) x'
    cases hres : o.step ⟨io, x.serverClose, x.chanInfoG, x.cache⟩ with
    | none =>
      rw [hres] at hstep
      cases hstep
      exact ⟨⟨fun o₁ ho₁ => h.is_of o₁ (ho.trans ho₁), h.timed⟩, fun _ => .inl rfl⟩
    | some y =>
      obtain ⟨o', events⟩ := y
      rw [hres] at hstep
      cases hstep
      have hfollows := (h.is_of o ho).step (l := ⟨io, x.serverClose, x.chanInfoG, x.cache⟩)
        h.timed hres
      refine ⟨⟨?_, h.timed⟩, fun a => (hfollows.goesOn a).imp_right .inl⟩
      rintro o ⟨⟩
      exact hfollows.is_of

/-- **The visits go on at each step of the exchange.** -/
theorem Accord.step {g : Visits} (h : Accord x g) {l : ExchangeLabel}
    (hstep : exchangeMachine.step x l = some (x', es)) :
    Accord.Follows x g (g.note l.serverIO (x.switchboard.map Switchboard.pc) es) x' := by
  change x.step l = some (x', es) at hstep
  unfold Exchange.step at hstep
  split_ifs at hstep
  cases l with
  | main select memory => exact h.mainStep _ hstep
  | client io =>
    have heq := Option.some.inj hstep
    have hclient := h.clientStep io (x.switchboard.map Switchboard.pc)
    rwa [heq] at hclient
  | server io => exact h.serverStep hstep

/-! ### The program -/

/-- The program with what was seen of the clients. -/
def visitsMachine : Machine (Core × Visits) Label Event :=
  proxy.record fun g s l es => g.note l.abstract.serverIO (s.server.map ServerThread.pc) es

/-- The times of the packets that are served. -/
def Core.times (s : Core) : Set PacketTime := {time | ∃ e ∈ s.dataRing.entries, e.1 = time}

variable {s : Core}

theorem Core.Is.times (h : s.Is x) : {time | time ∈ x.cache.dom} = s.times := by
  ext time
  show time ∈ x.cache.dom ↔ _
  rw [← h.cache]
  exact FinMap.mem_dom_ofList

theorem Core.Is.pc_server (h : s.Is x) :
    s.server.map ServerThread.pc = x.switchboard.map Switchboard.pc := by
  have hserver := h.server
  generalize s.server = t at hserver
  generalize x.switchboard = o at hserver
  cases hserver with
  | none => rfl
  | some hserves =>
    obtain ⟨l, addr, his⟩ := hserves
    exact congrArg some his.pc

/-- What was seen of the clients of the program is right, and the visits of each have the
property. -/
def Tracked (P : List (Visit PacketTime) → Prop) (sg : Core × Visits) : Prop :=
  ∃ x, sg.1.Is x ∧ Accord x sg.2 ∧ ∀ a, P (sg.2.log a)

variable {P : List (Visit PacketTime) → Prop} {sg sg' : Core × Visits} {l : Label}

theorem tracked_init (h₀ : P []) (clientNo failtimer : ℤ) (mem : Memory) :
    Tracked P (.init clientNo failtimer mem, .none) :=
  ⟨_, core_is_init _ _ _, accord_init _ _, fun _ => h₀⟩

/-- A property that visits keep as they go on is kept by each step of the program. -/
theorem Tracked.step (h : Tracked P sg) (h₀ : P [])
    (hP : ∀ vs vs', P vs → GoesOn sg.1.times vs vs' → P vs')
    (hstep : visitsMachine.step sg l = some (sg', es)) : Tracked P sg' := by
  obtain ⟨x, his, haccord, hlog⟩ := h
  obtain ⟨hstep, hg⟩ := Machine.record_step.1 hstep
  have hmirrors := his.step l
  rw [hstep] at hmirrors
  generalize hx : exchangeMachine.step x l.abstract = r at hmirrors
  cases hmirrors with
  | @some _ r hrel =>
    obtain ⟨x', es'⟩ := r
    obtain ⟨his', rfl⟩ := hrel
    obtain ⟨haccord', hgoes⟩ := haccord.step hx
    rw [← his.pc_server] at haccord' hgoes
    rw [← hg] at haccord' hgoes
    refine ⟨x', his', haccord', ?_⟩
    intro a
    rcases hgoes a with hsame | hgoes | hnew
    · rw [hsame]
      exact hlog a
    · exact hP _ _ (hlog a) (his.times ▸ hgoes)
    · rw [hnew]
      exact h₀

/-- Since a call that set the client back before this time, the client was given the packet of this
time, or nothing as late. -/
def GapFree (time : PacketTime) (vs : List (Visit PacketTime)) : Prop :=
  ∀ recent old mark, vs = recent ++ .called :: old → markOf (.called :: old) = some mark →
    mark < time → (∃ later, .read later ∈ recent ∧ time ≤ later) → .read time ∈ recent

/-- The packet of this time is served, if any as late is. -/
def Core.Serves (time : PacketTime) (s : Core) : Prop :=
  ∀ e ∈ s.dataRing.entries, time ≤ e.1 → ∃ e' ∈ s.dataRing.entries, e'.1 = time

instance (time : PacketTime) (s : Core) : Decidable (s.Serves time) :=
  inferInstanceAs (Decidable (∀ e ∈ s.dataRing.entries, _ → ∃ e' ∈ s.dataRing.entries, _))

/-- **Nothing is left out**: in every run of the program, a client that was given a packet since one
of its calls was given each earlier one behind the mark of that call that was on the data ring as
long as any as late was.  How often it has come back since, and what the other clients do, does not
matter. -/
theorem no_gaps (clientNo failtimer : ℤ) (mem : Memory) (ls : List Label) {time : PacketTime}
    (htime : proxy.Always (fun s _ _ _ => s.Serves time) (.init clientNo failtimer mem) ls) :
    visitsMachine.Always (fun _ _ _ sg' => ∀ a, GapFree time (sg'.2.log a))
      (.init clientNo failtimer mem, .none) ls := by
  refine Machine.always_imp
    (Tracked (Complete 0 (fun time => time - SECONDS_OVERLAP) time))
    (tracked_init complete_nil _ _ _) ?_ ls ((Machine.always_record _ _ ls).2 htime)
  intro sg l sg' es htracked hstep hserves
  have htracked' : Tracked (Complete 0 (fun time => time - SECONDS_OVERLAP) time) sg' := by
    refine htracked.step complete_nil ?_ hstep
    intro vs vs' hcomplete hgoes
    refine hcomplete.extends (fun m => sub_le_self m (by norm_num [SECONDS_OVERLAP])) ?_ hgoes
    rintro later ⟨e, he, rfl⟩ hle
    exact hserves e he hle
  refine ⟨htracked', ?_⟩
  obtain ⟨-, -, -, hcomplete⟩ := htracked'
  rintro a recent old mark hsplit hmark hlt ⟨later, hlater, hle⟩
  have hcomplete := hcomplete a
  rw [hsplit] at hcomplete
  exact hcomplete.mem hmark hlt hlater hle

/-- No packet is placed more often than the client has called, and what is placed after `n` calls in
a row is later than the packet before them less `n` times `SECONDS_OVERLAP`. -/
structure Sparing (vs : List (Visit PacketTime)) : Prop where
  count_le : ∀ time, vs.count (.read time) ≤ vs.count .called
  resent : ∀ n time last older,
    .read time :: (List.replicate n .called ++ .read last :: older) <:+ vs →
      last - n * SECONDS_OVERLAP < time

/-- **Little is sent again**, in every run of the program. -/
theorem resent_rarely (clientNo failtimer : ℤ) (mem : Memory) (ls : List Label) :
    visitsMachine.Always (fun _ _ _ sg' => ∀ a, Sparing (sg'.2.log a))
      (.init clientNo failtimer mem, .none) ls := by
  refine Machine.always_of_inv (Tracked (Ascending 0 fun time => time - SECONDS_OVERLAP))
    (tracked_init trivial _ _ _) ?_ ls
  intro sg l sg' es htracked hstep
  have htracked' := htracked.step trivial (fun vs vs' h hgoes => h.extends hgoes) hstep
  refine ⟨htracked', ?_⟩
  obtain ⟨-, -, -, hascending⟩ := htracked'
  intro a
  refine ⟨(hascending a).count_le, ?_⟩
  intro n time last older hsuffix
  have hresent := ((hascending a).of_suffix hsuffix).resent
  rwa [← funext setBack_eq, setBack_iterate] at hresent

/-- A client calls, asks for data, is given the packet and is gone; then it comes back and is given
it again. -/
def comesBackRun : List Label :=
  clientConnects ++ clientPass (chanInfoText ⟨10, 1, 1⟩) 2 ++ mainSteps 7 ++ clientServed ++
    clientPass datedPacket 2 ++ serverSteps 14 ++ [serverHears []] ++ serverSteps 9 ++
    [serverAccepts] ++ serverSteps 3 ++ [serverHears CHANREQUEST] ++ serverSteps 14

theorem no_gaps_comesBack :
    visitsMachine.Always (fun _ _ _ sg' => ∀ a, GapFree 1577836800 (sg'.2.log a))
      (.init (-1) 0 .zero, .none) comesBackRun ∧
    (visitsMachine.run (.init (-1) 0 .zero, .none) comesBackRun).any (fun r =>
      decide (r.1.2.log ([0x31], SERVERPORTNO) =
        [.read 1577836800, .called, .read 1577836800, .called])) = true :=
  ⟨no_gaps _ _ _ _ (by decide +kernel), by decide +kernel⟩

end SdrProxy
