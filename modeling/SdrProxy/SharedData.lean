import SdrProxy.Lib.Footprint
import SdrProxy.Sections

/-!
# What a step has to do with shared data

A step changes no shared data but those that `Core.touches` lists, and what it does depends on no
others.  Besides, it depends on what its thread has for itself, and on the server thread if it joins
it.

* `Core.changes_of_step` : the data that it changes;
* `checkDataIter_other` : a turn of the loop of `check_data` that stores nothing does not depend on
  the data ring;
* `Core.frame_of_step`, `Core.like_of_step` : what it changes and what it depends on, of the whole
  state (`Core.footprint`).
-/

namespace SdrProxy

/-- The data are the same in both states. -/
def Shared.Same (x : Shared) (s s' : Core) : Prop :=
  match x with
  | clientComm => s'.comm = s.comm
  | chanInfo => s'.chanInfoG = s.chanInfoG
  | serverComm => s'.serverClose = s.serverClose
  | dataStore => s'.dataRing = s.dataRing

/-! ### Changes -/

variable {s s' : Core} {l : Label} {es : List Event}

/-- A packet is stored only where one is due. -/
theorem ClientThread.stores_of_turn {c : ClientThread} {t : Turn} {pkt : List UInt8}
    (ht : turn c.inhibitAdc c.rcvRing.contents = some t) (hitem : t.item = some (.adc pkt)) :
    c.stores = true := by
  obtain ⟨again, rest, item⟩ := t
  cases hitem
  rw [ClientThread.stores, ht]

theorem Handed.dataRing_eq {item : Option Item} {p p' : RcvPath} {events : List RcvEvent}
    (h : Handed item p p' events) (hitem : ∀ pkt, item ≠ some (.adc pkt)) :
    p'.dataRing = p.dataRing := by
  cases h with
  | none _ hring => exact hring
  | chan _ _ hring => exact hring
  | adc element pktImg pkt ret _ _ _ => exact absurd rfl (hitem pkt)

/-- What a step changes it touches. -/
theorem Core.alters_subset_touches : s.alters l ⊆ s.touches l := by
  intro x hx
  cases l with
  | main io =>
    change x ∈ s.mainPc.alters at hx
    change x ∈ s.mainPc.touches
    cases hpc : s.mainPc <;> simp_all [MainPc.alters, MainPc.touches]
  | client io =>
    change x ∈ s.client.alters at hx
    change x ∈ s.client.touches
    unfold ClientThread.alters at hx
    unfold ClientThread.touches
    cases hpc : s.client.pc <;> simp_all
  | server io =>
    change x ∈ s.server.elim [] ServerThread.alters at hx
    change x ∈ s.server.elim [] (ServerThread.touches io)
    cases hserver : s.server with
    | none =>
      rw [hserver] at hx
      cases hx
    | some t =>
      rw [hserver] at hx
      change x ∈ t.alters at hx
      change x ∈ t.touches io
      unfold ServerThread.alters at hx
      unfold ServerThread.touches
      cases hpc : t.pc <;> simp_all

theorem MainMove.changes (h : MainMove s s' es) {x : Shared} (hx : x ∉ s.mainPc.alters) :
    x.Same s s' := by
  cases h with
  | idle hpc _ | seen hpc _ | join hpc _ | spawn _ hpc => cases x <;> rfl
  | copy hpc | closeCmd hpc | dealloc hpc | alloc _ hpc | finish hpc | clearSrv hpc =>
    rw [hpc] at hx
    cases x with
    | clientComm => first | rfl | exact absurd (by simp [MainPc.alters]) hx
    | chanInfo => first | rfl | exact absurd (by simp [MainPc.alters]) hx
    | serverComm => first | rfl | exact absurd (by simp [MainPc.alters]) hx
    | dataStore => first | rfl | exact absurd (by simp [MainPc.alters]) hx

theorem ClientMove.changes {client : ClientThread} {comm : ClientComm} {dataRing : DataRing}
    (h : ClientMove s.client s.comm s.dataRing client comm dataRing es) {x : Shared}
    (hx : x ∉ s.client.alters) :
    x.Same s { s with client := client, comm := comm, dataRing := dataRing } := by
  cases h with
  | quiet _ _ _ _ _ | sample _ | keep _ _ => cases x <;> rfl
  | raise hpc hch =>
    cases x with
    | clientComm =>
      refine absurd ?_ hx
      rw [ClientThread.alters, hpc, hch]
      exact List.mem_cons_self
    | chanInfo | serverComm | dataStore => rfl
  | check t hpc ht _ _ _ _ _ hring hhanded =>
    cases x with
    | dataStore =>
      refine hring.trans (hhanded.dataRing_eq ?_)
      intro pkt hitem
      refine hx ?_
      rw [ClientThread.alters, hpc]
      dsimp only
      rw [if_pos (ClientThread.stores_of_turn ht hitem)]
      exact List.mem_cons_self
    | clientComm | chanInfo | serverComm => rfl

/-- **A step changes no other shared data** than `Core.alters` lists. -/
theorem Core.changes_of_step (h : proxy.step s l = some (s', es)) {x : Shared}
    (hx : x ∉ s.alters l) : x.Same s s' := by
  cases Core.step_cases h with
  | fail msg _ => cases x <;> rfl
  | main hmain => exact hmain.changes hx
  | client hclient => exact hclient.changes hx
  | @server io t t' closeCmd es ht hpc _ =>
    cases x with
    | clientComm | chanInfo | dataStore => rfl
    | serverComm =>
      have hexited := Core.exited_of_step h
      change s.step (.server io) = _ at h
      simp only [Core.step, hexited, Option.isSome_none, Bool.false_eq_true, ↓reduceIte,
        Core.serverStep, ht, hpc] at h
      cases hres : t.step io s.serverClose s.chanInfoG s.dataRing with
      | error msg => simp [hres] at h
      | ok y =>
        obtain ⟨t₁, close, es₁⟩ := y
        obtain ⟨-, hclose⟩ := ServerThread.pc_of_step hres
        simp only [hres, Option.some.injEq, Prod.mk.injEq] at h
        have hne : t.pc ≠ .closing := by
          intro hclosing
          exact hx (by simp [Core.alters, ht, ServerThread.alters, hclosing])
        show closeCmd = s.serverClose
        have hflag : close = closeCmd := congrArg Core.serverClose h.1
        rw [← hflag, hclose]
        simp [hne]

/-! ### A turn that stores nothing -/

/-- No packet was stored. -/
def NoStore {α : Type} (result : Except String (α × RcvPath × List RcvEvent)) : Prop :=
  ∀ y, result = .ok y → ∀ element pkt ret, .stored element pkt ret ∉ y.2.2

/-- The result, with this data ring. -/
def onRing {α : Type} (r : DataRing) (y : α × RcvPath × List RcvEvent) :
    α × RcvPath × List RcvEvent :=
  (y.1, { y.2.1 with dataRing := r }, y.2.2)

variable {index : ℤ} {junk : Bfr} {p : RcvPath} {inhibitAdc : Bool}

theorem getChanInfo_other (index : ℤ) (p : RcvPath) (r : DataRing) :
    getChanInfo index { p with dataRing := r } = onRing r (getChanInfo index p) := by
  rw [getChanInfo_eq, getChanInfo_eq]
  dsimp only
  split_ifs
  · cases acceptedInfo ((skipTo index p.ring).contents.take CHANINFOLEN) <;> rfl
  · rfl

theorem exists_addToDataRing (packet : Bfr) (pktLen : ℕ) (r : DataRing) :
    ∃ element ret r', addToDataRing packet pktLen r =
      .ok (r', [.stored element (packet.read 0 pktLen) ret]) := by
  let thisPkt : PacketInfo := ⟨pktLen, decodePktTime packet PREHDRLEN,
    packet.i32 DATAHDR_POS_PACKETID, true⟩
  obtain ⟨ret, r', hstore⟩ := DataRing.store_isOk thisPkt packet r
  refine ⟨thisPkt, ret, r', ?_⟩
  unfold addToDataRing
  show (r.store thisPkt packet >>= _) = _
  rw [hstore]
  rfl

theorem getAdcData_other (h : NoStore (getAdcData index junk p)) (r : DataRing) :
    getAdcData index junk { p with dataRing := r } = (onRing r) <$> getAdcData index junk p := by
  unfold getAdcData at h ⊢
  dsimp only at h ⊢
  generalize skipTo index p.ring = ring at h ⊢
  generalize junk.load 0 ((RingSet.view PREHDRLEN ring).getD []) = rcvBfr at h ⊢
  by_cases hlen : PREHDRLEN < ring.bytesStored
  · rw [if_pos hlen] at h ⊢
    rw [if_pos hlen]
    by_cases htoken : strcmpEq rcvBfr ADCTOKEN = true
    · rw [if_pos htoken, if_pos htoken]
      rfl
    · rw [if_neg htoken] at h ⊢
      rw [if_neg htoken]
      by_cases hwhole : PREHDRLEN + rcvBfr.u16 PREHDR_POS_DATALEN ≤ ring.bytesStored
      · rw [if_pos hwhole] at h ⊢
        rw [if_pos hwhole]
        cases hretr : ring.retr (PREHDRLEN + rcvBfr.u16 PREHDR_POS_DATALEN) with
        | none => rfl
        | some y =>
          obtain ⟨bytes, ring'⟩ := y
          rw [hretr] at h
          dsimp only at h ⊢
          split_ifs at h ⊢
          · obtain ⟨element, ret, r', hadd⟩ := exists_addToDataRing (rcvBfr.load 0 bytes)
              (PREHDRLEN + rcvBfr.u16 PREHDR_POS_DATALEN) p.dataRing
            rw [hadd] at h
            exact absurd List.mem_cons_self (h _ rfl element _ ret)
          · rfl
          · rfl
      · rw [if_neg hwhole, if_neg hwhole]
        rfl
  · rw [if_neg hlen, if_neg hlen]
    rfl

/-- **A turn that stores nothing does not depend on the data ring.** -/
theorem checkDataIter_other (h : NoStore (checkDataIter inhibitAdc junk p)) (r : DataRing) :
    checkDataIter inhibitAdc junk { p with dataRing := r } =
      (onRing r) <$> checkDataIter inhibitAdc junk p := by
  unfold checkDataIter at h ⊢
  dsimp only at h ⊢
  generalize findChanInfo p.ring = chanidx at h ⊢
  generalize (if inhibitAdc = true then -1 else searchRing ADCTOKEN p.ring) = adcidx at h ⊢
  rw [getChanInfo_other]
  by_cases hchan : 0 ≤ chanidx ∧ chanidx < adcidx
  · rw [if_pos hchan, if_pos hchan]
    rfl
  · rw [if_neg hchan] at h ⊢
    rw [if_neg hchan]
    by_cases hadc : 0 ≤ adcidx
    · rw [if_pos hadc] at h ⊢
      rw [if_pos hadc]
      have hno : NoStore (getAdcData adcidx junk p) := by
        rintro ⟨rv, p', events⟩ heq element pkt ret hmem
        rw [heq] at h
        change NoStore (if rv = -2 ∧ 0 ≤ chanidx then _ else _) at h
        split_ifs at h
        · exact h _ rfl element pkt ret hmem
        · exact h _ rfl element pkt ret hmem
      rw [getAdcData_other hno]
      cases getAdcData adcidx junk p with
      | error msg => rfl
      | ok y =>
        obtain ⟨rv, p', events⟩ := y
        show (if rv = -2 ∧ 0 ≤ chanidx then _ else _) =
          onRing r <$> (if rv = -2 ∧ 0 ≤ chanidx then _ else _)
        split_ifs <;> rfl
    · rw [if_neg hadc, if_neg hadc]
      split_ifs <;> rfl

/-! ### What a step depends on -/

theorem ClientThread.noStore {c : ClientThread} (h : c.stores = false) (junk : Bfr)
    (r : DataRing) : NoStore (checkDataIter c.inhibitAdc junk (c.path r)) := by
  have hturn := checkDataIter_turn c.inhibitAdc junk (c.path r)
  rintro y heq element pkt ret hmem
  rw [heq] at hturn
  unfold IterResult at hturn
  cases ht : turn c.inhibitAdc (c.path r).ring.contents with
  | none =>
    rw [ht] at hturn
    cases hturn
  | some t =>
    rw [ht] at hturn
    obtain ⟨p', events, hy, hagrees⟩ := hturn
    cases hy
    have hitem : t.item = some (.adc pkt) := by
      have hhanded := hagrees.handed
      generalize t.item = item at hhanded
      cases hhanded with
      | none _ _ | chan _ _ _ => simp at hmem
      | adc element' pktImg pkt' ret' _ _ _ =>
        cases List.mem_singleton.1 hmem
        rfl
    rw [ClientThread.stores_of_turn ht hitem] at h
    cases h

theorem ClientThread.step_other {c : ClientThread} {io : ClientIO} {comm comm₂ : ClientComm}
    {r r₂ : DataRing} (hno : comm₂.clientNo = comm.clientNo)
    (hcomm : .clientComm ∈ c.touches → comm₂ = comm) (hring : .dataStore ∈ c.touches → r₂ = r) :
    (∃ msg, c.step io comm r = .error msg ∧ c.step io comm₂ r₂ = .error msg) ∨
    ∃ c' comm' comm₂' r' r₂' es, c.step io comm r = .ok (c', comm', r', es) ∧
      c.step io comm₂ r₂ = .ok (c', comm₂', r₂', es) ∧ comm₂'.clientNo = comm'.clientNo ∧
      (.clientComm ∈ c.touches → comm₂' = comm') ∧ (.dataStore ∈ c.touches → r₂' = r') := by
  unfold ClientThread.step
  cases hpc : c.pc with
  | start =>
    dsimp only
    split_ifs
    · exact .inl ⟨_, rfl, rfl⟩
    · exact .inr ⟨_, _, _, _, _, _, rfl, rfl, hno, hcomm, hring⟩
    · exact .inl ⟨_, rfl, rfl⟩
  | top =>
    dsimp only
    rw [hno]
    cases receiveStage io c with
    | error msg => exact .inl ⟨msg, rfl, rfl⟩
    | ok c₁ =>
      simp only [bind, Except.bind]
      cases dispatch io comm.clientNo c₁ with
      | error msg => exact .inl ⟨msg, rfl, rfl⟩
      | ok c₂ => exact .inr ⟨_, _, _, _, _, _, rfl, rfl, hno, hcomm, hring⟩
  | sample =>
    obtain rfl := hcomm (by rw [ClientThread.touches, hpc]; exact List.mem_cons_self)
    exact .inr ⟨_, _, _, _, _, _, rfl, rfl, rfl, fun _ => rfl, hring⟩
  | checking =>
    cases hstores : c.stores with
    | true =>
      obtain rfl := hring (by simp [ClientThread.touches, hpc, hstores])
      simp only [check, bind, Except.bind]
      cases checkDataIter c.inhibitAdc io.junk (c.path r₂) with
      | error msg => exact .inl ⟨msg, rfl, rfl⟩
      | ok y => exact .inr ⟨_, _, _, _, _, _, rfl, rfl, hno, hcomm, fun _ => rfl⟩
    | false =>
      have hother := checkDataIter_other (ClientThread.noStore hstores io.junk r) r₂
      have hnot : .dataStore ∉ c.touches := by simp [ClientThread.touches, hpc, hstores]
      change checkDataIter c.inhibitAdc io.junk (c.path r₂) = _ at hother
      simp only [check, bind, Except.bind, hother]
      cases checkDataIter c.inhibitAdc io.junk (c.path r) with
      | error msg => exact .inl ⟨msg, rfl, rfl⟩
      | ok y => exact .inr ⟨_, _, _, _, _, _, rfl, rfl, hno, hcomm, fun h => absurd h hnot⟩
  | publish =>
    dsimp only
    split_ifs with hch
    · obtain rfl := hcomm (by simp [ClientThread.touches, hpc, hch])
      exact .inr ⟨_, _, _, _, _, _, rfl, rfl, rfl, fun _ => rfl, hring⟩
    · exact .inr ⟨_, _, _, _, _, _, rfl, rfl, hno, hcomm, hring⟩
  | sending =>
    dsimp only
    cases sendStage io c with
    | error msg => exact .inl ⟨msg, rfl, rfl⟩
    | ok c₁ => exact .inr ⟨_, _, _, _, _, _, rfl, rfl, hno, hcomm, hring⟩

/-- A service of a connection depends on `chan_info_g` only if a text is due and there is room for
it, and on the data ring only if packets are due. -/
theorem serviceConnection_other {io : ServerIO} {chan chan₂ : ChannelInfo} {r r₂ : DataRing}
    {c : Conn} (conn : ℕ) (hchan : c.data.served io = .SRVR_STATE_SENDCHAN →
      CHANINFOLEN ≤ c.data.sendRing.bytesFree → chan₂ = chan)
    (hring : c.data.served io = .SRVR_STATE_SENDADC → r₂ = r) :
    serviceConnection io chan₂ r₂ conn c = serviceConnection io chan r conn c := by
  unfold serviceConnection
  unfold ConnectionData.served at hchan hring
  by_cases hin : c.data.state = .SRVR_STATE_INACTIVE
  · rw [if_pos hin, if_pos hin]
  · rw [if_neg hin] at hchan hring
    have hstate : serviceState io chan₂ r₂ conn { c with data := serviceIncoming io c.data } =
        serviceState io chan r conn { c with data := serviceIncoming io c.data } := by
      unfold serviceState
      dsimp only
      cases hs : (serviceIncoming io c.data).state with
      | SRVR_STATE_SENDCHAN =>
        have hring : (serviceIncoming io c.data).sendRing = c.data.sendRing :=
          (serviceIncoming_same io c.data).1
        by_cases hroom : CHANINFOLEN ≤ c.data.sendRing.bytesFree
        · rw [hchan hs hroom]
        · have hfull : ∀ info, putChannelData info conn (serviceIncoming io c.data) =
              (-1, serviceIncoming io c.data, []) := by
            intro info
            rw [putChannelData, hring, if_neg hroom]
          dsimp only
          rw [hfull, hfull]
      | SRVR_STATE_SENDADC => rw [hring hs]
      | SRVR_STATE_INACTIVE | SRVR_STATE_SHUTDOWN | SRVR_STATE_INIT => rfl
    rw [if_neg hin, if_neg hin, hstate]

/-- A look at a listening socket depends on `chan_info_g` only if a connection is opened. -/
theorem listen_other {t : ServerThread} {io : ServerIO} {chan chan₂ : ChannelInfo}
    (listenerNo : ℕ) (hchan : io.readable = true → t.opens io = true → io.malloc = true →
      chan₂ = chan) : t.listen io chan₂ listenerNo = t.listen io chan listenerNo := by
  unfold ServerThread.listen
  cases hread : io.readable with
  | false => rfl
  | true =>
    cases hopens : t.opens io with
    | false =>
      have hnone := opens_eq_false.1 hopens
      show t.getNewConnection io chan₂ listenerNo = t.getNewConnection io chan listenerNo
      rw [getNewConnection_of_none hnone, getNewConnection_of_none hnone]
    | true =>
      cases hmalloc : io.malloc with
      | false => rfl
      | true => rw [hchan hread hopens hmalloc]

theorem ServerThread.step_other {t : ServerThread} {io : ServerIO} {close close₂ : Bool}
    {chan chan₂ : ChannelInfo} {r r₂ : DataRing}
    (hclose : .serverComm ∈ t.touches io → close₂ = close)
    (hchan : .chanInfo ∈ t.touches io → chan₂ = chan)
    (hring : .dataStore ∈ t.touches io → r₂ = r) :
    (∃ msg, t.step io close chan r = .error msg ∧ t.step io close₂ chan₂ r₂ = .error msg) ∨
    ∃ t' close' close₂' es, t.step io close chan r = .ok (t', close', es) ∧
      t.step io close₂ chan₂ r₂ = .ok (t', close₂', es) ∧
      (.serverComm ∈ t.touches io → close₂' = close') := by
  unfold ServerThread.step
  cases hpc : t.pc with
  | setup =>
    dsimp only
    split_ifs
    · exact .inl ⟨_, rfl, rfl⟩
    · exact .inr ⟨_, _, _, _, rfl, rfl, hclose⟩
    · exact .inl ⟨_, rfl, rfl⟩
  | flags =>
    obtain rfl := hclose (by simp [ServerThread.touches, hpc])
    dsimp only
    split_ifs
    · exact .inr ⟨_, _, _, _, rfl, rfl, fun _ => rfl⟩
    · exact .inl ⟨_, rfl, rfl⟩
    · exact .inr ⟨_, _, _, _, rfl, rfl, fun _ => rfl⟩
    · exact .inl ⟨_, rfl, rfl⟩
  | closing => exact .inr ⟨_, _, _, _, rfl, rfl, fun _ => rfl⟩
  | service conn =>
    have hserve : serviceConnection io chan₂ r₂ conn ⟨t.connData conn, t.hist⟩ =
        serviceConnection io chan r conn ⟨t.connData conn, t.hist⟩ := by
      refine serviceConnection_other conn ?_ ?_
      · exact fun hs hroom => hchan (by simp [ServerThread.touches, hpc, hs, hroom])
      · exact fun hs => hring (by simp [ServerThread.touches, hpc, hs])
    simp only [hserve, bind, Except.bind]
    cases serviceConnection io chan r conn ⟨t.connData conn, t.hist⟩ with
    | error msg => exact .inl ⟨msg, rfl, rfl⟩
    | ok y => exact .inr ⟨_, _, _, _, rfl, rfl, hclose⟩
  | listen listenerNo =>
    have hlisten : t.listen io chan₂ listenerNo = t.listen io chan listenerNo := by
      refine listen_other listenerNo fun hread hopens hmalloc => hchan ?_
      simp [ServerThread.touches, hpc, hread, hopens, hmalloc]
    simp only [hlisten, bind, Except.bind]
    cases t.listen io chan listenerNo with
    | error msg => exact .inl ⟨msg, rfl, rfl⟩
    | ok y => exact .inr ⟨_, _, _, _, rfl, rfl, hclose⟩
  | expire =>
    simp only [bind, Except.bind]
    cases expireOld io.now t with
    | error msg => exact .inl ⟨msg, rfl, rfl⟩
    | ok y => exact .inr ⟨_, _, _, _, rfl, rfl, hclose⟩
  | ended => exact .inr ⟨_, _, _, _, rfl, rfl, hclose⟩

/-! ### Places -/

/-- What the state of the program consists of. -/
inductive Place where
  /-- Where the main thread is, and `server_running`. -/
  | mainThread
  | clientThread
  | serverThread
  /-- The program has ended. -/
  | exited
  /-- The client number, which never changes. -/
  | clientNo
  | shared (x : Shared)

/-- What is at a place. -/
def Place.Value : Place → Type
  | mainThread => MainPc × Bool
  | clientThread => ClientThread
  | serverThread => Option ServerThread
  | exited => Option String
  | clientNo => ℤ
  | shared .clientComm => Bool × ChannelInfo
  | shared .chanInfo => ChannelInfo
  | shared .serverComm => Bool
  | shared .dataStore => DataRing

/-- The value at a place. -/
def Place.value : (p : Place) → Core → p.Value
  | mainThread, s => (s.mainPc, s.serverRunning)
  | clientThread, s => s.client
  | serverThread, s => s.server
  | exited, s => s.exited
  | clientNo, s => s.comm.clientNo
  | shared .clientComm, s => (s.comm.chanChange, s.comm.chanInfo)
  | shared .chanInfo, s => s.chanInfoG
  | shared .serverComm, s => s.serverClose
  | shared .dataStore, s => s.dataRing

/-- What a thread has for itself. -/
def Thread.place : Thread → Place
  | main => .mainThread
  | client => .clientThread
  | server => .serverThread

namespace Core

/-- The step ends the program. -/
def ends (s : Core) (l : Label) : Bool := (proxy.step s l).any fun r => r.1.exited.isSome

/-- The places that a step depends on: the main thread looks at the server thread to join it. -/
def reads (s : Core) (l : Label) : Set Place :=
  { p | p = .exited ∨ p = l.thread.place ∨ (l.thread = .client ∧ p = .clientNo) ∨
    (l.thread = .main ∧ s.mainPc = .join ∧ p = .serverThread) ∨ ∃ x ∈ s.touches l, p = .shared x }

/-- The places that a step may change: the main thread starts a server thread. -/
def writes (s : Core) (l : Label) : Set Place :=
  { p | if s.ends l then p = .exited else
    p = l.thread.place ∨ (l.thread = .main ∧ s.mainPc = .spawn ∧ p = .serverThread) ∨
      ∃ x ∈ s.touches l, p = .shared x }

/-- There is nothing but the places. -/
theorem ext_value {s t : Core} (h : ∀ p : Place, p.value s = p.value t) : s = t := by
  obtain ⟨comm, chan, ring, close, pc, running, client, server, exited⟩ := s
  obtain ⟨comm₂, chan₂, ring₂, close₂, pc₂, running₂, client₂, server₂, exited₂⟩ := t
  obtain ⟨rfl, rfl⟩ := Prod.mk.inj (h .mainThread)
  obtain rfl : client = client₂ := h .clientThread
  obtain rfl : server = server₂ := h .serverThread
  obtain rfl : exited = exited₂ := h .exited
  obtain ⟨flag, no, info⟩ := comm
  obtain ⟨flag₂, no₂, info₂⟩ := comm₂
  obtain rfl : no = no₂ := h .clientNo
  obtain ⟨rfl, rfl⟩ := Prod.mk.inj (h (.shared .clientComm))
  obtain rfl : chan = chan₂ := h (.shared .chanInfo)
  obtain rfl : close = close₂ := h (.shared .serverComm)
  obtain rfl : ring = ring₂ := h (.shared .dataStore)
  rfl

theorem value_of_same {x : Shared} {s s' : Core} (h : x.Same s s') :
    (Place.shared x).value s' = (Place.shared x).value s := by
  cases x with
  | clientComm => exact congrArg (fun c : ClientComm => (c.chanChange, c.chanInfo)) h
  | chanInfo | serverComm | dataStore => exact h

theorem ends_eq_false (h : proxy.step s l = some (s', es)) (hexited : s'.exited = none) :
    s.ends l = false := by
  rw [ends, h]
  simp [hexited]

theorem mem_writes (hends : s.ends l = false) {p : Place} : p ∈ s.writes l ↔
    p = l.thread.place ∨ (l.thread = .main ∧ s.mainPc = .spawn ∧ p = .serverThread) ∨
      ∃ x ∈ s.touches l, p = .shared x := by
  show (if s.ends l = true then _ else _) ↔ _
  rw [hends]
  exact Iff.rfl

/-- **A step changes nothing** but what it writes. -/
theorem frame_of_step (h : proxy.step s l = some (s', es)) {p : Place} (hp : p ∉ s.writes l) :
    p.value s' = p.value s := by
  have hexited := exited_of_step h
  -- shared data are dealt with above
  have hshared : s'.exited = none → ∀ x, p = .shared x → p.value s' = p.value s := by
    rintro hnone x rfl
    refine value_of_same (changes_of_step h ?_)
    intro hx
    refine hp ((mem_writes (ends_eq_false h hnone)).2 (.inr (.inr ⟨x, ?_, rfl⟩)))
    exact alters_subset_touches hx
  cases step_cases h with
  | fail msg _ =>
    have hends : s.ends l = true := by
      rw [ends, h]
      rfl
    cases p with
    | exited => exact absurd (show Place.exited ∈ s.writes l by simp [writes, hends]) hp
    | mainThread | clientThread | serverThread | clientNo => rfl
    | shared x => cases x <;> rfl
  | @main io s' es hmain =>
    have hnone : s'.exited = none := by cases hmain <;> exact hexited
    rw [mem_writes (ends_eq_false h hnone)] at hp
    cases p with
    | mainThread => exact absurd (.inl rfl) hp
    | shared x => exact hshared hnone x rfl
    | exited => exact hnone.trans hexited.symm
    | clientThread | clientNo => cases hmain <;> rfl
    | serverThread =>
      cases hmain with
      | spawn mem hpc => exact absurd (.inr (.inl ⟨rfl, hpc, rfl⟩)) hp
      | idle | seen | copy | closeCmd | join | dealloc | alloc | finish | clearSrv => rfl
  | client hclient =>
    rw [mem_writes (ends_eq_false h hexited)] at hp
    cases p with
    | clientThread => exact absurd (.inl rfl) hp
    | shared x => exact hshared hexited x rfl
    | mainThread | serverThread | exited => rfl
    | clientNo => cases hclient <;> rfl
  | server ht hpc hserver =>
    rw [mem_writes (ends_eq_false h hexited)] at hp
    cases p with
    | serverThread => exact absurd (.inl rfl) hp
    | shared x => exact hshared hexited x rfl
    | mainThread | clientThread | exited | clientNo => rfl

/-- The same values where the step from `s` writes. -/
structure Like (s : Core) (l : Label) (s' t' : Core) : Prop where
  exited : t'.exited = s'.exited
  own : l.thread.place.value t' = l.thread.place.value s'
  spawned : l.thread = .main → s.mainPc = .spawn → t'.server = s'.server
  shared : ∀ x ∈ s.touches l, (Place.shared x).value t' = (Place.shared x).value s'

variable {t : Core}

theorem touches_of_own (hown : l.thread.place.value t = l.thread.place.value s) :
    t.touches l = s.touches l := by
  cases l with
  | main io => exact congrArg (fun v : MainPc × Bool => v.1.touches) hown
  | client io => exact congrArg ClientThread.touches hown
  | server io =>
    exact congrArg (fun v : Option ServerThread => v.elim [] (ServerThread.touches io)) hown

/-- What a step of the main thread depends on. -/
theorem like_main {io : MainIO} (h : ∀ p ∈ s.reads (.main io), p.value t = p.value s) :
    Machine.Mirrors (Like s (.main io)) (s.mainStep io) (t.mainStep io) := by
  obtain ⟨hpc, hrunning⟩ := Prod.mk.inj (h .mainThread (.inr (.inl rfl)))
  have hexited : t.exited = s.exited := h .exited (.inl rfl)
  have hshared : ∀ x ∈ s.mainPc.touches, (Place.shared x).value t = (Place.shared x).value s :=
    fun x hx => h _ (.inr (.inr (.inr (.inr ⟨x, hx, rfl⟩))))
  have hcomm : .clientComm ∈ s.mainPc.touches →
      t.comm.chanChange = s.comm.chanChange ∧ t.comm.chanInfo = s.comm.chanInfo :=
    fun hx => Prod.mk.inj (hshared _ hx)
  have hlike : ∀ {s' t' : Core}, t'.exited = s'.exited → t'.mainPc = s'.mainPc →
      t'.serverRunning = s'.serverRunning → (s.mainPc = .spawn → t'.server = s'.server) →
      (∀ x ∈ s.mainPc.touches, (Place.shared x).value t' = (Place.shared x).value s') →
      Like s (.main io) s' t' :=
    fun hexited hpc hrunning hserver hshared =>
      ⟨hexited, Prod.ext hpc hrunning, fun _ => hserver, hshared⟩
  -- a step that ends the program
  have hfail : ∀ msg, s.mainPc ≠ .spawn → Machine.Mirrors (Like s (.main io))
      (some ({ s with exited := some msg }, ([] : List Event)))
      (some ({ t with exited := some msg }, [])) := by
    intro msg hne
    refine .some ⟨hlike rfl hpc hrunning (fun hspawn => absurd hspawn hne) ?_, rfl⟩
    intro x hx
    cases x <;> exact hshared _ hx
  unfold mainStep
  rw [hpc]
  cases hs : s.mainPc with
  | poll =>
    obtain ⟨hflag, -⟩ := hcomm (by simp [hs, MainPc.touches])
    dsimp only
    by_cases hselect : io.select = true
    · rw [if_pos hselect, if_pos hselect]
      refine .some ⟨hlike hexited (by rw [hflag]) hrunning (by simp [hs]) ?_, rfl⟩
      intro x hx
      cases x <;> exact hshared _ hx
    · rw [if_neg hselect, if_neg hselect]
      simpa only [hs, hpc] using hfail "" (by simp [hs])
  | copy =>
    obtain ⟨-, hinfo⟩ := hcomm (by simp [hs, MainPc.touches])
    refine .some ⟨hlike hexited (by rw [hrunning]) hrunning (by simp [hs]) ?_, rfl⟩
    intro x hx
    cases x with
    | chanInfo => exact hinfo
    | clientComm | serverComm | dataStore => exact hshared _ hx
  | closeCmd =>
    refine .some ⟨hlike hexited rfl hrunning (by simp [hs]) ?_, rfl⟩
    intro x hx
    cases x with
    | serverComm => rfl
    | clientComm | chanInfo | dataStore => exact hshared _ hx
  | join =>
    have hserver : t.server = s.server :=
      h .serverThread (.inr (.inr (.inr (.inl ⟨rfl, hs, rfl⟩))))
    have hended : t.serverEnded = s.serverEnded := by rw [serverEnded, hserver, serverEnded]
    rw [hended]
    dsimp only
    split_ifs
    · refine .some ⟨hlike hexited rfl rfl (by simp [hs]) ?_, rfl⟩
      intro x hx
      cases x <;> exact hshared _ hx
    · exact .none
  | dealloc =>
    refine .some ⟨hlike hexited rfl hrunning (by simp [hs]) ?_, rfl⟩
    intro x hx
    cases x with
    | dataStore => exact congrArg DataRing.dealloc (hshared _ hx)
    | clientComm | chanInfo | serverComm => exact hshared _ hx
  | alloc =>
    have hchan : t.chanInfoG = s.chanInfoG := hshared .chanInfo (by simp [hs, MainPc.touches])
    rw [hchan]
    dsimp only
    split_ifs
    · simpa only [hs, hpc, hchan] using hfail _ (by simp [hs])
    · simpa only [hs, hpc, hchan] using hfail _ (by simp [hs])
    · refine .some ⟨hlike hexited rfl hrunning (by simp [hs]) ?_, rfl⟩
      intro x hx
      cases x with
      | chanInfo | dataStore => rfl
      | clientComm | serverComm => exact hshared _ hx
  | finish =>
    obtain ⟨-, hinfo⟩ := hcomm (by simp [hs, MainPc.touches])
    rw [hinfo]
    refine .some ⟨hlike hexited rfl hrunning (by simp [hs]) ?_, rfl⟩
    intro x hx
    cases x with
    | clientComm => exact congrArg (Prod.mk false) hinfo
    | chanInfo => rfl
    | serverComm | dataStore => exact hshared _ hx
  | clearSrv =>
    refine .some ⟨hlike hexited rfl hrunning (by simp [hs]) ?_, rfl⟩
    intro x hx
    cases x with
    | serverComm => rfl
    | clientComm | chanInfo | dataStore => exact hshared _ hx
  | spawn =>
    refine .some ⟨hlike hexited rfl rfl (fun _ => rfl) ?_, rfl⟩
    intro x hx
    cases x <;> exact hshared _ hx

theorem like_client {io : ClientIO} (h : ∀ p ∈ s.reads (.client io), p.value t = p.value s) :
    Like s (.client io) (s.clientStep io).1 (t.clientStep io).1 ∧
      (s.clientStep io).2 = (t.clientStep io).2 := by
  have hclient : t.client = s.client := h .clientThread (.inr (.inl rfl))
  have hexited : t.exited = s.exited := h .exited (.inl rfl)
  have hno : t.comm.clientNo = s.comm.clientNo := h .clientNo (.inr (.inr (.inl ⟨rfl, rfl⟩)))
  have hshared : ∀ x ∈ s.client.touches, (Place.shared x).value t = (Place.shared x).value s :=
    fun x hx => h _ (.inr (.inr (.inr (.inr ⟨x, hx, rfl⟩))))
  have hcomm : .clientComm ∈ s.client.touches → t.comm = s.comm := by
    intro hx
    obtain ⟨hflag, hinfo⟩ := Prod.mk.inj (hshared _ hx)
    show ClientComm.mk t.comm.chanChange t.comm.clientNo t.comm.chanInfo = s.comm
    rw [hflag, hno, hinfo]
  have hring : .dataStore ∈ s.client.touches → t.dataRing = s.dataRing := fun hx => hshared _ hx
  unfold clientStep
  rw [hclient]
  rcases ClientThread.step_other hno hcomm hring with
    ⟨msg, heq, heq₂⟩ | ⟨c', comm', comm₂', r', r₂', es, heq, heq₂, hno', hcomm', hring'⟩
  · rw [heq, heq₂]
    refine ⟨⟨rfl, rfl, fun hl => (by cases hl), ?_⟩, rfl⟩
    intro x hx
    cases x <;> exact hshared _ hx
  · rw [heq, heq₂]
    refine ⟨⟨hexited, rfl, fun hl => (by cases hl), ?_⟩, rfl⟩
    intro x hx
    cases x with
    | clientComm =>
      exact congrArg (fun c : ClientComm => (c.chanChange, c.chanInfo)) (hcomm' hx)
    | dataStore => exact hring' hx
    | chanInfo | serverComm => exact hshared _ hx

theorem like_server {io : ServerIO} (h : ∀ p ∈ s.reads (.server io), p.value t = p.value s) :
    Machine.Mirrors (Like s (.server io)) (s.serverStep io) (t.serverStep io) := by
  have hserver : t.server = s.server := h .serverThread (.inr (.inl rfl))
  have hexited : t.exited = s.exited := h .exited (.inl rfl)
  have hshared : ∀ x ∈ s.touches (.server io),
      (Place.shared x).value t = (Place.shared x).value s :=
    fun x hx => h _ (.inr (.inr (.inr (.inr ⟨x, hx, rfl⟩))))
  unfold serverStep
  rw [hserver]
  cases ht : s.server with
  | none => exact .none
  | some srv =>
    have htouches : s.touches (.server io) = srv.touches io := by
      rw [touches, ht]
      rfl
    rw [htouches] at hshared
    have hflag : .serverComm ∈ srv.touches io → t.serverClose = s.serverClose :=
      fun hx => hshared _ hx
    have hchan : .chanInfo ∈ srv.touches io → t.chanInfoG = s.chanInfoG := fun hx => hshared _ hx
    have hring : .dataStore ∈ srv.touches io → t.dataRing = s.dataRing := fun hx => hshared _ hx
    dsimp only
    split_ifs
    · exact .none
    · rcases ServerThread.step_other hflag hchan hring with
        ⟨msg, heq, heq₂⟩ | ⟨t', close', close₂', es, heq, heq₂, hclose⟩
      · rw [heq, heq₂]
        refine .some ⟨⟨rfl, rfl, fun hl => (by cases hl), ?_⟩, rfl⟩
        intro x hx
        rw [htouches] at hx
        cases x <;> exact hshared _ hx
      · rw [heq, heq₂]
        refine .some ⟨⟨hexited, rfl, fun hl => (by cases hl), ?_⟩, rfl⟩
        intro x hx
        rw [htouches] at hx
        cases x with
        | serverComm => exact hclose hx
        | clientComm | chanInfo | dataStore => exact hshared _ hx

/-- **A step depends on nothing** but what it reads. -/
theorem like_of_step (h : ∀ p ∈ s.reads l, p.value t = p.value s) :
    Machine.Mirrors (Like s l) (proxy.step s l) (proxy.step t l) := by
  have hexited : t.exited = s.exited := h .exited (.inl rfl)
  show Machine.Mirrors _ (s.step l) (t.step l)
  unfold step
  rw [hexited]
  split_ifs
  · exact .none
  · cases l with
    | main io => exact like_main h
    | client io => exact .some (like_client h)
    | server io => exact like_server h

theorem writes_of_like {s' t' : Core} {fs : List Event}
    (h : ∀ p ∈ s.reads l, p.value t = p.value s) (hs : proxy.step s l = some (s', es))
    (ht : proxy.step t l = some (t', fs)) (hlike : Like s l s' t') : t.writes l = s.writes l := by
  have hown : l.thread.place.value t = l.thread.place.value s := h _ (.inr (.inl rfl))
  have hends : t.ends l = s.ends l := by
    rw [ends, ends, hs, ht]
    exact congrArg Option.isSome hlike.exited
  have hpc : l.thread = .main → t.mainPc = s.mainPc := by
    intro hl
    rw [hl] at hown
    exact (Prod.mk.inj hown).1
  ext p
  show (if t.ends l = true then _ else _) ↔ (if s.ends l = true then _ else _)
  rw [hends, touches_of_own hown]
  split_ifs
  · exact Iff.rfl
  · refine or_congr_right (or_congr_left ?_)
    exact and_congr_right fun hl => by rw [hpc hl]

/-- What the steps of the threads read and write. -/
def footprint : Footprint proxy Place.Value where
  value := Place.value
  ext _ _ := ext_value
  reads := reads
  writes := writes
  spec s t l h := by
    have hmirrors := like_of_step h
    cases hs : proxy.step s l with
    | none =>
      cases ht : proxy.step t l with
      | none => exact .none
      | some r => rw [hs, ht] at hmirrors; cases hmirrors
    | some r =>
      cases ht : proxy.step t l with
      | none => rw [hs, ht] at hmirrors; cases hmirrors
      | some r' =>
        rw [hs, ht] at hmirrors
        obtain ⟨hlike, hes⟩ : Like s l r.1 r'.1 ∧ r.2 = r'.2 := by
          cases hmirrors
          assumption
        refine .some ⟨?_, hes⟩
        intro p
        constructor
        · intro hp
          cases hends : s.ends l with
          | true =>
            change (if s.ends l = true then _ else _) at hp
            rw [if_pos hends] at hp
            rw [hp]
            exact hlike.exited
          | false =>
            rcases (mem_writes hends).1 hp with rfl | ⟨hl, hpc, rfl⟩ | ⟨x, hx, rfl⟩
            · exact hlike.own
            · exact hlike.spawned hl hpc
            · exact hlike.shared x hx
        · intro hp
          refine frame_of_step ht ?_
          rwa [writes_of_like h hs ht hlike]

end Core

end SdrProxy
