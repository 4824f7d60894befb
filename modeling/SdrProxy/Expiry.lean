import SdrProxy.Containment
import SdrProxy.Sessions

/-!
# The expiry of records

What the sweep at the end of the loop of the server thread leaves in the list of records.

* `threadMachine` : the server thread;
* `Swept` : the list has no record that was last updated more than `DATASIZE` seconds ago, unless an
  active connection uses it, and each active connection has its record in the list;
* `Clients` : which client is on each connection, and when each client was last seen;
* `Recorded` : the list says about each client when it was last seen (`Recorded.step`);
* `linked_always` : each active connection has its record, in every run;
* `swept_iff_allPresent` : the sweep, which works on another list, leaves the list so exactly if
  each client that was last seen too long ago still has a connection;
* `gone_not_swept` : a run with a client that has none.
-/

namespace SdrProxy

/-- What a step of the server thread meets. -/
structure ThreadLabel where
  /-- The outcomes of its calls. -/
  io : ServerIO
  /-- `SRV_CLOSECMD` of the flags. -/
  closeCmd : Bool
  /-- `chan_info_g`. -/
  chanInfoG : ChannelInfo
  /-- The data ring. -/
  dataRing : DataRing

/-- The server thread. -/
def threadMachine : Machine ServerThread ThreadLabel Event where
  step t l := match t.step l.io l.closeCmd l.chanInfoG l.dataRing with
    | .ok (t', _, es) => some (t', es)
    | .error _ => none

theorem threadMove_of_step {t t' : ServerThread} {label : ThreadLabel} {es : List Event}
    (h : threadMachine.step t label = some (t', es)) :
    ThreadMove label.io label.chanInfoG label.dataRing t t' es := by
  simp only [threadMachine] at h
  cases heq : t.step label.io label.closeCmd label.chanInfoG label.dataRing with
  | error msg =>
    rw [heq] at h
    cases h
  | ok r =>
    obtain ⟨t₁, closeCmd', es₁⟩ := r
    rw [heq] at h
    cases h
    exact ServerThread.threadMove_of_step heq

/-- The record is met on the list at the pointer. -/
inductive HistHeap.InList (h : HistHeap) : Option ℕ → ℕ → Prop
  | here {p : ℕ} {r : ConnHistData} : h.recs p = some r → InList h (some p) p
  | behind {p q : ℕ} {r : ConnHistData} : h.recs p = some r → InList h r.next q →
      InList h (some p) q

/-- The step is a sweep. -/
def Sweeps (t : ServerThread) (l : ThreadLabel) : Prop :=
  t.pc = .expire ∧ l.io.now - DATASIZE ≠ t.prevExpTime

instance (t : ServerThread) (l : ThreadLabel) : Decidable (Sweeps t l) :=
  inferInstanceAs (Decidable (_ ∧ _))

/-- The connection is active. -/
def ServerThread.Active (t : ServerThread) (i : ℕ) : Prop :=
  (t.connData i).state ≠ .SRVR_STATE_INACTIVE

/-- What a sweep at the time `now` is to leave. -/
structure Swept (now : ℤ) (t : ServerThread) : Prop where
  /-- Old records are in use. -/
  expired : ∀ p r, t.hist.InList t.firstIdLst p → t.hist.recs p = some r →
    r.lastUpdate < now - DATASIZE → ∃ i, t.Active i ∧ (t.connData i).history = some p
  /-- Records in use are in the list. -/
  kept : ∀ i, t.Active i → ∃ p, (t.connData i).history = some p ∧ t.hist.InList t.firstIdLst p

/-- What can be seen of the clients. -/
structure Clients where
  /-- The client on each connection. -/
  addr : ℕ → Option Address
  /-- When the client last connected or was given a packet. -/
  seen : Address → Option ℤ

namespace Clients

/-- Nothing was seen. -/
def none : Clients := ⟨fun _ => .none, fun _ => .none⟩

/-- The client that a listening socket has accepted. -/
def accepted (pc : ServerPc) (io : ServerIO) : Option Address :=
  match pc with
  | .listen listenerNo => io.accept.map fun remoteIp => (remoteIp, SERVERPORTNO + listenerNo)
  | _ => .none

/-- What an event says. -/
def seeEvent (t : ServerThread) (io : ServerIO) (g : Clients) : Event → Clients
  | .opened conn => match accepted t.pc io with
    | some a => ⟨Function.update g.addr conn (some a), Function.update g.seen a (some io.now)⟩
    | .none => g
  | .packetPlaced conn _ _ => match g.addr conn with
    | some a => { g with seen := Function.update g.seen a (some io.now) }
    | .none => g
  | _ => g

/-- What a step says. -/
def see (g : Clients) (t : ServerThread) (l : ThreadLabel) (es : List Event) : Clients :=
  es.foldl (seeEvent t l.io) g

/-- Each client that was last seen more than `DATASIZE` seconds before `now` has a connection. -/
def AllPresent (now : ℤ) (t : ServerThread) (g : Clients) : Prop :=
  ∀ a s, g.seen a = some s → s < now - DATASIZE → ∃ i, t.Active i ∧ g.addr i = some a

end Clients

/-- The thread with what was seen of the clients. -/
def seenMachine : Machine (ServerThread × Clients) ThreadLabel Event :=
  threadMachine.record Clients.see

/-! ### What the list says -/

theorem inList_iff {h : HistHeap} {head : Option ℕ} {l : List ℕ} {p : ℕ}
    (hl : Linked ConnHistData.next h.recs head l) : h.InList head p ↔ p ∈ l := by
  induction hl with
  | nil =>
    refine iff_of_false ?_ List.not_mem_nil
    rintro ⟨⟩
  | @cons q r l hr hrest ih =>
    rw [List.mem_cons, ← ih]
    constructor
    · intro hin
      cases hin with
      | here _ => exact .inl rfl
      | behind hr' hin' =>
        rw [hr] at hr'
        obtain rfl := Option.some.inj hr'
        exact .inr hin'
    · rintro (rfl | hin)
      · exact .here hr
      · exact .behind hr hin

/-- The list of the thread says when each client was last seen; nothing is in the list that is
swept. -/
structure Recorded (t : ServerThread) (g : Clients) (l : List ℕ) : Prop where
  accounts : Accounts t l g.addr
  seen : ∀ a, g.seen a = (t.hist.book l a).map HistEntry.lastUpdate
  empty : t.serverConnHistory = none
  active_lt : ∀ i, t.Active i → i < MAXCLIENTCONNECTIONS

variable {t t' : ServerThread} {g : Clients} {l : List ℕ} {label : ThreadLabel} {es : List Event}

theorem recorded_init (mem : Bfr) : Recorded (.init mem) .none [] :=
  ⟨Accounts.init mem, fun _ => rfl, rfl, fun _ hi => absurd rfl hi⟩

/-- Where connections are only closed, nothing changes. -/
theorem Recorded.congr (h : Recorded t g l) (hhist : t'.hist = t.hist)
    (hhead : t'.firstIdLst = t.firstIdLst) (hempty : t'.serverConnHistory = t.serverConnHistory)
    (hdata : ∀ i, t'.Active i → t.Active i ∧ (t'.connData i).history = (t.connData i).history) :
    Recorded t' g l := by
  refine ⟨⟨?_, ?_⟩, ?_, hempty.trans h.empty, fun i hi => h.active_lt i (hdata i hi).1⟩
  · rw [hhist, hhead]
    exact h.accounts.list
  · intro i hi
    obtain ⟨hactive, hsame⟩ := hdata i hi
    rw [hhist, hsame]
    exact h.accounts.linked i hactive
  · rw [hhist]
    exact h.seen

/-- **What a sweep leaves**, in terms of what was seen of the clients. -/
theorem Recorded.swept_iff (h : Recorded t g l) (now : ℤ) : Swept now t ↔ g.AllPresent now t := by
  have hin : ∀ p, t.hist.InList t.firstIdLst p ↔ p ∈ l := fun _ => inList_iff h.accounts.list.linked
  constructor
  · intro hswept a s hs hold
    rw [h.seen a, Option.map_eq_some_iff] at hs
    obtain ⟨e, he, rfl⟩ := hs
    obtain ⟨p, hp, hentry, rfl⟩ := h.accounts.list.book_eq_some.1 he
    obtain ⟨r, hr, rfl⟩ := HistHeap.entry_eq_some.1 hentry
    obtain ⟨i, hi, hlink⟩ := hswept.expired p r ((hin p).2 hp) hr hold
    obtain ⟨b, q, hb, hq, hlink'⟩ := h.accounts.linked i hi
    -- the connection that uses the record is one of the client
    rw [hlink] at hlink'
    obtain rfl := Option.some.inj hlink'
    obtain ⟨-, e', he', rfl⟩ := h.accounts.list.find_eq_some.1 hq
    rw [hentry] at he'
    obtain rfl := Option.some.inj he'
    exact ⟨i, hi, hb⟩
  · intro hpresent
    refine ⟨?_, ?_⟩
    · intro p r hp hr hold
      have hentry := HistHeap.entry_of_recs hr
      have hbook : t.hist.book l r.entry.address = some r.entry :=
        h.accounts.list.book_eq_some.2 ⟨p, (hin p).1 hp, hentry, rfl⟩
      obtain ⟨i, hi, ha⟩ := hpresent r.entry.address r.lastUpdate
        (by rw [h.seen, hbook]; rfl) hold
      obtain ⟨b, q, hb, hq, hlink⟩ := h.accounts.linked i hi
      rw [ha] at hb
      obtain rfl := Option.some.inj hb
      obtain ⟨hmem, e, he, haddr⟩ := h.accounts.list.find_eq_some.1 hq
      rw [h.accounts.list.distinct p ((hin p).1 hp) q hmem _ _ hentry he haddr.symm]
      exact ⟨i, hi, hlink⟩
    · intro i hi
      obtain ⟨a, p, -, hp, hlink⟩ := h.accounts.linked i hi
      exact ⟨p, hlink, (hin p).2 (HistHeap.mem_of_find hp)⟩

/-! ### Steps of the thread -/

theorem expireOld_of_empty (h : t.serverConnHistory = none) (now : ℤ) :
    ∃ time, t.expireOld now = .ok { t with prevExpTime := time } := by
  unfold ServerThread.expireOld
  by_cases htime : now - DATASIZE ≠ t.prevExpTime
  · refine ⟨now - DATASIZE, ?_⟩
    simp only [htime, ne_eq, not_false_eq_true, ↓reduceIte, h]
    rfl
  · exact ⟨t.prevExpTime, by simp only [htime, ↓reduceIte]⟩

theorem Recorded.serve (h : Recorded t g l) {conn : ℕ} {c' : Conn} {pc : ServerPc}
    (heq : serviceConnection label.io label.chanInfoG label.dataRing conn
      ⟨t.connData conn, t.hist⟩ = .ok (c', es)) :
    Recorded { t with
      connData := Function.update t.connData conn c'.data
      hist := c'.hist
      pc := pc } (g.see t label es) l := by
  obtain ⟨haccounts, hcases⟩ := h.accounts.serviceConnection heq
  -- only an active connection is active after its service
  have hlt : ∀ i, (Function.update t.connData conn c'.data i).state ≠ .SRVR_STATE_INACTIVE →
      i < MAXCLIENTCONNECTIONS := by
    intro i hi
    by_cases hconn : i = conn
    · subst hconn
      refine h.active_lt i ?_
      intro hinactive
      rw [serviceConnection_inactive hinactive] at heq
      cases heq
      rw [Function.update_self] at hi
      exact hi hinactive
    · rw [Function.update_of_ne hconn] at hi
      exact h.active_lt i hi
  rcases hcases with ⟨-, rfl, rfl⟩ | ⟨a, e, placed, -, ha, -, hserve, hbook⟩
  · exact ⟨⟨haccounts.list, haccounts.linked⟩, h.seen, h.empty, hlt⟩
  · cases placed_of_serve hserve with
    | nothing =>
      refine ⟨⟨haccounts.list, haccounts.linked⟩, ?_, h.empty, hlt⟩
      rw [hbook]
      exact h.seen
    | text text =>
      refine ⟨⟨haccounts.list, haccounts.linked⟩, ?_, h.empty, hlt⟩
      rw [hbook]
      exact h.seen
    | packet element pkt =>
      have hsee : g.see t label [.packetPlaced conn element pkt] =
          { g with seen := Function.update g.seen a (some label.io.now) } := by
        simp only [Clients.see, List.foldl_cons, List.foldl_nil, Clients.seeEvent, ha]
      rw [hsee]
      refine ⟨⟨haccounts.list, haccounts.linked⟩, ?_, h.empty, hlt⟩
      intro b
      show Function.update g.seen a (some label.io.now) b = (c'.hist.book l b).map _
      rw [hbook]
      by_cases hb : b = a
      · subst hb
        simp [notedBook]
      · simp only [notedBook, Option.elim_some, Function.update_of_ne hb]
        exact h.seen b

theorem Recorded.opened (h : Recorded t g l) {pc : ServerPc} {listenerNo newConn : ℕ}
    {remoteIp : List UInt8} (hpc : t.pc = .listen listenerNo)
    (hacc : label.io.accept = some remoteIp)
    (hfree : ServerThread.findInactive t.connData MAXCLIENTCONNECTIONS 0 = some newConn)
    (hopen : t.openConnection label.io label.chanInfoG remoteIp listenerNo newConn = .ok t') :
    ∃ l', Recorded { t' with pc := pc } (g.see t label [.opened newConn]) l' := by
  obtain ⟨t₁, l', hopen', haccounts, hbook, ⟨history, hdata⟩, hempty⟩ :=
    h.accounts.openConnection label.io label.chanInfoG remoteIp listenerNo newConn rfl
  rw [hopen] at hopen'
  cases hopen'
  have hsee : g.see t label [.opened newConn] =
      ⟨Function.update g.addr newConn (some (remoteIp, (SERVERPORTNO + listenerNo : ℤ))),
        Function.update g.seen (remoteIp, (SERVERPORTNO + listenerNo : ℤ))
          (some label.io.now)⟩ := by
    simp only [Clients.see, List.foldl_cons, List.foldl_nil, Clients.seeEvent,
      Clients.accepted, hpc, hacc, Option.map_some]
  refine ⟨l', ?_⟩
  rw [hsee]
  refine ⟨⟨haccounts.list, haccounts.linked⟩, ?_, hempty.trans h.empty, ?_⟩
  · intro b
    show Function.update g.seen _ (some label.io.now) b = (t'.hist.book l' b).map _
    rw [hbook]
    by_cases hb : b = (remoteIp, (SERVERPORTNO + listenerNo : ℤ))
    · subst hb
      simp
    · simp only [Function.update_of_ne hb]
      exact h.seen b
  · intro i hi
    by_cases hnew : i = newConn
    · rw [hnew]
      simpa using findInactive_lt hfree
    · change (t'.connData i).state ≠ _ at hi
      rw [hdata, Function.update_of_ne hnew] at hi
      exact h.active_lt i hi

/-- **A step of the thread keeps what is recorded.** -/
theorem Recorded.step (h : Recorded t g l)
    (hstep : threadMachine.step t label = some (t', es)) :
    ∃ l', Recorded t' (g.see t label es) l' := by
  cases threadMove_of_step hstep with
  | quiet pc => exact ⟨l, h.congr rfl rfl rfl fun i hi => ⟨hi, rfl⟩⟩
  | closed pc _ => exact ⟨l, h.congr rfl rfl rfl fun i hi => absurd rfl hi⟩
  | served pc conn c es _ hserv => exact ⟨l, h.serve hserv⟩
  | accepted pc listenerNo newConn remoteIp t₁ hpc hacc hfree hopen =>
    exact h.opened hpc hacc hfree hopen
  | expired pc t₁ _ hexp =>
    obtain ⟨time, hexp'⟩ := expireOld_of_empty h.empty label.io.now
    rw [hexp] at hexp'
    cases hexp'
    exact ⟨l, h.congr rfl rfl rfl fun i hi => ⟨hi, rfl⟩⟩

theorem Recorded.sweep (h : Recorded t g l) (hsweeps : Sweeps t label) :
    ∃ time, threadMachine.step t label =
      some ({ t with prevExpTime := time, pc := .flags }, []) := by
  obtain ⟨time, hexp⟩ := expireOld_of_empty h.empty label.io.now
  refine ⟨time, ?_⟩
  simp only [threadMachine, ServerThread.step, hsweeps.1, hexp]
  rfl

/-! ### Runs -/

/-- **In every run each active connection has its record.** -/
theorem linked_always (mem : Bfr) (ls : List ThreadLabel) :
    threadMachine.Always (fun _ _ _ t' => t'.Linked) (.init mem) ls := by
  refine Machine.always_of_inv (fun t => ∃ g l, Recorded t g l) ⟨_, _, recorded_init mem⟩ ?_ ls
  rintro t label t' es ⟨g, l, h⟩ hstep
  obtain ⟨l', h'⟩ := h.step hstep
  refine ⟨⟨_, l', h'⟩, ?_⟩
  intro i hi
  obtain ⟨a, p, -, hp, hlink⟩ := h'.accounts.linked i hi
  obtain ⟨e, he, -⟩ := HistHeap.address_of_find hp
  obtain ⟨r, hr, -⟩ := HistHeap.entry_eq_some.1 he
  exact ⟨r, HistHeap.deref_eq_ok.2 ⟨p, hlink, hr⟩⟩

/-- **The list is swept** exactly in the runs in which, at every sweep, each client that was last
seen more than `DATASIZE` seconds ago still has a connection: the sweep removes no record. -/
theorem swept_iff_allPresent (mem : Bfr) (ls : List ThreadLabel) :
    threadMachine.Always (fun t label _ t' => Sweeps t label → Swept label.io.now t')
        (.init mem) ls ↔
      seenMachine.Always (fun tg label _ _ => Sweeps tg.1 label →
        tg.2.AllPresent label.io.now tg.1) (.init mem, .none) ls := by
  rw [← Machine.always_record Clients.see Clients.none]
  refine Machine.always_iff (fun tg => ∃ l, Recorded tg.1 tg.2 l) ⟨[], recorded_init mem⟩ ?_ ls
  rintro ⟨t, g⟩ label ⟨t', g'⟩ es ⟨l, h⟩ hstep
  obtain ⟨hstep, rfl⟩ := Machine.record_step.1 hstep
  refine ⟨?_, fun _ => h.step hstep⟩
  refine forall_congr' fun hsweeps => ?_
  obtain ⟨time, hsweep⟩ := h.sweep hsweeps
  rw [hstep] at hsweep
  cases hsweep
  rw [← h.swept_iff]
  -- what is left is what was there
  constructor
  · rintro ⟨hexpired, hkept⟩
    exact ⟨hexpired, hkept⟩
  · rintro ⟨hexpired, hkept⟩
    exact ⟨hexpired, hkept⟩

/-- The outcomes for the thread at the time `now`. -/
def threadLabel (readable : Bool) (recv : RecvResult) (accept : Option (List UInt8)) (now : ℤ) :
    ThreadLabel where
  io := ⟨true, true, true, readable, true, recv, ⟨7, .EAGAIN⟩, accept, true, now, fun _ => 0⟩
  closeCmd := false
  chanInfoG := ⟨10, 1, 1⟩
  dataRing := .alloc 0 fun _ => ⟨⟨0, 0, 0, false⟩, fun _ => 0⟩

/-- Steps in which nothing happens. -/
def idleSteps (n : ℕ) (now : ℤ) : List ThreadLabel :=
  List.replicate n (threadLabel false .again none now)

/-- A client connects at the time 100000, and is gone a turn later. -/
def goneRun : List ThreadLabel :=
  idleSteps 12 100000 ++ [threadLabel true .again (some [0x31]) 100000] ++ idleSteps 3 100000 ++
    [threadLabel true (.bytes []) none 100001] ++ idleSteps 11 100001

/-- **Nothing is expired**: the record of the client is in the list long after. -/
theorem gone_not_swept : ¬ threadMachine.Always
    (fun t label _ t' => Sweeps t label → Swept label.io.now t') (.init fun _ => 0)
    (goneRun ++ idleSteps 1 200000) := by
  intro h
  have hgone : (threadMachine.run (.init fun _ => 0) goneRun).any (fun r =>
      decide (Sweeps r.1 (threadLabel false .again none 200000)) &&
      decide (r.1.firstIdLst = some 0) &&
      (r.1.hist.recs 0).any (fun record => decide (record.lastUpdate = 100000)) &&
      (List.range MAXCLIENTCONNECTIONS).all (fun i =>
        decide ((r.1.connData i).state = .SRVR_STATE_INACTIVE))) = true := by
    decide +kernel
  obtain ⟨⟨t, es⟩, hrun, hfacts⟩ := (Option.any_eq_true _ _).1 hgone
  simp only [Bool.and_eq_true, decide_eq_true_eq, List.all_eq_true, List.mem_range] at hfacts
  obtain ⟨⟨⟨hsweeps, hhead⟩, hrec⟩, hinactive⟩ := hfacts
  obtain ⟨record, hrecord, hupdate⟩ := (Option.any_eq_true _ _).1 hrec
  obtain ⟨g, l, hrecorded⟩ := Machine.run_ind (fun t _ => ∃ g l, Recorded t g l)
    ⟨_, _, recorded_init _⟩ (by
      rintro t label t' es es' ⟨g, l, h⟩ hstep
      obtain ⟨l', h'⟩ := h.step hstep
      exact ⟨_, l', h'⟩) hrun
  obtain ⟨time, hstep⟩ := hrecorded.sweep hsweeps
  have hlast := Machine.always_of_append h hrun
  obtain ⟨hswept, -⟩ := Machine.always_cons.1 hlast _ _ hstep
  obtain ⟨i, hi, -⟩ := (hswept hsweeps).expired 0 record (by
    show HistHeap.InList t.hist t.firstIdLst 0
    rw [hhead]
    exact .here hrecord) hrecord (by
    show record.lastUpdate < 200000 - DATASIZE
    rw [of_decide_eq_true hupdate]
    decide)
  have hlt : i < MAXCLIENTCONNECTIONS := hrecorded.active_lt i hi
  exact hi (hinactive i hlt)

end SdrProxy
