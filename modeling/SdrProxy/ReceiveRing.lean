import SdrProxy.Expiry
import SdrProxy.Requests

/-!
# The receive rings of the server

How full the ring gets on which a connection keeps what its client said.

* `RingSet.Roomy` : the ring has the size it was allocated with and room for a channel request;
* `checkServerIncoming_roomy` : whatever was received, a look at the ring leaves room on it;
* `serviceConnection_roomy` : so a service leaves room if it found some;
* `serviceConnection_gone` : with room on the ring, a client that is gone is noticed;
* `rcvRing_roomy` : both hold for each active connection at every moment of every run.
-/

namespace SdrProxy

/-- A receive ring of the server with room for a channel request. -/
structure RingSet.Roomy (r : RingSet) : Prop where
  bfrsize : r.bfrsize = SERVERRCVBFRSIZE + 1
  room : CHANREQUESTLEN ≤ r.bytesFree

namespace RingSet

variable {r : RingSet}

/-- What is not stored is free. -/
theorem roomy_of_stored (hsize : r.bfrsize = SERVERRCVBFRSIZE + 1)
    (hstored : r.bytesStored + CHANREQUESTLEN ≤ SERVERRCVBFRSIZE) : r.Roomy := by
  refine ⟨hsize, ?_⟩
  have hsum := r.bytesStored_add_bytesFree
  rw [hsize, Nat.add_sub_cancel] at hsum
  omega

theorem roomy_alloc (mem : Bfr) : (alloc SERVERRCVBFRSIZE mem).Roomy := by
  refine roomy_of_stored rfl ?_
  rw [← length_contents, contents_alloc]
  decide

theorem Roomy.free_ne_zero (h : r.Roomy) : min SERVERRCVBFRSIZE r.bytesFree ≠ 0 := by
  have hpos : 0 < r.bytesFree := Nat.lt_of_lt_of_le (by decide) h.room
  exact (Nat.lt_min.2 ⟨by decide, hpos⟩).ne'

end RingSet

/-! ### What the client says -/

variable {c : ConnectionData} {io : ServerIO} {chanInfoG : ChannelInfo} {dataRing : DataRing}
variable {conn : ℕ}

theorem bfrsize_checkServerIncoming (c : ConnectionData) :
    (checkServerIncoming c).2.rcvRing.bfrsize = c.rcvRing.bfrsize := by
  unfold checkServerIncoming
  dsimp only
  split_ifs <;> simp

/-- **A look at the ring leaves room on it**, wherever a request is and whether there is one. -/
theorem checkServerIncoming_roomy (hsize : c.rcvRing.bfrsize = SERVERRCVBFRSIZE + 1) :
    (checkServerIncoming c).2.rcvRing.Roomy := by
  have hcap : SERVERRCVBFRSIZE = 300 := rfl
  have hreq : CHANREQUESTLEN = 7 := rfl
  have hlt := c.rcvRing.bytesStored_lt
  refine RingSet.roomy_of_stored ((bfrsize_checkServerIncoming c).trans hsize) ?_
  rw [← RingSet.length_contents]
  cases hfind : findSub CHANREQUEST c.rcvRing.contents with
  | some i =>
    -- the request at least is gone
    have hle := findSub_le hfind
    have hlen : CHANREQUEST.length = CHANREQUESTLEN := rfl
    rw [hlen, RingSet.length_contents] at hle
    rw [(checkServerIncoming_found hfind).2, List.length_drop, RingSet.length_contents]
    omega
  | none =>
    rw [(checkServerIncoming_missed hfind).2, List.length_drop, RingSet.length_contents]
    omega

theorem serverRcvToRing_ring (res : RecvResult) (c : ConnectionData) :
    (serverRcvToRing res c).2.rcvRing.bfrsize = c.rcvRing.bfrsize ∧
      ((serverRcvToRing res c).1 ≤ 0 → (serverRcvToRing res c).2 = c) := by
  unfold serverRcvToRing
  dsimp only
  split_ifs with hfree
  · exact ⟨rfl, fun _ => rfl⟩
  · cases res with
    | again => exact ⟨rfl, fun _ => rfl⟩
    | error => exact ⟨rfl, fun _ => rfl⟩
    | bytes l =>
      dsimp only
      split_ifs with hpos
      · refine ⟨RingSet.bfrsize_store _ _, fun hle => ?_⟩
        exact absurd (Int.natCast_pos.2 hpos) (not_lt.2 hle)
      · exact ⟨rfl, fun _ => rfl⟩

theorem serviceIncoming_roomy (io : ServerIO) (h : c.rcvRing.Roomy) :
    (serviceIncoming io c).rcvRing.Roomy := by
  obtain ⟨hsize, hsame⟩ := serverRcvToRing_ring io.recv c
  unfold serviceIncoming
  dsimp only
  split_ifs with hread hneg hpos hfound
  · rw [hsame hneg.le]
    exact h
  · exact checkServerIncoming_roomy (hsize.trans h.bfrsize)
  · exact checkServerIncoming_roomy (hsize.trans h.bfrsize)
  · rw [hsame (not_lt.1 hpos)]
    exact h
  · exact h

/-- With room on the ring a client that is gone ends the connection. -/
theorem serviceIncoming_gone (h : c.rcvRing.Roomy) (hread : io.readable = true)
    (hgone : io.recv = .bytes [] ∨ io.recv = .error) :
    serviceIncoming io c = { c with state := .SRVR_STATE_SHUTDOWN } := by
  have hfree := h.free_ne_zero
  rcases hgone with hrecv | hrecv
  · have hrcv : serverRcvToRing io.recv c = (-2, c) := by
      simp [serverRcvToRing, hrecv, hfree]
    simp [serviceIncoming, hread, hrcv]
  · have hrcv : serverRcvToRing io.recv c = (-1, c) := by
      simp [serverRcvToRing, hrecv, hfree]
    simp [serviceIncoming, hread, hrcv]

/-! ### A service -/

section Service

variable {c c' : Conn} {es : List Event}

theorem SwitchMove.rcvRing_eq (h : SwitchMove io chanInfoG dataRing conn c c' es) :
    c'.data.rcvRing = c.data.rcvRing := by
  cases h with
  | adc record rv _ _ hput => cases hput <;> rfl
  | _ => rfl

/-- **A service leaves room on the receive ring** if it found some. -/
theorem serviceConnection_roomy (h : c.data.rcvRing.Roomy)
    (hserv : serviceConnection io chanInfoG dataRing conn c = .ok (c', es)) :
    c'.data.rcvRing.Roomy := by
  by_cases hactive : c.data.state = .SRVR_STATE_INACTIVE
  · rw [serviceConnection_inactive hactive] at hserv
    cases hserv
    exact h
  · obtain ⟨c₁, -, hmove, -, hdata⟩ := serviceConnection_moves hserv hactive
    rw [hdata]
    show c₁.data.rcvRing.Roomy
    rw [hmove.rcvRing_eq]
    exact serviceIncoming_roomy io h

/-- **A client that is gone is noticed**: its connection is closed at once. -/
theorem serviceConnection_gone (h : c.data.rcvRing.Roomy)
    (hactive : c.data.state ≠ .SRVR_STATE_INACTIVE) (hread : io.readable = true)
    (hgone : io.recv = .bytes [] ∨ io.recv = .error) :
    serviceConnection io chanInfoG dataRing conn c =
      .ok ({ c with data := { c.data with state := .SRVR_STATE_INACTIVE } }, []) := by
  unfold serviceConnection
  rw [if_neg hactive, serviceIncoming_gone h hread hgone]
  simp [serviceState, serviceOutgoing, bind, Except.bind, pure, Except.pure]

end Service

/-! ### The thread -/

/-- The receive rings of all active connections have room. -/
def ServerThread.Roomy (t : ServerThread) : Prop :=
  ∀ i, t.Active i → (t.connData i).rcvRing.Roomy

variable {t t' : ServerThread} {label : ThreadLabel} {es : List Event}

theorem ServerThread.roomy_init (mem : Bfr) : (ServerThread.init mem).Roomy :=
  fun _ hi => absurd rfl hi

/-- A step of the thread leaves room on the receive rings. -/
theorem roomy_step (h : t.Roomy) (hstep : threadMachine.step t label = some (t', es)) :
    t'.Roomy := by
  intro i hi
  cases threadMove_of_step hstep with
  | quiet pc => exact h i hi
  | closed pc _ => exact absurd rfl hi
  | served pc conn c es _ hserv =>
    change (Function.update t.connData conn c.data i).rcvRing.Roomy
    change (Function.update t.connData conn c.data i).state ≠ .SRVR_STATE_INACTIVE at hi
    by_cases hconn : i = conn
    · subst hconn
      rw [Function.update_self] at hi ⊢
      have hactive : t.Active i := by
        intro hinactive
        rw [serviceConnection_inactive hinactive] at hserv
        cases hserv
        exact hi hinactive
      exact serviceConnection_roomy (h i hactive) hserv
    · rw [Function.update_of_ne hconn] at hi ⊢
      exact h i hi
  | accepted pc listenerNo newConn remoteIp t₁ _ _ _ hopen =>
    obtain ⟨record, hdata⟩ := openConnection_connData hopen
    change (t₁.connData i).rcvRing.Roomy
    change (t₁.connData i).state ≠ .SRVR_STATE_INACTIVE at hi
    rw [hdata] at hi ⊢
    by_cases hnew : i = newConn
    · subst hnew
      rw [Function.update_self]
      exact RingSet.roomy_alloc label.io.mem
    · rw [Function.update_of_ne hnew] at hi ⊢
      exact h i hi
  | expired pc t₁ _ hexp =>
    change (t₁.connData i).rcvRing.Roomy
    change (t₁.connData i).state ≠ .SRVR_STATE_INACTIVE at hi
    rw [ServerThread.expireOld_connData hexp] at hi ⊢
    exact h i hi

/-- **The receive ring of a connection never fills up.**  In every run, whatever the clients send,
the ring of each active connection has room for a channel request, so that `server_rcv_to_ring` gets
to its `recv`, and a service of it closes the connection if the client is gone. -/
theorem rcvRing_roomy {mem : Bfr} {ls : List ThreadLabel}
    (hrun : threadMachine.run (.init mem) ls = some (t, es)) (conn : ℕ) (hactive : t.Active conn) :
    CHANREQUESTLEN ≤ (t.connData conn).rcvRing.bytesFree ∧
    min SERVERRCVBFRSIZE (t.connData conn).rcvRing.bytesFree ≠ 0 ∧
    ∀ (io : ServerIO) (chanInfoG : ChannelInfo) (dataRing : DataRing), io.readable = true →
      (io.recv = .bytes [] ∨ io.recv = .error) →
      serviceConnection io chanInfoG dataRing conn ⟨t.connData conn, t.hist⟩ =
        .ok (⟨{ t.connData conn with state := .SRVR_STATE_INACTIVE }, t.hist⟩, []) := by
  have hroomy : t.Roomy := Machine.run_ind (fun t _ => t.Roomy) (ServerThread.roomy_init mem)
    (fun t label t' es es' h hstep => roomy_step h hstep) hrun
  have hring := hroomy conn hactive
  refine ⟨hring.room, hring.free_ne_zero, ?_⟩
  intro io chanInfoG dataRing hread hgone
  exact serviceConnection_gone hring hactive hread hgone

/-- A client connects and sends bytes that are no request. -/
def floodRun : List ThreadLabel :=
  idleSteps 12 0 ++ [threadLabel true .again (some [0x31]) 0] ++ idleSteps 3 0 ++
    [threadLabel true (.bytes (List.replicate 40 0x78)) none 0]

/-- There is room after that. -/
theorem rcvRing_roomy_flood : ∃ t es,
    threadMachine.run (.init fun _ => 0) floodRun = some (t, es) ∧
    CHANREQUESTLEN ≤ (t.connData 0).rcvRing.bytesFree := by
  have hfacts : (threadMachine.run (.init fun _ => 0) floodRun).any (fun r =>
      decide ((r.1.connData 0).state ≠ .SRVR_STATE_INACTIVE)) = true := by
    decide +kernel
  obtain ⟨⟨t, es⟩, hrun, hactive⟩ := (Option.any_eq_true _ _).1 hfacts
  have hstate : (t.connData 0).state ≠ .SRVR_STATE_INACTIVE := of_decide_eq_true hactive
  exact ⟨t, es, hrun, (rcvRing_roomy hrun 0 hstate).1⟩

end SdrProxy
