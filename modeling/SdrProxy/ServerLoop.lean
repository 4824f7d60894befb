import SdrProxy.Server

/-!
# The steps of the server thread

What a step of the server thread is, in terms of the operations on the connections.

* `ServerThread.openConnection` : `get_new_connection` from where it has found a connection for the
  client (`getNewConnection_cases`), and `openRecord`, what it does to the records
  (`openConnection_eq`);
* `step_service` : a step that serves a connection;
* `ThreadMove` : what a step of the thread can do (`ServerThread.threadMove_of_step`).
-/

namespace SdrProxy

/-! ### Opening -/

/-- A connection record as `get_new_connection` sets it up. -/
def ConnectionData.opened (io : ServerIO) (chanInfoG : ChannelInfo) (record : Option ℕ) :
    ConnectionData where
  state := .SRVR_STATE_INIT
  history := record
  idleTimer := SRVR_IDLE_TIMEOUT
  rcvRing := .alloc SERVERRCVBFRSIZE io.mem
  sendRing := .alloc (ServerThread.sendBfrSize chanInfoG) io.mem

namespace ServerThread

/-- `get_new_connection` from where the client was accepted and the connection `newConn` found. -/
def openConnection (io : ServerIO) (chanInfoG : ChannelInfo) (remoteIp : List UInt8)
    (listenerNo newConn : ℕ) (t : ServerThread) : Except String ServerThread := do
  let serverPort : ℤ := SERVERPORTNO + listenerNo
  let (found, head, hist) ← t.hist.clhistoryLookup t.firstIdLst remoteIp serverPort 0 .ID_RETR
  let (record, head, hist) ← match found with
    | none => hist.clhistoryLookup head remoteIp serverPort 0 .ID_ADD
    | some p => do
      let r ← hist.deref (some p)
      pure (some p, head, hist.modify p { r with lastPacketTime := setBack r.lastPacketTime })
  let r ← hist.deref record
  let hist := hist.modify (record.getD 0) { r with lastUpdate := io.now }
  return { t with
    connData := Function.update t.connData newConn (.opened io chanInfoG record)
    hist := hist
    firstIdLst := head }

end ServerThread

/-- The record of a new connection: that of its client, set back, or a new one. -/
def openRecord (now : ℤ) (remoteIp : List UInt8) (serverPort : ℤ) (head : Option ℕ)
    (hist : HistHeap) : Except String (Option ℕ × Option ℕ × HistHeap) := do
  let (found, head, hist) ← hist.clhistoryLookup head remoteIp serverPort 0 .ID_RETR
  let (record, head, hist) ← match found with
    | none => hist.clhistoryLookup head remoteIp serverPort 0 .ID_ADD
    | some p => do
      let r ← hist.deref (some p)
      pure (some p, head,
        hist.modify p { r with lastPacketTime := ServerThread.setBack r.lastPacketTime })
  let r ← hist.deref record
  return (record, head, hist.modify (record.getD 0) { r with lastUpdate := now })

variable {io : ServerIO} {chanInfoG : ChannelInfo} {dataRing : DataRing} {conn : ℕ}
variable {t t' : ServerThread} {es : List Event}

/-- `get_new_connection` without a client or without room for it. -/
theorem getNewConnection_of_none {listenerNo : ℕ} (h : io.accept = none ∨
    ServerThread.findInactive t.connData MAXCLIENTCONNECTIONS 0 = none) :
    t.getNewConnection io chanInfoG listenerNo = .ok (t, []) := by
  unfold ServerThread.getNewConnection
  rcases h with h | h
  · rw [h]
  · cases hacc : io.accept with
    | none => rfl
    | some remoteIp =>
      dsimp only
      rw [h]

theorem opens_eq_false : t.opens io = false ↔ io.accept = none ∨
    ServerThread.findInactive t.connData MAXCLIENTCONNECTIONS 0 = none := by
  rw [ServerThread.opens, Bool.and_eq_false_iff, Option.isSome_eq_false_iff,
    Option.isSome_eq_false_iff, Option.isNone_iff_eq_none, Option.isNone_iff_eq_none]

theorem getNewConnection_of_some {remoteIp : List UInt8} {newConn : ℕ}
    (hacc : io.accept = some remoteIp)
    (hfree : ServerThread.findInactive t.connData MAXCLIENTCONNECTIONS 0 = some newConn)
    (listenerNo : ℕ) : t.getNewConnection io chanInfoG listenerNo =
      (t.openConnection io chanInfoG remoteIp listenerNo newConn).map fun t' =>
        (t', [.opened newConn]) := by
  unfold ServerThread.getNewConnection ServerThread.openConnection
  simp only [hacc, hfree]
  cases t.hist.clhistoryLookup t.firstIdLst remoteIp (SERVERPORTNO + listenerNo) 0 .ID_RETR with
  | error msg => rfl
  | ok lookup =>
    obtain ⟨found, head, hist⟩ := lookup
    cases found with
    | none =>
      simp only [bind, Except.bind]
      cases hist.clhistoryLookup head remoteIp (SERVERPORTNO + listenerNo) 0 .ID_ADD with
      | error msg => rfl
      | ok added =>
        obtain ⟨record, head', hist'⟩ := added
        simp only
        cases hist'.deref record <;> rfl
    | some p =>
      simp only [bind, Except.bind]
      cases hist.deref (some p) with
      | error msg => rfl
      | ok r =>
        simp only [pure, Except.pure]
        cases HistHeap.deref (some p) (hist.modify p
          { r with lastPacketTime := ServerThread.setBack r.lastPacketTime }) <;> rfl

theorem openConnection_eq (remoteIp : List UInt8) (listenerNo newConn : ℕ) :
    t.openConnection io chanInfoG remoteIp listenerNo newConn =
      (openRecord io.now remoteIp (SERVERPORTNO + listenerNo) t.firstIdLst t.hist).map fun r =>
        { t with
          connData := Function.update t.connData newConn (.opened io chanInfoG r.1)
          hist := r.2.2
          firstIdLst := r.2.1 } := by
  unfold ServerThread.openConnection openRecord
  show Except.bind (t.hist.clhistoryLookup t.firstIdLst remoteIp (SERVERPORTNO + listenerNo) 0
    .ID_RETR) _ = Except.map _ (Except.bind _ _)
  cases t.hist.clhistoryLookup t.firstIdLst remoteIp (SERVERPORTNO + listenerNo) 0 .ID_RETR with
  | error msg => rfl
  | ok lookup =>
    obtain ⟨found, head, hist⟩ := lookup
    cases found with
    | none =>
      simp only [bind, Except.bind]
      cases hist.clhistoryLookup head remoteIp (SERVERPORTNO + listenerNo) 0 .ID_ADD with
      | error msg => rfl
      | ok added =>
        obtain ⟨record, head', hist'⟩ := added
        simp only
        cases hist'.deref record <;> rfl
    | some p =>
      simp only [bind, Except.bind]
      cases hist.deref (some p) with
      | error msg => rfl
      | ok r =>
        simp only [pure, Except.pure]
        cases HistHeap.deref (some p) (hist.modify p
          { r with lastPacketTime := ServerThread.setBack r.lastPacketTime }) <;> rfl

theorem openConnection_connData {remoteIp : List UInt8} {listenerNo newConn : ℕ}
    (h : t.openConnection io chanInfoG remoteIp listenerNo newConn = .ok t') : ∃ record,
    t'.connData = Function.update t.connData newConn (.opened io chanInfoG record) := by
  rw [openConnection_eq] at h
  obtain ⟨r, -, rfl⟩ := map_eq_ok.1 h
  exact ⟨r.1, rfl⟩

/-- `get_new_connection` does nothing, or opens a connection. -/
theorem getNewConnection_cases {listenerNo : ℕ}
    (h : t.getNewConnection io chanInfoG listenerNo = .ok (t', es)) :
    (t' = t ∧ es = []) ∨ ∃ remoteIp newConn, io.accept = some remoteIp ∧
      ServerThread.findInactive t.connData MAXCLIENTCONNECTIONS 0 = some newConn ∧
      t.openConnection io chanInfoG remoteIp listenerNo newConn = .ok t' ∧
      es = [.opened newConn] := by
  cases hacc : io.accept with
  | none =>
    rw [getNewConnection_of_none (.inl hacc)] at h
    cases h
    exact .inl ⟨rfl, rfl⟩
  | some remoteIp =>
    cases hfree : ServerThread.findInactive t.connData MAXCLIENTCONNECTIONS 0 with
    | none =>
      rw [getNewConnection_of_none (.inr hfree)] at h
      cases h
      exact .inl ⟨rfl, rfl⟩
    | some newConn =>
      rw [getNewConnection_of_some hacc hfree] at h
      obtain ⟨t₁, hopen, h⟩ := map_eq_ok.1 h
      cases h
      exact .inr ⟨remoteIp, newConn, rfl, rfl, hopen, rfl⟩

theorem getNewConnection_of_listen {listenerNo : ℕ}
    (h : t.listen io chanInfoG listenerNo = .ok (t', es)) :
    (t' = t ∧ es = []) ∨ t.getNewConnection io chanInfoG listenerNo = .ok (t', es) := by
  unfold ServerThread.listen at h
  split_ifs at h
  · cases h
    exact .inl ⟨rfl, rfl⟩
  · exact .inr h

theorem findInactive_lt {connData : ℕ → ConnectionData} {left connNo newConn : ℕ}
    (h : ServerThread.findInactive connData left connNo = some newConn) :
    newConn < connNo + left := by
  induction left generalizing connNo with
  | zero => cases h
  | succ left ih =>
    unfold ServerThread.findInactive at h
    split_ifs at h
    · obtain rfl := Option.some.inj h
      omega
    · have := ih h
      omega

/-! ### The expiry -/

theorem ServerThread.expireOld_connData {now : ℤ} (h : t.expireOld now = .ok t') :
    t'.connData = t.connData := by
  unfold ServerThread.expireOld at h
  dsimp only at h
  split_ifs at h
  · obtain ⟨⟨_, head, hist⟩, -, h⟩ := bind_eq_ok.1 h
    cases h
    rfl
  · cases h
    rfl

/-! ### Steps -/

theorem step_service {closeCmd : Bool} (hpc : t.pc = .service conn) :
    t.step io closeCmd chanInfoG dataRing =
      (serviceConnection io chanInfoG dataRing conn ⟨t.connData conn, t.hist⟩).map fun r =>
        ({ t with
          connData := Function.update t.connData conn r.1.data
          hist := r.1.hist
          pc := if conn + 1 < MAXCLIENTCONNECTIONS then .service (conn + 1) else .listen 0 },
          closeCmd, r.2) := by
  simp only [ServerThread.step, hpc]
  cases serviceConnection io chanInfoG dataRing conn ⟨t.connData conn, t.hist⟩ <;> rfl

theorem others_of_service {closeCmd : Bool} {r : Conn × List Event} (hpc : t.pc = .service conn)
    (h : serviceConnection io chanInfoG dataRing conn ⟨t.connData conn, t.hist⟩ = .ok r) :
    ∃ t' closeCmd' es, t.step io closeCmd chanInfoG dataRing = .ok (t', closeCmd', es) ∧
      (∀ i ≠ conn, t'.connData i = t.connData i) ∧ t'.connData conn = r.1.data := by
  refine ⟨_, _, _, by rw [step_service hpc, h]; rfl, ?_, Function.update_self _ _ _⟩
  intro i hi
  exact Function.update_of_ne hi _ _

/-- What a step of the server thread does to it, where its position is not told. -/
inductive ThreadMove (io : ServerIO) (chanInfoG : ChannelInfo) (dataRing : DataRing)
    (t : ServerThread) : ServerThread → List Event → Prop
  /-- A step that only moves on. -/
  | quiet (pc : ServerPc) : ThreadMove io chanInfoG dataRing t { t with pc := pc } []
  /-- The end of all connections. -/
  | closed (pc : ServerPc) : t.pc = .flags → ThreadMove io chanInfoG dataRing t
      { t with
        connData := fun i => { t.connData i with state := .SRVR_STATE_INACTIVE }
        pc := pc } []
  /-- `service_connection`. -/
  | served (pc : ServerPc) (conn : ℕ) (c : Conn) (es : List Event) : t.pc = .service conn →
      serviceConnection io chanInfoG dataRing conn ⟨t.connData conn, t.hist⟩ = .ok (c, es) →
      ThreadMove io chanInfoG dataRing t
        { t with connData := Function.update t.connData conn c.data, hist := c.hist, pc := pc } es
  /-- `get_new_connection`. -/
  | accepted (pc : ServerPc) (listenerNo newConn : ℕ) (remoteIp : List UInt8)
      (t' : ServerThread) : t.pc = .listen listenerNo → io.accept = some remoteIp →
      ServerThread.findInactive t.connData MAXCLIENTCONNECTIONS 0 = some newConn →
      t.openConnection io chanInfoG remoteIp listenerNo newConn = .ok t' →
      ThreadMove io chanInfoG dataRing t { t' with pc := pc } [.opened newConn]
  /-- The expiry of records. -/
  | expired (pc : ServerPc) (t' : ServerThread) : t.pc = .expire → t.expireOld io.now = .ok t' →
      ThreadMove io chanInfoG dataRing t { t' with pc := pc } []

/-- **What a step of the server thread can do.** -/
theorem ServerThread.threadMove_of_step {closeCmd closeCmd' : Bool}
    (h : t.step io closeCmd chanInfoG dataRing = .ok (t', closeCmd', es)) :
    ThreadMove io chanInfoG dataRing t t' es := by
  cases hpc : t.pc with
  | service conn =>
    rw [step_service hpc] at h
    obtain ⟨r, hserv, h⟩ := map_eq_ok.1 h
    cases h
    exact .served _ conn r.1 r.2 hpc hserv
  | listen listenerNo =>
    simp only [ServerThread.step, hpc] at h
    obtain ⟨⟨t₁, es₁⟩, hlisten, h⟩ := bind_eq_ok.1 h
    cases h
    rcases getNewConnection_of_listen hlisten with ⟨rfl, rfl⟩ | hnew
    · exact .quiet _
    rcases getNewConnection_cases hnew with
      ⟨rfl, rfl⟩ | ⟨remoteIp, newConn, hacc, hfree, hopen, rfl⟩
    · exact .quiet _
    · exact .accepted _ listenerNo newConn remoteIp _ hpc hacc hfree hopen
  | expire =>
    simp only [ServerThread.step, hpc] at h
    obtain ⟨t₁, hexp, h⟩ := bind_eq_ok.1 h
    cases h
    exact .expired _ t₁ hpc hexp
  | flags =>
    simp only [ServerThread.step, hpc] at h
    split_ifs at h
    · cases h
      exact .closed _ hpc
    · cases h
      exact .quiet _
  | setup =>
    simp only [ServerThread.step, hpc] at h
    split_ifs at h
    cases h
    exact .quiet _
  | closing =>
    simp only [ServerThread.step, hpc] at h
    cases h
    exact .quiet _
  | ended =>
    simp only [ServerThread.step, hpc] at h
    cases h
    exact .quiet _

end SdrProxy
