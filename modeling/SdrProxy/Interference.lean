import SdrProxy.Lib.Machine
import SdrProxy.Expiry

/-!
# Connections side by side

Whether the deliveries on one connection depend on another connection.

* `serverMachine` : the operations of the server on its connections, whatever the cache holds at
  each of them; the server thread is a run of it (`ops_of_run`);
* `Separate` : what is placed on a connection is the same if the operations on another one are left
  out;
* `Effect` : an operation on a connection changes that connection and the record of its client
  (`Kept.accept`, `Kept.service`);
* `Alike` : two states that differ only in what belongs to the clients of the connection that is
  left out; operations on it keep this (`Alike.of_dropped`), and so do the others (`Alike.of_kept`);
* `separate_of_addresses` : connections of clients with different addresses are separate;
* `same_address_interferes` : two connections of one client are not.
-/

namespace SdrProxy

/-- An operation of the server thread on its connections. -/
inductive ServerOp where
  /-- `get_new_connection`, for a client that gets the connection `conn`. -/
  | accept (conn : ℕ) (io : ServerIO) (chanInfoG : ChannelInfo) (remoteIp : List UInt8)
      (listenerNo : ℕ)
  /-- `service_connection`, while the cache is `dataRing`. -/
  | service (conn : ℕ) (io : ServerIO) (chanInfoG : ChannelInfo) (dataRing : DataRing)
  /-- The expiry of records. -/
  | expire (now : ℤ)
  /-- The end of all connections. -/
  | close

namespace ServerOp

/-- The connection that the operation works on. -/
def conn : ServerOp → Option ℕ
  | accept conn _ _ _ _ => some conn
  | service conn _ _ _ => some conn
  | _ => none

/-- The operation is one on the connection. -/
def isOn (i : ℕ) (op : ServerOp) : Bool := op.conn = some i

end ServerOp

/-- The connections of the server under such operations. -/
def serverMachine : Machine ServerThread ServerOp Event where
  step t op := match op with
    | .accept conn io chanInfoG remoteIp listenerNo =>
      match t.openConnection io chanInfoG remoteIp listenerNo conn with
      | .ok t' => some (t', [.opened conn])
      | .error _ => none
    | .service conn io chanInfoG dataRing =>
      match serviceConnection io chanInfoG dataRing conn ⟨t.connData conn, t.hist⟩ with
      | .ok (c, es) => some ({ t with
          connData := Function.update t.connData conn c.data
          hist := c.hist }, es)
      | .error _ => none
    | .expire now => match t.expireOld now with
      | .ok t' => some (t', [])
      | .error _ => none
    | .close => some ({ t with
        connData := fun i => { t.connData i with state := .SRVR_STATE_INACTIVE } }, [])

/-- A client of the connection `i`, by its address. -/
def Accepts (ops : List ServerOp) (i : ℕ) (a : Address) : Prop :=
  ∃ io chanInfoG remoteIp listenerNo,
    ServerOp.accept i io chanInfoG remoteIp listenerNo ∈ ops ∧
      a = (remoteIp, (SERVERPORTNO + listenerNo : ℤ))

/-- The packet placed on the send ring of the connection `i`. -/
def Event.packetOn (i : ℕ) : Event → Option (PacketInfo × List UInt8)
  | .packetPlaced conn element pkt => if conn = i then some (element, pkt) else none
  | _ => none

/-- The packets that `put_adc_data` places on the connection `i` are the same without the operations
on the connection `j`. -/
def Separate (t₀ : ServerThread) (ops : List ServerOp) (i j : ℕ) : Prop :=
  ∀ t es t' es', serverMachine.run t₀ ops = some (t, es) →
    serverMachine.run t₀ (ops.filter fun op => !op.isOn j) = some (t', es') →
    es.filterMap (Event.packetOn i) = es'.filterMap (Event.packetOn i)

/-! ### The server thread -/

variable {io : ServerIO} {chanInfoG : ChannelInfo} {dataRing : DataRing} {t t' : ServerThread}
variable {es : List Event}

/-- The thread at the start of its loop, for its operations do not look at where it is. -/
def ServerThread.atSetup (t : ServerThread) : ServerThread := { t with pc := .setup }

theorem openConnection_atSetup (t : ServerThread) (remoteIp : List UInt8) (listenerNo conn : ℕ) :
    t.atSetup.openConnection io chanInfoG remoteIp listenerNo conn =
      (t.openConnection io chanInfoG remoteIp listenerNo conn).map ServerThread.atSetup := by
  rw [openConnection_eq, openConnection_eq]
  show Except.map _ (openRecord io.now remoteIp (SERVERPORTNO + listenerNo) t.firstIdLst t.hist) = _
  cases openRecord io.now remoteIp (SERVERPORTNO + listenerNo) t.firstIdLst t.hist <;> rfl

theorem expireOld_atSetup (t : ServerThread) (now : ℤ) :
    t.atSetup.expireOld now = (t.expireOld now).map ServerThread.atSetup := by
  unfold ServerThread.expireOld
  show ite (now - DATASIZE ≠ t.prevExpTime) _ _ = _
  by_cases htime : now - DATASIZE ≠ t.prevExpTime
  · simp only [if_pos htime]
    show Except.bind (t.hist.clhistoryLookup t.serverConnHistory [] 0 (now - DATASIZE)
      .ID_REMOVE_OLD) _ = Except.map _ (Except.bind _ _)
    cases t.hist.clhistoryLookup t.serverConnHistory [] 0 (now - DATASIZE) .ID_REMOVE_OLD <;> rfl
  · simp only [if_neg htime]
    rfl

/-- **A step of the server thread is one operation or none.** -/
theorem ops_of_step {label : ThreadLabel} (h : threadMachine.step t label = some (t', es)) :
    ∃ ops, serverMachine.run t.atSetup ops = some (t'.atSetup, es) := by
  cases threadMove_of_step h with
  | quiet pc => exact ⟨[], rfl⟩
  | closed pc _ => exact ⟨[.close], rfl⟩
  | served pc conn c es _ hserv =>
    refine ⟨[.service conn label.io label.chanInfoG label.dataRing], Machine.run_singleton ?_⟩
    have hsame : serviceConnection label.io label.chanInfoG label.dataRing conn
        ⟨t.atSetup.connData conn, t.atSetup.hist⟩ = .ok (c, es) := hserv
    simp only [serverMachine, hsame]
    rfl
  | accepted pc listenerNo newConn remoteIp t₁ _ _ _ hopen =>
    refine ⟨[.accept newConn label.io label.chanInfoG remoteIp listenerNo],
      Machine.run_singleton ?_⟩
    simp only [serverMachine, openConnection_atSetup, hopen]
    rfl
  | expired pc t₁ _ hexp =>
    refine ⟨[.expire label.io.now], Machine.run_singleton ?_⟩
    simp only [serverMachine, expireOld_atSetup, hexp]
    rfl

/-- **The server thread is a run of operations**, where a connection is named by its place in
`conn_data`. -/
theorem ops_of_run (mem : Bfr) {ls : List ThreadLabel}
    (h : threadMachine.run (.init mem) ls = some (t, es)) :
    ∃ ops, serverMachine.run (.init mem) ops = some (t.atSetup, es) := by
  obtain ⟨ops, u, hrun, rfl⟩ := Machine.run_matches (fun t u => u = t.atSetup) (by
    rintro t u label t' es rfl hstep
    obtain ⟨ops, hrun⟩ := ops_of_step hstep
    exact ⟨ops, _, hrun, rfl⟩) rfl h
  exact ⟨ops, hrun⟩

/-! ### One operation -/

variable {s s' : ServerThread} {l : List ℕ} {addr : ℕ → Option Address} {es' : List Event}
variable {i j k : ℕ}

/-- What an operation on the connection `k` changes: that connection, and what the records say about
its client. -/
structure Effect (k : ℕ) (a : Option Address) (s : ServerThread) (l : List ℕ) (s' : ServerThread)
    (l' : List ℕ) (es : List Event) : Prop where
  data : ∀ i ≠ k, s'.connData i = s.connData i
  book : ∀ b, a ≠ some b → s'.hist.book l' b = s.hist.book l b
  events : ∀ i ≠ k, es.filterMap (Event.packetOn i) = []

/-- The accounts of a server whose list of expired records is empty. -/
structure Kept (t : ServerThread) (l : List ℕ) (addr : ℕ → Option Address) : Prop where
  accounts : Accounts t l addr
  empty : t.serverConnHistory = none

theorem packetOn_of_placed {placed : Option PacketTime} (h : Placed k placed es) (hne : i ≠ k) :
    es.filterMap (Event.packetOn i) = [] := by
  cases h with
  | nothing => rfl
  | text text => rfl
  | packet element pkt => simp [Event.packetOn, hne.symm]

/-- **What a new client changes.** -/
theorem Kept.accept (h : Kept s l addr) {io : ServerIO} {remoteIp : List UInt8} {listenerNo : ℕ}
    {a : Address} (ha : a = (remoteIp, (SERVERPORTNO + listenerNo : ℤ)))
    (hstep : serverMachine.step s (.accept k io chanInfoG remoteIp listenerNo) = some (s', es)) :
    ∃ l', Kept s' l' (Function.update addr k (some a)) ∧ Effect k (some a) s l s' l' es ∧
      es = [.opened k] ∧ (∃ history, s'.connData k = .opened io chanInfoG history) ∧
      s'.hist.book l' = Function.update (s.hist.book l) a
        (some ⟨a, io.now, startTime (s.hist.book l a)⟩) := by
  obtain ⟨t', l', hopen, haccounts, hbook, ⟨history, hdata⟩, hempty⟩ :=
    h.accounts.openConnection io chanInfoG remoteIp listenerNo k ha
  simp only [serverMachine, hopen] at hstep
  cases hstep
  refine ⟨l', ⟨haccounts, hempty.trans h.empty⟩, ⟨?_, ?_, fun _ _ => rfl⟩, rfl,
    ⟨history, ?_⟩, hbook⟩
  · intro i hi
    show s'.connData i = s.connData i
    rw [hdata, Function.update_of_ne hi]
  · intro b hb
    show s'.hist.book l' b = _
    rw [hbook, Function.update_of_ne fun hba => hb (congrArg some hba.symm)]
  · show s'.connData k = _
    rw [hdata, Function.update_self]

/-- **What a service changes.** -/
theorem Kept.service (h : Kept s l addr) {io : ServerIO}
    (hstep : serverMachine.step s (.service k io chanInfoG dataRing) = some (s', es)) :
    Kept s' l addr ∧ Effect k (addr k) s l s' l es ∧
      (((s.connData k).state = .SRVR_STATE_INACTIVE ∧
        s'.connData k = s.connData k ∧ es = [] ∧
        s'.hist.book l = s.hist.book l) ∨
      ∃ a e placed, (s.connData k).state ≠ .SRVR_STATE_INACTIVE ∧ addr k = some a ∧
        s.hist.book l a = some e ∧
        serve io chanInfoG dataRing k e.lastPacketTime (s.connData k) =
          .ok (s'.connData k, placed, es) ∧
        s'.hist.book l = notedBook (s.hist.book l) a io.now placed) := by
  simp only [serverMachine] at hstep
  cases hserv : serviceConnection io chanInfoG dataRing k
      ⟨s.connData k, s.hist⟩ with
  | error msg =>
    rw [hserv] at hstep
    cases hstep
  | ok r =>
    obtain ⟨c', es₁⟩ := r
    rw [hserv] at hstep
    cases hstep
    obtain ⟨haccounts, hcases⟩ := h.accounts.serviceConnection hserv
    have hself : Function.update s.connData k c'.data k = c'.data :=
      Function.update_self _ _ _
    refine ⟨⟨haccounts, h.empty⟩, ?_⟩
    rcases hcases with ⟨hinactive, rfl, rfl⟩ | ⟨a, e, placed, hactive, ha, he, hserve, hbook⟩
    · exact ⟨⟨fun i hi => Function.update_of_ne hi _ _, fun _ _ => rfl, fun _ _ => rfl⟩,
        .inl ⟨hinactive, hself, rfl, rfl⟩⟩
    · refine ⟨⟨fun i hi => Function.update_of_ne hi _ _, ?_,
        fun i hi => packetOn_of_placed (placed_of_serve hserve) hi⟩,
        .inr ⟨a, e, placed, hactive, ha, he, ?_, hbook⟩⟩
      · intro b hb
        have hne : b ≠ a := by
          rintro rfl
          exact hb ha
        show c'.hist.book l b = _
        rw [hbook]
        cases placed with
        | none => rfl
        | some time => exact Function.update_of_ne hne _ _
      · show _ = Except.ok (Function.update s.connData k c'.data k, placed, es)
        rw [hself]
        exact hserve

/-! ### Two states -/

/-- The second state is the first one without what was done on the connection `j`: they differ at
most on that connection, and on connections and records of clients in `J`. -/
structure Alike (J : Address → Prop) (i j : ℕ) (s : ServerThread) (l : List ℕ)
    (addr : ℕ → Option Address) (t : ServerThread) (l' : List ℕ) (addr' : ℕ → Option Address) :
    Prop where
  left : Kept s l addr
  right : Kept t l' addr'
  same : ∀ k ≠ j, addr' k = addr k
  own : ∀ a, addr i = some a → ¬ J a
  dropped : ∀ a, addr j = some a → J a
  book : ∀ a, ¬ J a → t.hist.book l' a = s.hist.book l a
  data : ∀ k ≠ j, (∀ a, addr k = some a → ¬ J a) →
    t.connData k = (s.connData k).relink (t.connData k).history

namespace Alike

variable {J : Address → Prop} {l₁ l₁' l' : List ℕ} {addr' addr₁ addr₁' : ℕ → Option Address}

/-- An operation on the connection that is left out. -/
theorem drop (h : Alike J i j s l addr t l' addr') (hij : i ≠ j) (hkept : Kept s' l₁ addr₁)
    (hother : ∀ k ≠ j, addr₁ k = addr k) (hJ : ∀ a, addr₁ j = some a → J a)
    (heffect : Effect j (addr₁ j) s l s' l₁ es) :
    Alike J i j s' l₁ addr₁ t l' addr' ∧ es.filterMap (Event.packetOn i) = [] := by
  refine ⟨⟨hkept, h.right, ?_, ?_, hJ, ?_, ?_⟩, heffect.events i hij⟩
  · intro k hk
    exact (h.same k hk).trans (hother k hk).symm
  · intro a ha
    rw [hother i hij] at ha
    exact h.own a ha
  · intro a ha
    rw [heffect.book a fun hja => ha (hJ a hja)]
    exact h.book a ha
  · intro k hk hno
    rw [hother k hk] at hno
    rw [heffect.data k hk]
    exact h.data k hk hno

theorem keep (h : Alike J i j s l addr t l' addr') (hkept : Kept s' l₁ addr₁)
    (hkept' : Kept t' l₁' addr₁') (hkj : k ≠ j)
    (hsame : ∀ m ≠ j, addr₁' m = addr₁ m) (hother : ∀ m ≠ k, addr₁ m = addr m)
    (hown : ∀ a, addr₁ i = some a → ¬ J a)
    (heffect : Effect k (addr₁ k) s l s' l₁ es) (heffect' : Effect k (addr₁ k) t l' t' l₁' es')
    (hk : (∀ a, addr₁ k = some a → ¬ J a) →
      t'.connData k = (s'.connData k).relink (t'.connData k).history ∧
      (∀ a, addr₁ k = some a → t'.hist.book l₁' a = s'.hist.book l₁ a) ∧
      es = es') :
    Alike J i j s' l₁ addr₁ t' l₁' addr₁' ∧
      es.filterMap (Event.packetOn i) = es'.filterMap (Event.packetOn i) := by
  refine ⟨⟨hkept, hkept', hsame, hown, ?_, ?_, ?_⟩, ?_⟩
  · intro a ha
    rw [hother j hkj.symm] at ha
    exact h.dropped a ha
  · intro a ha
    by_cases hak : addr₁ k = some a
    · refine (hk ?_).2.1 a hak
      intro b hb
      rw [hak] at hb
      obtain rfl := Option.some.inj hb
      exact ha
    · rw [heffect'.book a hak, heffect.book a hak]
      exact h.book a ha
  · intro m hm hno
    by_cases hmk : m = k
    · subst hmk
      exact (hk hno).1
    · rw [hother m hmk] at hno
      rw [heffect'.data m hmk, heffect.data m hmk]
      exact h.data m hm hno
  · by_cases hik : i = k
    · subst hik
      rw [(hk hown).2.2]
    · rw [heffect.events i hik, heffect'.events i hik]

theorem accept (h : Alike J i j s l addr t l' addr') (hkj : k ≠ j) {io : ServerIO}
    {remoteIp : List UInt8} {listenerNo : ℕ} {a : Address}
    (ha : a = (remoteIp, (SERVERPORTNO + listenerNo : ℤ))) (hown : k = i → ¬ J a)
    (hs : serverMachine.step s (.accept k io chanInfoG remoteIp listenerNo) = some (s', es))
    (ht : serverMachine.step t (.accept k io chanInfoG remoteIp listenerNo) = some (t', es')) :
    ∃ l₁ addr₁ l₁' addr₁', Alike J i j s' l₁ addr₁ t' l₁' addr₁' ∧
      es.filterMap (Event.packetOn i) = es'.filterMap (Event.packetOn i) := by
  obtain ⟨l₁, hkept, heffect, rfl, ⟨history, hdata⟩, hbook⟩ := h.left.accept ha hs
  obtain ⟨l₁', hkept', heffect', rfl, ⟨history', hdata'⟩, hbook'⟩ := h.right.accept ha ht
  have hself : ∀ f : ℕ → Option Address, Function.update f k (some a) k = some a :=
    fun f => Function.update_self _ _ _
  refine ⟨l₁, _, l₁', _, h.keep (k := k) hkept hkept' hkj ?_ ?_ ?_ ?_ ?_ ?_⟩
  · intro m hm
    by_cases hmk : m = k
    · rw [hmk, hself, hself]
    · rw [Function.update_of_ne hmk, Function.update_of_ne hmk]
      exact h.same m hm
  · intro m hm
    exact Function.update_of_ne hm _ _
  · intro b hb
    by_cases hik : i = k
    · rw [hik, hself] at hb
      obtain rfl := Option.some.inj hb
      exact hown hik.symm
    · rw [Function.update_of_ne hik] at hb
      exact h.own b hb
  · rw [hself]
    exact heffect
  · rw [hself]
    exact heffect'
  · intro hno
    rw [hself] at hno
    refine ⟨?_, ?_, rfl⟩
    · rw [hdata, hdata']
      rfl
    · intro b hb
      rw [hself] at hb
      obtain rfl := Option.some.inj hb
      rw [hbook, hbook', Function.update_self, Function.update_self, h.book a (hno a rfl)]

theorem service (h : Alike J i j s l addr t l' addr') (hkj : k ≠ j) {io : ServerIO}
    (hs : serverMachine.step s (.service k io chanInfoG dataRing) = some (s', es))
    (ht : serverMachine.step t (.service k io chanInfoG dataRing) = some (t', es')) :
    Alike J i j s' l addr t' l' addr' ∧
      es.filterMap (Event.packetOn i) = es'.filterMap (Event.packetOn i) := by
  obtain ⟨hkept, heffect, hcases⟩ := h.left.service hs
  obtain ⟨hkept', heffect', hcases'⟩ := h.right.service ht
  rw [h.same k hkj] at heffect'
  refine h.keep hkept hkept' hkj h.same (fun _ _ => rfl) h.own heffect heffect' ?_
  intro hno
  have hdata := h.data k hkj hno
  have hstate : (t.connData k).state = (s.connData k).state := by
    rw [hdata]
    rfl
  rcases hcases with ⟨hinactive, hd, rfl, hbook⟩ | ⟨a, e, placed, hactive, ha, he, hserve, hbook⟩
  · rcases hcases' with ⟨-, hd', rfl, hbook'⟩ | ⟨-, -, -, hactive', -⟩
    · refine ⟨?_, ?_, rfl⟩
      · rw [hd, hd']
        exact hdata
      · intro a ha
        rw [hbook, hbook']
        exact h.book a (hno a ha)
    · exact absurd (hstate.trans hinactive) hactive'
  · rcases hcases' with ⟨hinactive', -⟩ | ⟨a', e', placed', -, ha', he', hserve', hbook'⟩
    · exact absurd (hstate.symm.trans hinactive') hactive
    · -- both services are that of the same client with the same last packet
      rw [h.same k hkj, ha] at ha'
      obtain rfl := Option.some.inj ha'
      rw [h.book a (hno a ha), he] at he'
      obtain rfl := Option.some.inj he'
      rw [hdata, serve_relink, hserve] at hserve'
      have hpair := Except.ok.inj hserve'
      have hd : (s'.connData k).relink (t.connData k).history =
          t'.connData k := congrArg Prod.fst hpair
      obtain ⟨rfl, rfl⟩ := Prod.mk.inj (congrArg Prod.snd hpair)
      refine ⟨?_, ?_, rfl⟩
      · rw [← hd]
        rfl
      · intro b hb
        rw [ha] at hb
        obtain rfl := Option.some.inj hb
        rw [hbook, hbook']
        cases placed with
        | none => exact h.book a (hno a ha)
        | some time =>
          simp only [notedBook, Option.elim_some, Function.update_self]

theorem expire (h : Alike J i j s l addr t l' addr') {now : ℤ}
    (hs : serverMachine.step s (.expire now) = some (s', es))
    (ht : serverMachine.step t (.expire now) = some (t', es')) :
    Alike J i j s' l addr t' l' addr' ∧
      es.filterMap (Event.packetOn i) = es'.filterMap (Event.packetOn i) := by
  obtain ⟨time, hexp⟩ := expireOld_of_empty h.left.empty now
  obtain ⟨time', hexp'⟩ := expireOld_of_empty h.right.empty now
  simp only [serverMachine, hexp] at hs
  simp only [serverMachine, hexp'] at ht
  cases hs
  cases ht
  exact ⟨⟨⟨⟨h.left.accounts.list, h.left.accounts.linked⟩, h.left.empty⟩,
    ⟨⟨h.right.accounts.list, h.right.accounts.linked⟩, h.right.empty⟩, h.same, h.own, h.dropped,
    h.book, h.data⟩, rfl⟩

theorem close (h : Alike J i j s l addr t l' addr')
    (hs : serverMachine.step s .close = some (s', es))
    (ht : serverMachine.step t .close = some (t', es')) :
    Alike J i j s' l addr t' l' addr' ∧
      es.filterMap (Event.packetOn i) = es'.filterMap (Event.packetOn i) := by
  cases hs
  cases ht
  refine ⟨⟨⟨⟨h.left.accounts.list, fun i hi => absurd rfl hi⟩, h.left.empty⟩,
    ⟨⟨h.right.accounts.list, fun i hi => absurd rfl hi⟩, h.right.empty⟩, h.same, h.own, h.dropped,
    h.book, ?_⟩, rfl⟩
  intro k hk hno
  exact congrArg (fun d : ConnectionData => { d with state := .SRVR_STATE_INACTIVE })
    (h.data k hk hno)

end Alike

/-! ### Runs -/

section Runs

variable {ops : List ServerOp} {op : ServerOp} {l' : List ℕ} {addr' : ℕ → Option Address}

theorem Alike.of_kept (h : Alike (Accepts ops j) i j s l addr t l' addr') (hop : op ∈ ops)
    (haddr : ∀ a, Accepts ops i a → ¬ Accepts ops j a) (hne : op.conn ≠ some j)
    (hs : serverMachine.step s op = some (s', es))
    (ht : serverMachine.step t op = some (t', es')) :
    (∃ l₁ addr₁ l₁' addr₁', Alike (Accepts ops j) i j s' l₁ addr₁ t' l₁' addr₁') ∧
      es.filterMap (Event.packetOn i) = es'.filterMap (Event.packetOn i) := by
  cases op with
  | accept k io chanInfoG remoteIp listenerNo =>
    have hkj : k ≠ j := fun hk => hne (congrArg some hk)
    obtain ⟨l₁, addr₁, l₁', addr₁', h', hsame⟩ := h.accept hkj rfl (fun hki =>
      haddr _ ⟨io, chanInfoG, remoteIp, listenerNo, hki ▸ hop, rfl⟩) hs ht
    exact ⟨⟨l₁, addr₁, l₁', addr₁', h'⟩, hsame⟩
  | service k io chanInfoG dataRing =>
    obtain ⟨h', hsame⟩ := h.service (fun hk => hne (congrArg some hk)) hs ht
    exact ⟨⟨l, addr, l', addr', h'⟩, hsame⟩
  | expire now =>
    obtain ⟨h', hsame⟩ := h.expire hs ht
    exact ⟨⟨l, addr, l', addr', h'⟩, hsame⟩
  | close =>
    obtain ⟨h', hsame⟩ := h.close hs ht
    exact ⟨⟨l, addr, l', addr', h'⟩, hsame⟩

theorem Alike.of_dropped (h : Alike (Accepts ops j) i j s l addr t l' addr') (hop : op ∈ ops)
    (hij : i ≠ j) (hj : op.conn = some j) (hs : serverMachine.step s op = some (s', es)) :
    (∃ l₁ addr₁ l₁' addr₁', Alike (Accepts ops j) i j s' l₁ addr₁ t l₁' addr₁') ∧
      es.filterMap (Event.packetOn i) = [] := by
  cases op with
  | accept k io chanInfoG remoteIp listenerNo =>
    obtain rfl : k = j := Option.some.inj hj
    obtain ⟨l₁, hkept, heffect, -⟩ := h.left.accept rfl hs
    have hself : Function.update addr k (some (remoteIp, (SERVERPORTNO + listenerNo : ℤ))) k =
        some (remoteIp, (SERVERPORTNO + listenerNo : ℤ)) := Function.update_self _ _ _
    obtain ⟨h', hnone⟩ := h.drop hij hkept (fun m hm => Function.update_of_ne hm _ _) (by
      intro a ha
      rw [hself] at ha
      obtain rfl := Option.some.inj ha
      exact ⟨io, chanInfoG, remoteIp, listenerNo, hop, rfl⟩) (by
      rw [hself]
      exact heffect)
    exact ⟨⟨l₁, _, l', addr', h'⟩, hnone⟩
  | service k io chanInfoG dataRing =>
    obtain rfl : k = j := Option.some.inj hj
    obtain ⟨hkept, heffect, -⟩ := h.left.service hs
    obtain ⟨h', hnone⟩ := h.drop hij hkept (fun _ _ => rfl) h.dropped heffect
    exact ⟨⟨l, addr, l', addr', h'⟩, hnone⟩
  | expire now => cases hj
  | close => cases hj

end Runs

/-- **Connections of clients with different addresses do not interfere**: what is placed on one of
them is the same if what is done on the other one is left out. -/
theorem separate_of_addresses (mem : Bfr) {ops : List ServerOp} {i j : ℕ} (hij : i ≠ j)
    (haddr : ∀ a, Accepts ops i a → ¬ Accepts ops j a) : Separate (.init mem) ops i j := by
  intro s es s' es' hrun hrun'
  have hinit : Kept (.init mem) [] fun _ => none := ⟨Accounts.init mem, rfl⟩
  refine (Machine.run_purge (fun s t => ∃ l addr l' addr',
      Alike (Accepts ops j) i j s l addr t l' addr')
    (ServerOp.isOn j) (Event.packetOn i) ?_ ?_ ?_ hrun hrun').2
  · rintro op hop hkept s t s' t' es es' ⟨l, addr, l', addr', h⟩ hs ht
    exact h.of_kept hop haddr (of_decide_eq_false hkept) hs ht
  · rintro op hop hdrop s t s' es ⟨l, addr, l', addr', h⟩ hs
    exact h.of_dropped hop hij (of_decide_eq_true hdrop) hs
  · exact ⟨[], fun _ => none, [], fun _ => none, hinit, hinit, fun _ _ => rfl, nofun, nofun,
      fun _ _ => rfl, fun _ _ _ => rfl⟩

/-- The outcomes of the calls when the client sends the bytes. -/
def hears (l : List UInt8) : ServerIO :=
  ⟨true, true, true, true, true, .bytes l, ⟨100, .EAGAIN⟩, none, true, 100000, fun _ => 0⟩

/-- A cache of one packet. -/
def onePacket : DataRing where
  dataStore := id
  heap _ := ⟨⟨2, 99999, 99999, true⟩, fun _ => 0⟩
  slotSize := some 2
  datarStart := 0
  datarEnd := 1
  datarCnt := 1

/-- Two clients connect and ask for data; then both are served, the second one first. -/
def twoClients (ip ip' : List UInt8) : List ServerOp :=
  [.accept 0 (hears []) ⟨10, 1, 1⟩ ip 0,
    .accept 1 (hears []) ⟨10, 1, 1⟩ ip' 0,
    .service 0 (hears CHANREQUEST) ⟨10, 1, 1⟩ onePacket,
    .service 1 (hears CHANREQUEST) ⟨10, 1, 1⟩ onePacket,
    .service 1 (hears [0]) ⟨10, 1, 1⟩ onePacket,
    .service 0 (hears [0]) ⟨10, 1, 1⟩ onePacket]

/-- Two clients at different addresses. -/
theorem separate_of_addresses_two : Separate (.init fun _ => 0) (twoClients [0x31] [0x32]) 0 1 := by
  refine separate_of_addresses _ (by decide) ?_
  rintro a ⟨io, chanInfoG, remoteIp, listenerNo, hmem, rfl⟩
    ⟨io', chanInfoG', remoteIp', listenerNo', hmem', heq⟩
  simp only [twoClients, List.mem_cons, ServerOp.accept.injEq, reduceCtorEq, List.not_mem_nil,
    or_false, true_and, zero_ne_one, one_ne_zero, false_and, false_or] at hmem hmem'
  obtain ⟨-, -, rfl, -⟩ := hmem
  obtain ⟨-, -, rfl, -⟩ := hmem'
  have hip : ([0x31] : List UInt8) = [0x32] := congrArg Prod.fst heq
  exact absurd hip (by decide)

/-- What is placed on the connection 0 in a run. -/
def placedFirst (ops : List ServerOp) : Option (List (PacketInfo × List UInt8)) :=
  (serverMachine.run (.init fun _ => 0) ops).map fun r => r.2.filterMap (Event.packetOn 0)

/-- **Two connections of one client interfere**: what is placed on one of them is not placed on the
other one. -/
theorem same_address_interferes :
    ¬ Separate (.init fun _ => 0) (twoClients [0x31] [0x31]) 0 1 := by
  intro h
  have hboth : placedFirst (twoClients [0x31] [0x31]) = some [] := by decide +kernel
  have halone : placedFirst ((twoClients [0x31] [0x31]).filter fun op => !op.isOn 1) =
      some [(⟨2, 99999, 99999, true⟩, [0, 0])] := by
    decide +kernel
  obtain ⟨⟨t, es⟩, hrun, hnone⟩ := Option.map_eq_some_iff.1 hboth
  obtain ⟨⟨t', es'⟩, hrun', hone⟩ := Option.map_eq_some_iff.1 halone
  have hsame := h t es t' es' hrun hrun'
  rw [hnone, hone] at hsame
  cases hsame

end SdrProxy
