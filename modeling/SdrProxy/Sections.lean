import SdrProxy.Lib.Mutexes
import SdrProxy.Moves
import SdrProxy.Response

/-!
# The mutexes in the source

Where the three threads lock and unlock in one step of each, with one `effect` where the step is
taken.  The calls of `writelog`, `warn` and `fail` are left open, as are the returns in between.

* `MainPc.code`, `ClientThread.code`, `ServerThread.code` : the code of a step;
* `Core.touches` : the shared data that a step reads or changes;
* `Core.fits_code` : a step touches shared data under their mutex, but for `chan_info_g`, which the
  server thread reads without one; and what touches none is done without a mutex held;
* `ranked_nests` : no thread nests a mutex in one that another thread nests in something;
* `Core.single_code` : the step is taken once.
-/

namespace SdrProxy

/-- The mutexes. -/
inductive Mutex where
  | datastore
  | chaninfo
  | stderr
  | logfile
  | servercomm
  | clientcomm
  deriving DecidableEq

/-- The threads. -/
inductive Thread where
  | main
  | client
  | server
  deriving DecidableEq

/-- What a thread does between locking and unlocking. -/
inductive Deed where
  /-- The step of the thread. -/
  | effect
  /-- The end of the program. -/
  | exit
  deriving DecidableEq

namespace Sections

/-- `writelog` locks `mutex_logfile` if the level is logged. -/
def writelog : Code Mutex Deed := .choice .skip (.locked .logfile .skip)

/-- `warn`. -/
def warn : Code Mutex Deed := .locked .stderr .skip

/-- `fail` ends the program before it unlocks `mutex_stderr`. -/
def fail : Code Mutex Deed := .locked .stderr (.act .exit)

/-- Any number of calls of `writelog` and `warn`. -/
def reports : Code Mutex Deed := .loop (.choice writelog warn)

/-- A call of `fail`, or none. -/
def mayFail : Code Mutex Deed := .choice .skip fail

/-- The step. -/
def effect : Code Mutex Deed := .act .effect

/-- A step that locks nothing of its own and calls `fail` nowhere. -/
def logged : Code Mutex Deed := .block [reports, effect, reports]

/-- A step that locks nothing of its own. -/
def plain : Code Mutex Deed := .block [reports, mayFail, effect, reports]

/-- `data_ring_ops`, for the actions of its calls.  `RING_ELEMENTS_STORED` and `RING_ELEMENTS_FREE`
return with `mutex_datastore` locked, but no call has them. -/
def dataRingOps : Code Mutex Deed := .locked .datastore logged

/-- `data_ring_ops` for `RING_ALLOC`, which fails without memory. -/
def dataRingAlloc : Code Mutex Deed := .locked .datastore plain

end Sections

open Sections

/-! ### The code of a step -/

/-- A step of the main thread. -/
def MainPc.code : MainPc → Code Mutex Deed
  -- `select_delay` comes before the look at the flag
  | .poll => .block [mayFail, .locked .clientcomm effect]
  | .copy => .locked .chaninfo (.block [.locked .clientcomm effect, writelog])
  | .closeCmd => .block [writelog, .locked .servercomm effect, writelog]
  | .join => .block [effect, writelog]
  | .dealloc => .block [writelog, Sections.dataRingOps]
  | .alloc => Sections.dataRingAlloc
  | .finish => .locked .clientcomm (.locked .chaninfo effect)
  | .clearSrv => .locked .servercomm effect
  | .spawn => .block [writelog, effect]

/-- The next turn of the loop of `check_data` stores a packet. -/
def ClientThread.stores (c : ClientThread) : Bool :=
  match turn c.inhibitAdc c.rcvRing.contents with
  | some ⟨_, _, some (.adc _)⟩ => true
  | _ => false

/-- A step of the client thread. -/
def ClientThread.code (c : ClientThread) : Code Mutex Deed :=
  match c.pc with
  | .start => .block [.locked .chaninfo .skip, plain]
  | .top => plain
  | .sample => .locked .clientcomm effect
  | .checking => if c.stores then .block [reports, Sections.dataRingOps, reports] else plain
  | .publish => if c.changed then .block [reports, .locked .clientcomm effect, writelog] else effect
  | .sending => logged

/-- The state in which a connection gets to the `switch` of `service_connection`. -/
def ConnectionData.served (io : ServerIO) (c : ConnectionData) : ServrState :=
  if c.state = .SRVR_STATE_INACTIVE then .SRVR_STATE_INACTIVE else (serviceIncoming io c).state

/-- A step of the server thread; one that has returned takes none. -/
def ServerThread.code (io : ServerIO) (t : ServerThread) : Option (Code Mutex Deed) :=
  match t.pc with
  | .setup => some plain
  | .flags => some (.block [.locked .servercomm effect, mayFail])
  | .closing => some (.locked .servercomm effect)
  | .service conn =>
    if (t.connData conn).served io = .SRVR_STATE_SENDADC then
      some (.block [reports, Sections.dataRingOps, reports, mayFail])
    else some plain
  | .listen _ => some plain
  | .expire => some logged
  | .ended => none

/-- The thread that takes the step. -/
def Label.thread : Label → Thread
  | main _ => .main
  | client _ => .client
  | server _ => .server

/-- A step of the program. -/
def Core.code (s : Core) : Label → Option (Code Mutex Deed)
  | .main _ => some s.mainPc.code
  | .client _ => some s.client.code
  | .server io => s.server.bind (ServerThread.code io)

/-! ### Shared data -/

/-- The data that threads share and work on; the log file and the buffer of `gmtime` are shared as
well. -/
inductive Shared where
  /-- `client_comm`, but for the host, the port and the client number, which never change. -/
  | clientComm
  /-- `chan_info_g`. -/
  | chanInfo
  /-- `server_comm`. -/
  | serverComm
  /-- The data ring. -/
  | dataStore
  deriving DecidableEq

/-- The mutex for shared data. -/
def Shared.mutex : Shared → Mutex
  | clientComm => .clientcomm
  | chanInfo => .chaninfo
  | serverComm => .servercomm
  | dataStore => .datastore

/-- What a step of the main thread touches. -/
def MainPc.touches : MainPc → List Shared
  | .poll => [.clientComm]
  | .copy => [.clientComm, .chanInfo]
  | .closeCmd => [.serverComm]
  | .join => []
  | .dealloc => [.dataStore]
  | .alloc => [.dataStore, .chanInfo]
  | .finish => [.clientComm, .chanInfo]
  | .clearSrv => [.serverComm]
  | .spawn => []

/-- What a step of the client thread touches. -/
def ClientThread.touches (c : ClientThread) : List Shared :=
  match c.pc with
  | .start | .top | .sending => []
  | .sample => [.clientComm]
  | .checking => if c.stores then [.dataStore] else []
  | .publish => if c.changed then [.clientComm] else []

/-- What a step of the server thread touches: `put_channel_data` reads `chan_info_g` if there is
room for the text, and `create_connection_data` if there is a client and a connection for it. -/
def ServerThread.touches (io : ServerIO) (t : ServerThread) : List Shared :=
  match t.pc with
  | .setup | .expire | .ended => []
  | .flags | .closing => [.serverComm]
  | .service conn =>
    match (t.connData conn).served io with
    | .SRVR_STATE_SENDCHAN =>
      if CHANINFOLEN ≤ (t.connData conn).sendRing.bytesFree then [.chanInfo] else []
    | .SRVR_STATE_SENDADC => [.dataStore]
    | _ => []
  | .listen _ => if io.readable && t.opens io && io.malloc then [.chanInfo] else []

/-- What a step touches. -/
def Core.touches (s : Core) : Label → List Shared
  | .main _ => s.mainPc.touches
  | .client _ => s.client.touches
  | .server io => s.server.elim [] (ServerThread.touches io)

/-- What a step of the main thread changes. -/
def MainPc.alters : MainPc → List Shared
  | .poll | .join | .spawn => []
  | .copy => [.chanInfo]
  | .closeCmd => [.serverComm]
  | .dealloc => [.dataStore]
  | .alloc => [.dataStore]
  | .finish => [.clientComm, .chanInfo]
  | .clearSrv => [.serverComm]

/-- What a step of the client thread changes. -/
def ClientThread.alters (c : ClientThread) : List Shared :=
  match c.pc with
  | .start | .top | .sending | .sample => []
  | .checking => if c.stores then [.dataStore] else []
  | .publish => if c.changed then [.clientComm] else []

/-- What a step of the server thread changes. -/
def ServerThread.alters (t : ServerThread) : List Shared :=
  match t.pc with
  | .closing => [.serverComm]
  | _ => []

/-- What a step changes. -/
def Core.alters (s : Core) : Label → List Shared
  | .main _ => s.mainPc.alters
  | .client _ => s.client.alters
  | .server _ => s.server.elim [] ServerThread.alters

/-! ### What the code keeps to -/

/-- A thread may acquire the second mutex while it holds the first one. -/
inductive Nests : Thread → Mutex → Mutex → Prop
  /-- The first copy of the configuration. -/
  | copy : Nests .main .chaninfo .clientcomm
  | report : Nests .main .chaninfo .logfile
  /-- The second copy of the configuration. -/
  | finish : Nests .main .clientcomm .chaninfo
  | log (t : Thread) : Nests t .datastore .logfile
  | err (t : Thread) : Nests t .datastore .stderr

/-- What holds of a thread whose step touches these data. -/
def rules (t : Thread) (touched : List Shared) : Rules Mutex Deed where
  nests := Nests t
  allows d held := d = .effect →
    (∀ x ∈ touched, x ≠ .chanInfo → x.mutex ∈ held) ∧ (touched = [] → held = [])

/-- **The main thread nests two mutexes both ways**, but no other thread acquires anything while it
holds one of them. -/
theorem ranked_nests (touched : Thread → List Shared) :
    Locks.Sound.Ranked (fun t => rules t (touched t)) fun _ _ _ => 0 := by
  intro t u k m n hne hkm hmn
  cases hkm <;> cases hmn
  · exact absurd rfl hne
  · exact absurd rfl hne
  · exact absurd rfl hne

section Fits

variable {t : Thread} {touched : List Shared} {held : List Mutex}

theorem fits_writelog (hnests : ∀ k ∈ held, Nests t k .logfile) (hheld : .logfile ∉ held) :
    writelog.Fits (rules t touched) held :=
  ⟨trivial, hheld, hnests, trivial⟩

theorem fits_reports (hheld : held = [] ∨ held = [.datastore]) :
    reports.Fits (rules t touched) held := by
  rcases hheld with rfl | rfl
  · exact ⟨fits_writelog (by simp) (by simp), by simp, by simp, trivial⟩
  · refine ⟨fits_writelog ?_ (by simp), by simp, ?_, trivial⟩
    · simpa using Nests.log t
    · simpa [rules] using Nests.err t

theorem fits_mayFail (hheld : held = [] ∨ held = [.datastore]) :
    mayFail.Fits (rules t touched) held := by
  rcases hheld with rfl | rfl
  · exact ⟨trivial, by simp, by simp, nofun⟩
  · refine ⟨trivial, by simp, ?_, nofun⟩
    simpa [rules] using Nests.err t

theorem fits_effect (hguard : ∀ x ∈ touched, x ≠ .chanInfo → x.mutex ∈ held)
    (hheld : touched = [] → held = []) : effect.Fits (rules t touched) held :=
  fun _ => ⟨hguard, hheld⟩

theorem fits_logged (htouched : touched = []) : logged.Fits (rules t touched) [] := by
  subst htouched
  exact ⟨fits_reports (.inl rfl), fits_effect nofun fun _ => rfl, fits_reports (.inl rfl), trivial⟩

theorem fits_plain (htouched : ∀ x ∈ touched, x = .chanInfo) :
    plain.Fits (rules t touched) [] :=
  ⟨fits_reports (.inl rfl), fits_mayFail (.inl rfl),
    fits_effect (fun x hx hne => absurd (htouched x hx) hne) fun _ => rfl, fits_reports (.inl rfl),
    trivial⟩

theorem fits_dataRingOps : Sections.dataRingOps.Fits (rules t [.dataStore]) [] :=
  ⟨by simp, by simp, fits_reports (.inr rfl), fits_effect (by simp [Shared.mutex]) (by simp),
    fits_reports (.inr rfl), trivial⟩

theorem fits_dataRingAlloc :
    Sections.dataRingAlloc.Fits (rules t [.dataStore, .chanInfo]) [] :=
  ⟨by simp, by simp, fits_reports (.inr rfl), fits_mayFail (.inr rfl),
    fits_effect (by simp [Shared.mutex]) (by simp), fits_reports (.inr rfl), trivial⟩

theorem fits_locked {x : Shared} : (Code.locked x.mutex effect).Fits (rules t [x]) [] :=
  ⟨by simp, by simp, fits_effect (by simp) (by simp)⟩

theorem MainPc.fits_code (pc : MainPc) : pc.code.Fits (rules .main pc.touches) [] := by
  have hlog : writelog.Fits (rules .main pc.touches) [] := fits_writelog (by simp) (by simp)
  cases pc with
  | poll => exact ⟨fits_mayFail (.inl rfl), fits_locked (x := .clientComm), trivial⟩
  | copy =>
    refine ⟨by simp, by simp, ⟨by simp, ?_, fits_effect ?_ nofun⟩,
      fits_writelog ?_ (by simp), trivial⟩
    · simpa [rules] using Nests.copy
    · simp [MainPc.touches, Shared.mutex]
    · simpa using Nests.report
  | closeCmd => exact ⟨hlog, fits_locked (x := .serverComm), hlog, trivial⟩
  | join => exact ⟨fits_effect nofun fun _ => rfl, hlog, trivial⟩
  | dealloc => exact ⟨hlog, fits_dataRingOps, trivial⟩
  | alloc => exact fits_dataRingAlloc
  | finish =>
    refine ⟨by simp, by simp, by simp, ?_, fits_effect ?_ nofun⟩
    · simpa [rules] using Nests.finish
    · simp [MainPc.touches, Shared.mutex]
  | clearSrv => exact fits_locked (x := .serverComm)
  | spawn => exact ⟨hlog, fits_effect nofun fun _ => rfl, trivial⟩

theorem ClientThread.fits_code (c : ClientThread) : c.code.Fits (rules .client c.touches) [] := by
  have hreports : ∀ {touched}, reports.Fits (rules .client touched) [] := fits_reports (.inl rfl)
  have hlog : ∀ {touched}, writelog.Fits (rules .client touched) [] :=
    fits_writelog (by simp) (by simp)
  unfold ClientThread.code ClientThread.touches
  cases c.pc with
  | start => exact ⟨⟨by simp, by simp, trivial⟩, fits_plain (by simp), trivial⟩
  | top => exact fits_plain (by simp)
  | sample => exact fits_locked (x := .clientComm)
  | checking =>
    dsimp only
    split_ifs
    · exact ⟨hreports, fits_dataRingOps, hreports, trivial⟩
    · exact fits_plain (by simp)
  | publish =>
    dsimp only
    split_ifs
    · exact ⟨hreports, fits_locked (x := .clientComm), hlog, trivial⟩
    · exact fits_effect nofun fun _ => rfl
  | sending => exact fits_logged rfl

theorem ServerThread.fits_code {io : ServerIO} {t : ServerThread} {c : Code Mutex Deed}
    (h : t.code io = some c) : c.Fits (rules .server (t.touches io)) [] := by
  have hreports : ∀ {touched}, reports.Fits (rules .server touched) [] := fits_reports (.inl rfl)
  have hfail : ∀ {touched}, mayFail.Fits (rules .server touched) [] := fits_mayFail (.inl rfl)
  unfold ServerThread.code at h
  unfold ServerThread.touches
  cases hpc : t.pc with
  | ended =>
    rw [hpc] at h
    cases h
  | setup =>
    rw [hpc] at h
    cases h
    exact fits_plain (by simp)
  | flags =>
    rw [hpc] at h
    cases h
    exact ⟨fits_locked (x := .serverComm), hfail, trivial⟩
  | closing =>
    rw [hpc] at h
    cases h
    exact fits_locked (x := .serverComm)
  | listen listenerNo =>
    rw [hpc] at h
    cases h
    exact fits_plain (by dsimp only; split_ifs <;> simp)
  | expire =>
    rw [hpc] at h
    cases h
    exact fits_logged rfl
  | service conn =>
    rw [hpc] at h
    dsimp only at h ⊢
    split_ifs at h with hadc <;> cases h
    · rw [hadc]
      exact ⟨hreports, fits_dataRingOps, hreports, hfail, trivial⟩
    · refine fits_plain ?_
      cases hserved : (t.connData conn).served io with
      | SRVR_STATE_SENDADC => exact absurd hserved hadc
      | SRVR_STATE_SENDCHAN =>
        dsimp only
        split_ifs <;> simp
      | _ => simp

/-- **A step touches shared data under their mutex**, but for `chan_info_g`, and what touches none
is done without a mutex held. -/
theorem Core.fits_code {s : Core} {l : Label} {c : Code Mutex Deed} (h : s.code l = some c) :
    c.Fits (rules l.thread (s.touches l)) [] := by
  cases l with
  | main mem =>
    cases h
    exact s.mainPc.fits_code
  | client io =>
    cases h
    exact s.client.fits_code
  | server io =>
    obtain ⟨t, ht, hcode⟩ := Option.bind_eq_some_iff.1 h
    have htouches : s.touches (.server io) = t.touches io := by
      rw [Core.touches, ht]
      rfl
    rw [htouches]
    exact ServerThread.fits_code hcode

end Fits

/-- The step is taken once, and a thread that reports nothing and does not fail gets to it. -/
structure Single (c : Code Mutex Deed) : Prop where
  once : c.Once (· = .effect)
  straight : c.straight = [.effect]

theorem quiet_writelog : writelog.Quiet (· = .effect) := by simp [writelog, Code.Quiet]

theorem quiet_reports : reports.Quiet (· = .effect) := by
  simp [reports, warn, Code.Quiet, quiet_writelog]

theorem quiet_mayFail : mayFail.Quiet (· = .effect) := by simp [mayFail, fail, Code.Quiet]

theorem single_effect : Single effect := ⟨trivial, rfl⟩

theorem single_locked {c : Code Mutex Deed} (h : Single c) (m : Mutex) : Single (.locked m c) :=
  ⟨h.once, h.straight⟩

/-- What comes after the step. -/
theorem single_first {c d : Code Mutex Deed} (h : Single c) (hd : d.Quiet (· = .effect))
    (hstraight : d.straight = []) : Single (.seq c d) :=
  ⟨⟨h.once, hd.once, .inr hd⟩, by rw [Code.straight, h.straight, hstraight, List.append_nil]⟩

theorem single_last {c d : Code Mutex Deed} (h : Single d) (hc : c.Quiet (· = .effect))
    (hstraight : c.straight = []) : Single (.seq c d) :=
  ⟨⟨hc.once, h.once, .inl hc⟩, by rw [Code.straight, h.straight, hstraight, List.nil_append]⟩

theorem single_plain : Single plain :=
  single_last (single_last (single_first single_effect ⟨quiet_reports, trivial⟩ rfl)
    quiet_mayFail rfl) quiet_reports rfl

theorem single_logged : Single logged :=
  single_last (single_first single_effect ⟨quiet_reports, trivial⟩ rfl) quiet_reports rfl

theorem single_dataRingOps : Single Sections.dataRingOps := single_locked single_logged _

theorem MainPc.single_code (pc : MainPc) : Single pc.code := by
  have hlocked : ∀ m, Single (.locked m effect) := single_locked single_effect
  cases pc with
  | poll => exact single_last (single_first (hlocked _) trivial rfl) quiet_mayFail rfl
  | copy =>
    refine single_locked ?_ _
    exact single_first (hlocked _) ⟨quiet_writelog, trivial⟩ rfl
  | closeCmd =>
    exact single_last (single_first (hlocked _) ⟨quiet_writelog, trivial⟩ rfl) quiet_writelog rfl
  | join => exact single_first single_effect ⟨quiet_writelog, trivial⟩ rfl
  | dealloc => exact single_last (single_first single_dataRingOps trivial rfl) quiet_writelog rfl
  | alloc => exact single_locked single_plain _
  | finish => exact single_locked (hlocked _) _
  | clearSrv => exact hlocked _
  | spawn => exact single_last (single_first single_effect trivial rfl) quiet_writelog rfl

theorem ClientThread.single_code (c : ClientThread) : Single c.code := by
  have hlocked : ∀ m, Single (.locked m effect) := single_locked single_effect
  unfold ClientThread.code
  cases c.pc with
  | start => exact single_last (single_first single_plain trivial rfl) trivial rfl
  | top => exact single_plain
  | sample => exact hlocked _
  | checking =>
    dsimp only
    split_ifs
    · refine single_last ?_ quiet_reports rfl
      exact single_first single_dataRingOps ⟨quiet_reports, trivial⟩ rfl
    · exact single_plain
  | publish =>
    dsimp only
    split_ifs
    · exact single_last (single_first (hlocked _) ⟨quiet_writelog, trivial⟩ rfl) quiet_reports rfl
    · exact single_effect
  | sending => exact single_logged

theorem ServerThread.single_code {io : ServerIO} {t : ServerThread} {c : Code Mutex Deed}
    (h : t.code io = some c) : Single c := by
  have hlocked : ∀ m, Single (.locked m effect) := single_locked single_effect
  unfold ServerThread.code at h
  cases hpc : t.pc with
  | ended =>
    rw [hpc] at h
    cases h
  | setup | listen listenerNo =>
    rw [hpc] at h
    cases h
    exact single_plain
  | flags =>
    rw [hpc] at h
    cases h
    exact single_first (hlocked _) ⟨quiet_mayFail, trivial⟩ rfl
  | closing =>
    rw [hpc] at h
    cases h
    exact hlocked _
  | expire =>
    rw [hpc] at h
    cases h
    exact single_logged
  | service conn =>
    rw [hpc] at h
    dsimp only at h
    split_ifs at h <;> cases h
    · refine single_last ?_ quiet_reports rfl
      exact single_first single_dataRingOps ⟨quiet_reports, quiet_mayFail, trivial⟩ rfl
    · exact single_plain

/-- **A step is taken once.** -/
theorem Core.single_code {s : Core} {l : Label} {c : Code Mutex Deed} (h : s.code l = some c) :
    Single c := by
  cases l with
  | main mem =>
    cases h
    exact s.mainPc.single_code
  | client io =>
    cases h
    exact s.client.single_code
  | server io =>
    obtain ⟨t, -, hcode⟩ := Option.bind_eq_some_iff.1 h
    exact ServerThread.single_code hcode

end SdrProxy
