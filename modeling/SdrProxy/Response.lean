import SdrProxy.Lib.Countdown
import SdrProxy.Moves

/-!
# Every change is handled

The main thread answers `CHANCHANGE` however the threads take turns, and the shutdown of the server
thread that it waits for comes to an end.

* `ServerPc.next` : where a step of the server thread leads (`ServerThread.pc_of_step`);
* `Core.ShutsDown` : while the main thread waits, the server thread is told to end;
* `countdown_main`, `countdown_server` : the steps of the main thread until it clears `CHANCHANGE`,
  and those of the server thread until it has ended;
* `change_handled` : neither thread takes more of them than that, and never are both stuck.
-/

namespace SdrProxy

/-! ### The way of the server thread -/

/-- Where the server thread is after a step, if `SRV_CLOSECMD` is as given. -/
def ServerPc.next (closeCmd : Bool) : ServerPc → ServerPc
  | setup => flags
  | flags => if closeCmd then closing else service 0
  | closing => ended
  | service conn => if conn + 1 < MAXCLIENTCONNECTIONS then service (conn + 1) else listen 0
  | listen listenerNo =>
    if listenerNo + 1 < MAX_OUTGOING_PORTS then listen (listenerNo + 1) else expire
  | expire => flags
  | ended => ended

/-- The steps that are left for the server thread when it is told to end. -/
def ServerPc.left : ServerPc → ℕ
  | setup => 3
  | flags => 2
  | closing => 1
  | service conn => MAXCLIENTCONNECTIONS - 1 - conn + (MAX_OUTGOING_PORTS + 4)
  | listen listenerNo => MAX_OUTGOING_PORTS - 1 - listenerNo + 4
  | expire => 3
  | ended => 0

/-- The steps that the main thread may have to wait for. -/
def SHUTDOWNSTEPS : ℕ := MAXCLIENTCONNECTIONS + MAX_OUTGOING_PORTS + 3

theorem ServerPc.left_le (pc : ServerPc) : pc.left ≤ SHUTDOWNSTEPS := by
  cases pc <;> simp only [left, SHUTDOWNSTEPS, MAXCLIENTCONNECTIONS, MAX_OUTGOING_PORTS] <;> omega

/-- A thread that is told to end gets nearer to it with every step. -/
theorem ServerPc.left_next {pc : ServerPc} (h : pc ≠ .ended) : (pc.next true).left < pc.left := by
  cases pc with
  | ended => exact absurd rfl h
  | service conn =>
    show (ite (conn + 1 < 10) (ServerPc.service (conn + 1)) (.listen 0)).left < _
    split_ifs <;> simp only [left, MAXCLIENTCONNECTIONS, MAX_OUTGOING_PORTS] <;> omega
  | listen listenerNo =>
    show (ite (listenerNo + 1 < 2) (ServerPc.listen (listenerNo + 1)) .expire).left < _
    split_ifs <;> simp only [left, MAX_OUTGOING_PORTS] <;> omega
  | _ => simp [next, left]

/-- A step leads on, and resets the flag only at the end of the thread. -/
theorem ServerThread.pc_of_step {io : ServerIO} {chanInfoG : ChannelInfo} {dataRing : DataRing}
    {t t' : ServerThread} {closeCmd closeCmd' : Bool} {es : List Event}
    (h : t.step io closeCmd chanInfoG dataRing = .ok (t', closeCmd', es)) :
    t'.pc = t.pc.next closeCmd ∧ closeCmd' = (closeCmd && t.pc != .closing) := by
  cases hpc : t.pc with
  | service conn =>
    rw [step_service hpc] at h
    obtain ⟨r, -, h⟩ := map_eq_ok.1 h
    cases h
    exact ⟨rfl, by simp⟩
  | listen listenerNo =>
    simp only [ServerThread.step, hpc] at h
    obtain ⟨r, -, h⟩ := bind_eq_ok.1 h
    cases h
    exact ⟨rfl, by simp⟩
  | expire =>
    simp only [ServerThread.step, hpc] at h
    obtain ⟨r, -, h⟩ := bind_eq_ok.1 h
    cases h
    exact ⟨rfl, by simp⟩
  | flags =>
    simp only [ServerThread.step, hpc] at h
    cases closeCmd with
    | true =>
      simp only [↓reduceIte] at h
      split_ifs at h
      cases h
      exact ⟨rfl, rfl⟩
    | false =>
      simp only [Bool.false_eq_true, ↓reduceIte] at h
      split_ifs at h
      cases h
      exact ⟨rfl, rfl⟩
  | setup =>
    simp only [ServerThread.step, hpc] at h
    split_ifs at h
    cases h
    exact ⟨rfl, by simp⟩
  | closing =>
    simp only [ServerThread.step, hpc] at h
    cases h
    exact ⟨rfl, by simp⟩
  | ended =>
    simp only [ServerThread.step, hpc] at h
    cases h
    exact ⟨hpc, by simp⟩

/-! ### The two waits -/

/-- The steps that are left for the main thread until it clears `CHANCHANGE`. -/
def MainPc.left : MainPc → ℕ
  | clearSrv => 9
  | spawn => 8
  | poll => 7
  | copy => 6
  | closeCmd => 5
  | join => 4
  | dealloc => 3
  | alloc => 2
  | finish => 1

/-- The steps in which the main thread has answered a change. -/
def MAINSTEPS : ℕ := 9

theorem MainPc.left_bounds (pc : MainPc) : 0 < pc.left ∧ pc.left ≤ MAINSTEPS := by
  cases pc <;> decide

/-- The step is one of the server thread. -/
def Label.ofServer : Label → Bool
  | server _ => true
  | _ => false

namespace Core

variable {s s' : Core} {l : Label} {es : List Event}

/-- A change waits to be handled. -/
def Pending (s : Core) : Prop := s.exited = none ∧ s.comm.chanChange = true

/-- The main thread waits for the server thread. -/
def Joining (s : Core) : Prop := s.exited = none ∧ s.mainPc = .join ∧ s.serverEnded = false

instance : DecidablePred Pending := fun _ => inferInstanceAs (Decidable (_ ∧ _))

instance : DecidablePred Joining := fun _ => inferInstanceAs (Decidable (_ ∧ _ ∧ _))

/-- While the main thread waits for the server thread, that one is told to end. -/
def ShutsDown (s : Core) : Prop := s.Joining → s.serverClose = true

/-- What is left of the server thread. -/
def serverLeft (s : Core) : ℕ := s.server.elim 0 fun t => t.pc.left

/-- A server thread that runs takes a step whatever the outcomes of its calls. -/
theorem step_server_isSome (hexited : s.exited = none) (hended : s.serverEnded = false)
    (io : ServerIO) : (proxy.step s (.server io)).isSome = true := by
  show (s.step (.server io)).isSome = true
  simp only [step, hexited, Option.isSome_none, Bool.false_eq_true, ↓reduceIte, serverStep]
  cases hserver : s.server with
  | none => simp [serverEnded, hserver] at hended
  | some t =>
    have hpc : t.pc ≠ .ended := by simpa [serverEnded, hserver] using hended
    simp only [hpc, ↓reduceIte]
    cases t.step io s.serverClose s.chanInfoG s.dataRing <;> rfl

theorem step_main_isSome (hexited : s.exited = none) (hjoin : ¬ s.Joining) (io : MainIO) :
    (proxy.step s (.main io)).isSome = true := by
  show (s.step (.main io)).isSome = true
  simp only [step, hexited, Option.isSome_none, Bool.false_eq_true, ↓reduceIte, mainStep]
  cases hpc : s.mainPc with
  | join =>
    have hended : s.serverEnded = true := by
      by_contra h
      exact hjoin ⟨hexited, hpc, by simpa using h⟩
    simp only [hended, ↓reduceIte, Option.isSome_some]
  | poll =>
    dsimp only
    split_ifs <;> rfl
  | alloc =>
    dsimp only
    split_ifs <;> rfl
  | _ => rfl

theorem serverLeft_of_step {io : ServerIO} (h : proxy.step s (.server io) = some (s', es))
    (hexited' : s'.exited = none) : ∃ t t', s.server = some t ∧ t.pc ≠ .ended ∧
      s'.server = some t' ∧ s'.mainPc = s.mainPc ∧ s'.comm = s.comm ∧
      t'.pc = t.pc.next s.serverClose ∧
      s'.serverClose = (s.serverClose && t.pc != .closing) := by
  have hexited := exited_of_step h
  change s.step (.server io) = _ at h
  simp only [step, hexited, Option.isSome_none, Bool.false_eq_true, ↓reduceIte, serverStep] at h
  cases hserver : s.server with
  | none => simp [hserver] at h
  | some t =>
    simp only [hserver] at h
    split_ifs at h with hended
    cases hres : t.step io s.serverClose s.chanInfoG s.dataRing with
    | error msg =>
      rw [hres] at h
      cases h
      cases hexited'
    | ok r =>
      rw [hres] at h
      cases h
      obtain ⟨hpc, hclose⟩ := ServerThread.pc_of_step hres
      exact ⟨t, _, rfl, hended, rfl, rfl, rfl, hpc, hclose⟩

theorem mainPc_of_client {io : ClientIO} (h : proxy.step s (.client io) = some (s', es)) :
    s'.mainPc = s.mainPc ∧ s'.server = s.server ∧ s'.serverClose = s.serverClose ∧
      (s.comm.chanChange = true → s'.comm.chanChange = true) := by
  cases step_cases h with
  | fail _ _ => exact ⟨rfl, rfl, rfl, id⟩
  | client hclient =>
    refine ⟨rfl, rfl, rfl, ?_⟩
    cases hclient <;> first | exact id | exact fun _ => rfl

/-- **The close command stays until the server thread has ended.** -/
theorem ShutsDown.step (h : s.ShutsDown) (hstep : proxy.step s l = some (s', es)) :
    s'.ShutsDown := by
  rintro ⟨hexited', hjoin', hended'⟩
  have hexited := exited_of_step hstep
  cases l with
  | client io =>
    obtain ⟨hpc, hserver, hclose, -⟩ := mainPc_of_client hstep
    have hended : s.serverEnded = s'.serverEnded := by rw [serverEnded, serverEnded, hserver]
    rw [hclose]
    exact h ⟨hexited, hpc.symm.trans hjoin', hended.trans hended'⟩
  | server io =>
    obtain ⟨t, t', ht, hpc, ht', hmain, -, hnext, hclose⟩ := serverLeft_of_step hstep hexited'
    have hended : s.serverEnded = false := by simp [serverEnded, ht, hpc]
    have hset : s.serverClose = true := h ⟨hexited, hmain.symm.trans hjoin', hended⟩
    have hclosing : t.pc ≠ .closing := by
      intro hc
      simp [serverEnded, ht', hnext, hc, ServerPc.next] at hended'
    rw [hclose, hset]
    simpa using hclosing
  | main io =>
    cases step_cases hstep with
    | fail _ _ => cases hexited'
    | main hmain =>
      cases hmain with
      | closeCmd _ => rfl
      | join _ _ => cases hjoin'
      | copy _ =>
        change ite _ _ _ = _ at hjoin'
        split_ifs at hjoin'
      | idle hpc _ => exact absurd (hpc.symm.trans hjoin') (by decide)
      | _ => cases hjoin'

/-- **The main thread gets nearer to clearing `CHANCHANGE`** with every step it takes. -/
theorem countdown_main : proxy.Countdown (fun _ => True) Pending Label.ofMain
    (fun s => s.mainPc.left) MAINSTEPS where
  starts _ _ _ _ := (MainPc.left_bounds _).2
  falls := by
    rintro s l s' es - hstep ⟨-, hset⟩ ⟨hexited', hset'⟩ hl
    cases l with
    | client io => cases hl
    | server io => cases hl
    | main io =>
      cases step_cases hstep with
      | fail _ _ => cases hexited'
      | main hmain =>
        cases hmain with
        | idle _ hclear => exact absurd hset (by simp [hclear])
        | copy hpc =>
          show (ite _ _ _ : MainPc).left < _
          rw [hpc]
          split_ifs <;> decide
        | finish _ => cases hset'
        | seen hpc _ => simp [hpc, MainPc.left]
        | closeCmd hpc => simp [hpc, MainPc.left]
        | join hpc _ => simp [hpc, MainPc.left]
        | dealloc hpc => simp [hpc, MainPc.left]
        | alloc mem hpc => simp [hpc, MainPc.left]
        | clearSrv hpc => simp [hpc, MainPc.left]
        | spawn mem hpc => simp [hpc, MainPc.left]
  stays := by
    rintro s l s' es - hstep - ⟨hexited', -⟩ hl
    cases l with
    | main io => cases hl
    | client io => rw [(mainPc_of_client hstep).1]
    | server io =>
      obtain ⟨t, t', -, -, -, hmain, -⟩ := serverLeft_of_step hstep hexited'
      rw [hmain]

/-- **The server thread gets nearer to its end** with every step it takes while the main thread
waits. -/
theorem countdown_server : proxy.Countdown ShutsDown Joining Label.ofServer serverLeft
    SHUTDOWNSTEPS where
  starts _ _ _ _ := by
    rename_i s' _ _ _ _ _
    unfold serverLeft
    cases s'.server with
    | none => exact Nat.zero_le _
    | some t => exact t.pc.left_le
  falls := by
    rintro s l s' es hclose hstep hjoin ⟨hexited', -⟩ hl
    cases l with
    | main io => cases hl
    | client io => cases hl
    | server io =>
      obtain ⟨t, t', ht, hpc, ht', -, -, hnext, -⟩ := serverLeft_of_step hstep hexited'
      have hleft := ServerPc.left_next hpc
      simp only [serverLeft, ht, ht', Option.elim_some, hnext, hclose hjoin]
      exact hleft
  stays := by
    rintro s l s' es - hstep ⟨-, hpc, hended⟩ ⟨-, hpc', hended'⟩ hl
    cases l with
    | server io => cases hl
    | client io =>
      obtain ⟨-, hserver, -⟩ := mainPc_of_client hstep
      rw [serverLeft, serverLeft, hserver]
    | main io =>
      -- the main thread waits
      cases step_cases hstep with
      | fail _ _ => exact le_rfl
      | main hmain =>
        cases hmain with
        | join _ h => exact absurd hended (by simp [h])
        | _ => simp_all

end Core

/-! ### Runs -/

/-- How far a change has been handled. -/
structure Handling where
  /-- The steps that the main thread has taken since `CHANCHANGE` was set. -/
  main : ℕ
  /-- The steps that the server thread has taken since the main thread waits for it. -/
  server : ℕ

/-- The record after a step. -/
def count (g : Handling) (s : Core) (l : Label) (_ : List Event) : Handling where
  main := Machine.tally Core.Pending Label.ofMain g.main s l
  server := Machine.tally Core.Joining Label.ofServer g.server s l

/-- **Every change is handled.**  In every run of the three threads, while `CHANCHANGE` is set the
main thread has taken fewer than nine steps since it was set, and it can take the next one, or waits
for the server thread: this one has then taken fewer than fifteen steps since, and can take the
next one, whatever the outcomes of its calls. -/
theorem change_handled (clientNo failtimer : ℤ) (mem : Memory) (ls : List Label) :
    (proxy.record count).Always (fun _ _ _ sg' => sg'.1.Pending →
        sg'.2.main < MAINSTEPS ∧ ((∀ io, (proxy.step sg'.1 (.main io)).isSome = true) ∨
          sg'.2.server < SHUTDOWNSTEPS ∧
          ∀ io, (proxy.step sg'.1 (.server io)).isSome = true))
      (.init clientNo failtimer mem, ⟨0, 0⟩) ls := by
  refine Machine.always_of_inv (fun sg => sg.1.ShutsDown ∧
    (sg.1.Pending → sg.2.main + sg.1.mainPc.left ≤ MAINSTEPS) ∧
    (sg.1.Joining → sg.2.server + sg.1.serverLeft ≤ SHUTDOWNSTEPS)) ?_ ?_ ls
  · refine ⟨?_, ?_, ?_⟩
    · rintro ⟨-, hjoin, -⟩
      cases hjoin
    · rintro ⟨-, hset⟩
      cases hset
    · rintro ⟨-, hjoin, -⟩
      cases hjoin
  · rintro ⟨s, g⟩ l ⟨s', g'⟩ es ⟨hclose, hmain, hserver⟩ hstep
    obtain ⟨hstep, rfl⟩ := Machine.record_step.1 hstep
    have hmain' := Core.countdown_main.step trivial hmain hstep
    have hserver' := Core.countdown_server.step hclose hserver hstep
    refine ⟨⟨hclose.step hstep, hmain', hserver'⟩, ?_⟩
    intro hpend
    have hpos := (MainPc.left_bounds s'.mainPc).1
    refine ⟨lt_of_lt_of_le (Nat.lt_add_of_pos_right hpos) (hmain' hpend), ?_⟩
    by_cases hjoin : s'.Joining
    · -- the main thread waits, the server thread is not yet at its end
      have hleft : 0 < s'.serverLeft := by
        obtain ⟨-, -, hended⟩ := hjoin
        cases ht : s'.server with
        | none => simp [Core.serverEnded, ht] at hended
        | some t =>
          have hpc : t.pc ≠ .ended := by simpa [Core.serverEnded, ht] using hended
          have := ServerPc.left_next hpc
          simp only [Core.serverLeft, ht, Option.elim_some]
          omega
      exact .inr ⟨lt_of_lt_of_le (Nat.lt_add_of_pos_right hleft) (hserver' hjoin),
        Core.step_server_isSome hjoin.1 hjoin.2.2⟩
    · exact .inl (Core.step_main_isSome hpend.1 hjoin)

end SdrProxy
