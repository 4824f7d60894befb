import SdrProxy.Moves

/-!
# A lost upstream connection

What the client thread does after `client_rcv_to_ring` has reported that the connection is gone.

* `LosesConnection`, `CallsRecv`, `CallsSend`, `Reconnects`, `GetsSocket` : what a step of the
  client thread does to its socket;
* `lostSee` : whether the connection of the socket at hand was lost, over a run;
* `Reconnected` : a lost connection is closed in the same turn, and its socket is not used again;
* `reconnected_iff` : it holds in exactly the runs in which the fail timer is positive whenever a
  connection is lost.  A timer that has run out overwrites the state `CLI_STATE_RECONNECT`;
* `lost_but_used` : such a run.
-/

namespace SdrProxy

namespace ClientThread

variable {io : ClientIO} {c : ClientThread}

/-- The turn gets to `client_rcv_to_ring`. -/
def CallsRcv (io : ClientIO) (c : ClientThread) : Prop :=
  c.pc = .top ∧ c.state.connected = true ∧ io.select.map Prod.fst = some true ∧
    c.sendRing.isFull = false

/-- `client_rcv_to_ring` returns a negative result. -/
def LosesConnection (io : ClientIO) (c : ClientThread) : Prop :=
  c.CallsRcv io ∧ (clientRcvToRing io.recv c.rcvRing).1 < 0

/-- The step calls `recv`. -/
def CallsRecv (io : ClientIO) (c : ClientThread) : Prop :=
  c.CallsRcv io ∧ c.rcvRing.bytesFree ≠ 0

/-- The step calls `send`. -/
def CallsSend (c : ClientThread) : Prop :=
  c.pc = .sending ∧ c.state.connected = true ∧ c.sendRing.isEmpty = false ∧ c.writable = true

/-- The `switch` of the turn runs `CLI_STATE_RECONNECT`, which closes the socket. -/
def Reconnects (io : ClientIO) (c : ClientThread) : Prop :=
  (receiveStage io c).toOption.map ClientThread.state = some .CLI_STATE_RECONNECT

/-- The `switch` of the turn gets a new socket. -/
def GetsSocket (c : ClientThread) : Prop := c.pc = .top ∧ c.state = .CLI_STATE_GET_SOCKET

/-- The socket is at an end, or has an error, and there is room to receive. -/
def ConnectionGone (io : ClientIO) (c : ClientThread) : Prop :=
  c.CallsRcv io ∧ c.rcvRing.bytesFree ≠ 0 ∧ (io.recv = .error ∨ io.recv = .bytes [])

instance : Decidable (c.CallsRcv io) := inferInstanceAs (Decidable (_ ∧ _ ∧ _ ∧ _))
instance : Decidable (c.LosesConnection io) := inferInstanceAs (Decidable (_ ∧ _))
instance : Decidable (c.CallsRecv io) := inferInstanceAs (Decidable (_ ∧ _))
instance : Decidable c.CallsSend := inferInstanceAs (Decidable (_ ∧ _ ∧ _ ∧ _))
instance : Decidable (c.Reconnects io) := inferInstanceAs (Decidable (_ = _))
instance : Decidable c.GetsSocket := inferInstanceAs (Decidable (_ ∧ _))

/-- `client_rcv_to_ring` fails only if `recv` is called and reports an error or the end. -/
theorem losesConnection_iff : c.LosesConnection io ↔ c.ConnectionGone io := by
  unfold LosesConnection ConnectionGone clientRcvToRing
  dsimp only
  apply and_congr_right
  intro _
  by_cases hfree : c.rcvRing.bytesFree = 0
  · simp [hfree]
  · have hmin : min BFRSIZE c.rcvRing.bytesFree ≠ 0 := by
      have hpos : 0 < BFRSIZE := by decide
      omega
    rw [if_neg hmin]
    cases io.recv with
    | again => simp
    | error => simp [hfree]
    | bytes l =>
      cases l with
      | nil => simp [hfree]
      | cons b l =>
        have hlen : 0 < ((b :: l).take (min BFRSIZE c.rcvRing.bytesFree)).length := by
          rw [List.length_take, List.length_cons]
          omega
        simp only [hlen, ↓reduceIte]
        constructor
        · intro hneg
          omega
        · rintro ⟨-, hrecv | hrecv⟩ <;> cases hrecv

theorem receiveStage_of_lost (h : c.LosesConnection io) : ∃ c₁, receiveStage io c = .ok c₁ ∧
    c₁.state =
      if c.failtimer ≤ 0 then .CLI_STATE_SEND_CHANNEL_REQUEST else .CLI_STATE_RECONNECT := by
  obtain ⟨⟨-, hconn, hsel, hfull⟩, hneg⟩ := h
  cases hselect : io.select with
  | none =>
    rw [hselect] at hsel
    cases hsel
  | some rw =>
    obtain ⟨readable, writable⟩ := rw
    rw [hselect] at hsel
    obtain rfl : readable = true := Option.some.inj hsel
    have hcond : (!c.sendRing.isFull && true) = true := by rw [hfull]; rfl
    refine ⟨noteReceived (clientRcvToRing io.recv c.rcvRing).1 { c with
      writable := writable
      rcvRing := (clientRcvToRing io.recv c.rcvRing).2 }, ?_, ?_⟩
    · simp only [receiveStage, hconn, hselect, hcond, ↓reduceIte]
    · simp only [noteReceived, hneg, ↓reduceIte]
      split_ifs <;> rfl

theorem reconnects_iff (h : c.LosesConnection io) : c.Reconnects io ↔ 0 < c.failtimer := by
  obtain ⟨c₁, hrcv, hstate⟩ := receiveStage_of_lost h
  unfold Reconnects
  rw [hrcv]
  show some c₁.state = some .CLI_STATE_RECONNECT ↔ _
  rw [hstate]
  split_ifs with htimer
  · simp [htimer]
  · simp [not_le.1 htimer]

/-- After a loss the thread goes on to get a new socket. -/
theorem step_of_lost (h : c.LosesConnection io) (htimer : 0 < c.failtimer) {comm comm' : ClientComm}
    {dataRing dataRing' : DataRing} {c' : ClientThread} {es : List Event}
    (hstep : c.step io comm dataRing = .ok (c', comm', dataRing', es)) :
    c'.state = .CLI_STATE_GET_SOCKET ∧ c'.pc = .sending := by
  obtain ⟨c₁, hrcv, hstate⟩ := receiveStage_of_lost h
  rw [if_neg (not_le.2 htimer)] at hstate
  simp only [step, h.1.1] at hstep
  obtain ⟨c₁', hrcv', hstep⟩ := bind_eq_ok.1 hstep
  rw [hrcv] at hrcv'
  cases hrcv'
  obtain ⟨c₂, hdisp, hstep⟩ := bind_eq_ok.1 hstep
  cases hstep
  simp only [dispatch, hstate] at hdisp
  split_ifs at hdisp
  cases hdisp
  exact ⟨rfl, rfl⟩

/-- A thread that is about to get a new socket sends nothing on the old one. -/
theorem sendStage_of_lost (h : c.state = .CLI_STATE_GET_SOCKET) :
    sendStage io c = .ok { c with pc := .top } := by
  simp [sendStage, h, RcvState.connected]

end ClientThread

/-! ### Runs -/

/-- The calls that a step of the client thread makes. -/
def Label.clientIO : Label → Option ClientIO
  | .client io => some io
  | _ => none

/-- Whether the connection of the socket at hand was lost. -/
def lostSee (lost : Bool) (s : Core) (l : Label) (_ : List Event) : Bool :=
  match l.clientIO with
  | none => lost
  | some io =>
    if s.client.LosesConnection io then true
    else if s.client.GetsSocket then false
    else lost

/-- A turn that loses the connection closes the socket, and a socket whose connection was lost is
not used. -/
def Reconnected (sg : Core × Bool) (l : Label) (_ : List Event) (_ : Core × Bool) : Prop :=
  ∀ io ∈ l.clientIO, (sg.1.client.LosesConnection io → sg.1.client.Reconnects io) ∧
    (sg.2 = true → ¬ sg.1.client.CallsRecv io ∧ ¬ sg.1.client.CallsSend)

/-- The fail timer has not run out when the connection is gone. -/
def TimerLeft (sg : Core × Bool) (l : Label) (_ : List Event) (_ : Core × Bool) : Prop :=
  ∀ io ∈ l.clientIO, sg.1.client.ConnectionGone io → 0 < sg.1.client.failtimer

section

variable (sg : Core × Bool) (l : Label) (es : List Event) (sg' : Core × Bool)

instance : Decidable (Reconnected sg l es sg') := by
  unfold Reconnected
  infer_instance

end

/-- The invariant: a thread that has lost its connection is about to get a new socket. -/
def LostOk (lost : Bool) (s : Core) : Prop :=
  lost = true → s.exited.isSome = true ∨ (s.client.state = .CLI_STATE_GET_SOCKET ∧
    (s.client.pc = .sending ∨ s.client.pc = .top))

variable {lost : Bool} {s s' : Core} {l : Label} {es : List Event}

/-- One step of the client thread. -/
theorem LostOk.client {io : ClientIO} (h : LostOk lost s) (hexited : s.exited = none)
    (htimer : s.client.LosesConnection io → 0 < s.client.failtimer) :
    LostOk (lostSee lost s (.client io) es) (s.clientStep io).1 := by
  intro hlost
  cases hstep : s.client.step io s.comm s.dataRing with
  | error msg => exact .inl (by simp only [Core.clientStep, hstep]; rfl)
  | ok r =>
    obtain ⟨c', comm', dataRing', es'⟩ := r
    refine .inr ?_
    show (s.clientStep io).1.client.state = _ ∧ _
    have hclient : (s.clientStep io).1.client = c' := by simp only [Core.clientStep, hstep]
    rw [hclient]
    simp only [lostSee, Label.clientIO] at hlost
    split_ifs at hlost with hloses hgets
    · -- the connection is lost in this turn
      obtain ⟨hstate, hpc⟩ := ClientThread.step_of_lost hloses (htimer hloses) hstep
      exact ⟨hstate, .inl hpc⟩
    · -- it was lost before, and the turn ends
      obtain ⟨hstate, hpc⟩ := (h hlost).resolve_left (by simp [hexited])
      rcases hpc with hpc | hpc
      · simp only [ClientThread.step, hpc, ClientThread.sendStage_of_lost hstate] at hstep
        cases hstep
        exact ⟨hstate, .inr rfl⟩
      · exact absurd ⟨hpc, hstate⟩ hgets

theorem LostOk.step (h : LostOk lost s) (hstep : proxy.step s l = some (s', es))
    (htimer : ∀ io ∈ l.clientIO, s.client.LosesConnection io → 0 < s.client.failtimer) :
    LostOk (lostSee lost s l es) s' := by
  have hexited := Core.exited_of_step hstep
  cases l with
  | client io =>
    have hs' : s' = (s.clientStep io).1 := by
      change s.step (.client io) = some (s', es) at hstep
      simp only [Core.step, hexited, Option.isSome_none, Bool.false_eq_true, ↓reduceIte] at hstep
      exact (congrArg Prod.fst (Option.some.inj hstep)).symm
    rw [hs']
    exact h.client hexited (htimer io rfl)
  | main mem =>
    cases Core.step_cases hstep with
    | main hmain => cases hmain <;> exact h
    | fail msg _ => exact fun _ => .inl rfl
  | server io =>
    cases Core.step_cases hstep with
    | server _ _ _ => exact h
    | fail msg _ => exact fun _ => .inl rfl

/-- A lost connection is closed in exactly the runs in which the fail timer is positive at every
loss: **the next state is overwritten where the timer has run out, and nowhere else**. -/
theorem reconnected_iff (clientNo failtimer : ℤ) (mem : Memory) (ls : List Label) :
    (proxy.record lostSee).Always Reconnected (.init clientNo failtimer mem, false) ls ↔
      (proxy.record lostSee).Always TimerLeft (.init clientNo failtimer mem, false) ls := by
  refine Machine.always_iff (fun sg => LostOk sg.2 sg.1) (fun h => by cases h) ?_ ls
  rintro ⟨s, lost⟩ l ⟨s', lost'⟩ es h hstep
  obtain ⟨hstep, rfl⟩ := Machine.record_step.1 hstep
  have hexited : s.exited = none := Core.exited_of_step hstep
  -- the socket of a lost connection is not used, whatever the timer
  have hunused : ∀ io, lost = true → ¬ s.client.CallsRecv io ∧ ¬ s.client.CallsSend := by
    intro io hlost
    obtain ⟨hstate, -⟩ := (h hlost).resolve_left (by simp [hexited])
    constructor
    · rintro ⟨⟨-, hconn, -⟩, -⟩
      rw [hstate] at hconn
      cases hconn
    · rintro ⟨-, hconn, -⟩
      rw [hstate] at hconn
      cases hconn
  refine ⟨⟨?_, ?_⟩, ?_⟩
  · intro hq io hio hgone
    have hloses := ClientThread.losesConnection_iff.2 hgone
    exact (ClientThread.reconnects_iff hloses).1 ((hq io hio).1 hloses)
  · intro hc io hio
    refine ⟨fun hloses => ?_, hunused io⟩
    exact (ClientThread.reconnects_iff hloses).2
      (hc io hio (ClientThread.losesConnection_iff.1 hloses))
  · intro hq
    refine LostOk.step h hstep ?_
    intro io hio hloses
    exact (ClientThread.reconnects_iff hloses).1 ((hq io hio).1 hloses)

/-- The fail timer starts with no time left, and the first `recv` on the new connection fails. -/
theorem lost_but_used :
    ¬ (proxy.record lostSee).Always Reconnected (.init (-1) 0 .zero, false)
      (clientConnects ++ [.client ⟨true, true, some (true, true), .error, 3, 0, none, ⟨7, .EAGAIN⟩,
        fun _ => 0⟩, clientQuiet]) := by
  decide +kernel

end SdrProxy
