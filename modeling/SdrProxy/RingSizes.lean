import SdrProxy.Exchange
import SdrProxy.IntRing
import SdrProxy.SendBuffer

/-!
# The sizes of the rings

The byte rings that the program has in use are so small that their `int` members never overflow.

* `Core.HasRing` : the rings in use;
* `Core.Lined` : the program shows sessions with room for one second of samples;
* `rings_int` : in every run, a call on a ring in use is on `int` what it is on natural numbers.
-/

namespace SdrProxy

open CheckedInt

/-! ### The room of a session -/

namespace Session

variable {io : ServerIO} {text : List UInt8} {next : Option (PacketInfo × List UInt8)} {conn : ℕ}
variable {s s' : Session}

theorem room_hear (s : Session) : (s.hear io).room = s.room := by
  unfold hear
  split
  · split
    · rfl
    · rfl
    · rfl
    · dsimp only
      split <;> rfl
  · rfl

theorem room_turn (h : (s.turn text next conn).1 = some s') : s'.room = s.room := by
  unfold turn at h
  split at h
  · cases h
  · cases h
    rfl
  · cases h
    rfl
  · split_ifs at h <;> cases h <;> rfl
  · split at h
    · cases h
      rfl
    · split_ifs at h <;> cases h <;> rfl

theorem room_send (h : s.send io = some s') : s'.room = s.room := by
  unfold send at h
  split_ifs at h <;> cases h <;> rfl

/-- A session keeps its room. -/
theorem room_service {placed : Option PacketTime × List Event}
    (h : s.service io text next conn = some (some s', placed)) : s'.room = s.room := by
  unfold service at h
  dsimp only at h
  cases hturn : ((s.hear io).turn text next conn).1 with
  | none =>
    rw [hturn] at h
    dsimp only at h
    rw [Option.some.injEq, Prod.ext_iff] at h
    rw [hturn] at h
    cases h.1
  | some s₁ =>
    rw [hturn] at h
    obtain ⟨s₂, hsend, heq⟩ := Option.map_eq_some_iff.1 h
    cases heq
    rw [room_send hsend, room_turn hturn, room_hear]

end Session

namespace Switchboard

variable {o o' : Switchboard} {l : SwitchboardLabel} {es : List Event} {n : ℕ}

/-- No session has room for more than `n` bytes. -/
def RoomLe (n : ℕ) (o : Switchboard) : Prop := ∀ i s, o.sessions i = some s → s.room ≤ n

/-- One connection changes. -/
theorem RoomLe.update (h : o.RoomLe n) {conn : ℕ} {new : Option Session}
    (hnew : ∀ s, new = some s → s.room ≤ n)
    (hsame : o'.sessions = Function.update o.sessions conn new) : o'.RoomLe n := by
  intro i s hs
  rw [hsame] at hs
  by_cases hi : i = conn
  · subst hi
    rw [Function.update_self] at hs
    exact hnew s hs
  · rw [Function.update_of_ne hi] at hs
    exact h i s hs

theorem RoomLe.serve (h : o.RoomLe n) {conn : ℕ} (hserve : o.serve l conn = some (o', es)) :
    o'.RoomLe n := by
  unfold Switchboard.serve at hserve
  cases hs : o.sessions conn with
  | none =>
    rw [hs] at hserve
    cases hserve
    exact h
  | some s =>
    rw [hs] at hserve
    obtain ⟨⟨new, placed⟩, hservice, heq⟩ := Option.map_eq_some_iff.1 hserve
    cases heq
    have hnew : ∀ s', new = some s' → s'.room ≤ n := by
      rintro s' rfl
      rw [Session.room_service hservice]
      exact h conn s hs
    exact h.update hnew rfl

theorem RoomLe.accept (h : o.RoomLe n) (hsize : ServerThread.sendBfrSize l.chanInfoG ≤ n)
    (listenerNo : ℕ) : (o.accept l listenerNo).1.RoomLe n := by
  unfold Switchboard.accept
  split
  · have hnew : ∀ client s, some (Session.opened client (ServerThread.sendBfrSize l.chanInfoG)) =
        some s → s.room ≤ n := by
      rintro client s heq
      obtain rfl := Option.some.inj heq
      exact hsize
    exact h.update (hnew _) rfl
  · exact h

theorem RoomLe.act (h : o.RoomLe n) (hsize : ServerThread.sendBfrSize l.chanInfoG ≤ n)
    (hact : o.act l = some (o', es)) : o'.RoomLe n := by
  unfold Switchboard.act at hact
  cases hpc : o.pc <;> simp only [hpc] at hact
  case service conn => exact h.serve hact
  case setup =>
    split_ifs at hact
    cases hact
    exact h
  case flags =>
    split_ifs at hact <;> cases hact
    · intro i s hs
      cases hs
    · exact h
  case listen listenerNo =>
    split_ifs at hact
    · cases hact
      exact h
    · have haccept := h.accept hsize listenerNo
      rwa [Option.some.inj hact] at haccept
  all_goals
    cases hact
    exact h

/-- A step opens sessions with the room of the configuration, and keeps that of the others. -/
theorem RoomLe.step (h : o.RoomLe n) (hsize : ServerThread.sendBfrSize l.chanInfoG ≤ n)
    (hstep : o.step l = some (o', es)) : o'.RoomLe n := by
  obtain ⟨⟨o₁, es₁⟩, hact, heq⟩ := Option.map_eq_some_iff.1 hstep
  cases heq
  have hnext : o₁.RoomLe n := h.act hsize hact
  exact hnext

end Switchboard

/-! ### The program -/

/-- The capacity of the largest send ring there can be. -/
theorem sendBfrSize_le {c : ChannelInfo} (h : c.Valid) : ServerThread.sendBfrSize c ≤ 16031 := by
  obtain ⟨⟨-, hch⟩, -, hsps⟩ := ChannelInfo.valid_iff.1 h
  simp only [valid_sps, List.mem_cons, List.not_mem_nil, or_false] at hsps
  have hle : c.sps ≤ 500 := by omega
  have hmul := Nat.mul_le_mul hle hch
  rw [sendBfrSize_eq]
  omega

namespace Core

variable {s s' : Core} {l : Label} {es : List Event}

/-- The rings that are in use. -/
inductive HasRing (s : Core) : RingSet → Prop
  | clientRcv : HasRing s s.client.rcvRing
  | clientSend : HasRing s s.client.sendRing
  | rcv {t : ServerThread} (i : ℕ) : s.server = some t →
      (t.connData i).state ≠ .SRVR_STATE_INACTIVE → HasRing s (t.connData i).rcvRing
  | send {t : ServerThread} (i : ℕ) : s.server = some t →
      (t.connData i).state ≠ .SRVR_STATE_INACTIVE → HasRing s (t.connData i).sendRing

/-- The program shows an exchange whose sessions have room for one second of samples. -/
def Lined (s : Core) : Prop :=
  ∃ x, s.Is x ∧ ∀ o, x.switchboard = some o → o.RoomLe 16031

theorem lined_init (clientNo failtimer : ℤ) (mem : Memory) :
    (init clientNo failtimer mem).Lined :=
  ⟨_, core_is_init clientNo failtimer mem, fun _ h => (by cases h)⟩

/-- A step of the exchange keeps the room of its sessions. -/
theorem roomLe_of_exchange {x x' : Exchange} {n : ℕ}
    (hroom : ∀ o, x.switchboard = some o → o.RoomLe n)
    (hsize : ∀ o, x.switchboard = some o → ServerThread.sendBfrSize x.chanInfoG ≤ n)
    (hstep : exchangeMachine.step x l.abstract = some (x', es)) :
    ∀ o, x'.switchboard = some o → o.RoomLe n := by
  change x.step l.abstract = some (x', es) at hstep
  unfold Exchange.step at hstep
  split_ifs at hstep
  cases l with
  | main io =>
    change x.mainStep io.select (io.slots && io.packets) = some (x', es) at hstep
    unfold Exchange.mainStep at hstep
    cases hpc : x.mainPc <;> simp only [hpc] at hstep
    case spawn =>
      cases hstep
      rintro o heq
      cases heq
      intro i s hs
      cases hs
    case copy | closeCmd | dealloc | finish | clearSrv =>
      cases hstep
      exact hroom
    all_goals
      split_ifs at hstep <;> cases hstep <;> exact hroom
  | client io =>
    change some (x.clientStep io) = some (x', es) at hstep
    unfold Exchange.clientStep at hstep
    split at hstep <;> cases hstep <;> exact hroom
  | server io =>
    change x.serverStep io = some (x', es) at hstep
    unfold Exchange.serverStep at hstep
    cases ho : x.switchboard with
    | none =>
      rw [ho] at hstep
      cases hstep
    | some o =>
      simp only [ho] at hstep
      split_ifs at hstep
      cases hserve : o.step ⟨io, x.serverClose, x.chanInfoG, x.cache⟩ with
      | none =>
        simp only [hserve] at hstep
        cases hstep
        exact fun o' heq => hroom o' (ho.trans heq)
      | some r =>
        simp only [hserve] at hstep
        cases hstep
        intro o' heq
        obtain rfl := Option.some.inj heq
        exact (hroom o ho).step (hsize o ho) hserve

theorem Lined.step (h : s.Lined) (hvalid : s.ConfValid) (hstep : proxy.step s l = some (s', es)) :
    s'.Lined := by
  obtain ⟨x, his, hroom⟩ := h
  have hmirrors := his.step l
  rw [hstep] at hmirrors
  have hsize : ∀ o, x.switchboard = some o → ServerThread.sendBfrSize x.chanInfoG ≤ 16031 := by
    intro o ho
    rw [← his.chanInfoG]
    refine sendBfrSize_le (hvalid.copied (.inr fun hnone => ?_))
    have hserver := his.server
    rw [hnone, ho] at hserver
    cases hserver
  cases hx : exchangeMachine.step x l.abstract with
  | none =>
    rw [hx] at hmirrors
    cases hmirrors
  | some r =>
    rw [hx] at hmirrors
    cases hmirrors with
    | some hnext => exact ⟨r.1, hnext.1, roomLe_of_exchange hroom hsize hx⟩

/-- The rings in use are small. -/
theorem Lined.bfrsize_le (h : s.Lined) {r : RingSet} (hr : s.HasRing r) : r.bfrsize ≤ 16032 := by
  obtain ⟨x, his, hroom⟩ := h
  have hsession : ∀ t i, s.server = some t → (t.connData i).state ≠ .SRVR_STATE_INACTIVE →
      ∃ ses, IsSession (t.connData i) ses ∧ ses.room ≤ 16031 := by
    intro t i ht hactive
    have hserver := his.server
    rw [ht] at hserver
    cases ho : x.switchboard with
    | none =>
      rw [ho] at hserver
      cases hserver
    | some o =>
      rw [ho] at hserver
      obtain ⟨l, addr, hserves⟩ : t.Serves o := by
        cases hserver
        assumption
      have hshows := hserves.sessions i
      cases hs : o.sessions i with
      | none =>
        rw [hs] at hshows
        exact absurd hshows hactive
      | some ses =>
        rw [hs] at hshows
        exact ⟨ses, hshows, hroom o ho i ses hs⟩
  cases hr with
  | clientRcv =>
    have hsize := his.sized.rcv
    simp only [BFRSIZE] at hsize
    omega
  | clientSend =>
    have hsize := his.sized.send
    simp only [BFRSIZE] at hsize
    omega
  | rcv i ht hactive =>
    obtain ⟨ses, hses, -⟩ := hsession _ i ht hactive
    have hsize := hses.roomy.bfrsize
    simp only [SERVERRCVBFRSIZE] at hsize
    omega
  | @send t i ht hactive =>
    obtain ⟨ses, hses, hle⟩ := hsession _ i ht hactive
    have hcap : (t.connData i).sendRing.bfrsize - 1 = ses.room := hses.room
    omega

/-- **The rings of the program never overflow**: in every run a call on a ring in use, with a byte
count that is an `int`, has the result on `int` that it has on natural numbers. -/
theorem rings_int (clientNo failtimer : ℤ) (mem : Memory) (ls : List Label) :
    proxy.Always (fun _ _ _ s' => ∀ r, s'.HasRing r → ∀ call : RingCall, IsInt call.bytes →
        intRingOps call r.toInt = some ((ringOps call r).1, (ringOps call r).2.toInt))
      (init clientNo failtimer mem) ls := by
  refine Machine.always_of_inv (fun s => s.ConfValid ∧ s.Lined)
    ⟨confValid_init _ _ _, lined_init _ _ _⟩ ?_ ls
  rintro s l s' es ⟨hvalid, hlined⟩ hstep
  have hnext := hlined.step hvalid hstep
  refine ⟨⟨hvalid.step (step_cases hstep), hnext⟩, fun r hr call hint => ?_⟩
  have hle := hnext.bfrsize_le hr
  exact RingSet.intRingOps_eq (by omega) hint

end Core

end SdrProxy
