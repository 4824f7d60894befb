import SdrProxy.ClientThread

/-!
# Connecting to the host

`sdr_connect` with its loop, on any sequence of outcomes of `connect`.

* `connectTurn`, `connectLoop` : one turn of the loop, and the loop;
* `connectLoop_eq` : the loop ends after one `connect`, with the result that the client thread sees;
* `Reports` : what `sdr_connect` is to make of the outcomes;
* `connectLoop_reports_iff` : it does so exactly if the first outcome is no error to try again
  after.
-/

namespace SdrProxy

/-- The errors after which `sdr_connect` says that it tries again. -/
def Retryable : Option Errno → Prop
  | some .ECONNREFUSED | some .ENETUNREACH | some .ETIMEDOUT => True
  | _ => False

instance : DecidablePred Retryable
  | none | some .EAGAIN | some .EWOULDBLOCK | some .EPIPE | some .ECONNRESET | some .other =>
    .isFalse id
  | some .ECONNREFUSED | some .ENETUNREACH | some .ETIMEDOUT => .isTrue trivial

/-- How a turn of the loop ends. -/
inductive TurnEnd where
  /-- `return rv`. -/
  | returned (rv : ℤ)
  /-- The next look at the condition of the loop. -/
  | next (done : Bool)
  deriving DecidableEq

/-- One turn of the loop of `sdr_connect`, with the outcome of its `connect`. -/
def connectTurn : Option Errno → TurnEnd
  -- the three branches wait, and then meet the successful one at `done = TRUE`
  | none | some .ECONNREFUSED | some .ENETUNREACH | some .ETIMEDOUT => .next true
  | some _ => .returned (-1)

/-- The loop of `sdr_connect` after `calls` calls of `connect`: how many calls there were in the end
and what it returns.  The first argument bounds the turns. -/
def connectLoop (connect : ℕ → Option Errno) : ℕ → ℕ → Bool → Option (ℕ × ℤ)
  | _, calls, true => some (calls, 0)
  | 0, _, false => none
  | fuel + 1, calls, false => match connectTurn (connect calls) with
    | .returned rv => some (calls + 1, rv)
    | .next done => connectLoop connect fuel (calls + 1) done

/-- The loop ends after one call. -/
theorem connectLoop_eq (connect : ℕ → Option Errno) (fuel : ℕ) :
    connectLoop connect (fuel + 1) 0 false = some (1, sdrConnect (connect 0)) := by
  have hdone : connectLoop connect fuel 1 true = some (1, 0) := by cases fuel <;> rfl
  rw [connectLoop]
  cases connect 0 with
  | none => exact hdone
  | some e => cases e <;> first | exact hdone | rfl

theorem sdrConnect_eq {outcome : Option Errno} (hno : ¬ Retryable outcome) :
    sdrConnect outcome = 0 ∧ outcome = none ∨ sdrConnect outcome = -1 ∧ outcome ≠ none := by
  cases outcome with
  | none => exact .inl ⟨rfl, rfl⟩
  | some e =>
    cases e with
    | ECONNREFUSED | ENETUNREACH | ETIMEDOUT => exact absurd trivial hno
    | EAGAIN | EWOULDBLOCK | EPIPE | ECONNRESET | other =>
      exact .inr ⟨rfl, Option.some_ne_none _⟩

/-- What the calls of `connect` and the result of `sdr_connect` are to be. -/
structure Reports (connect : ℕ → Option Errno) (calls : ℕ) (rv : ℤ) : Prop where
  /-- After an error to try again after there is another call. -/
  again : ∀ n < calls, Retryable (connect n) → n + 1 < calls
  /-- Any other error ends it, with -1. -/
  failed : ∀ n < calls, connect n ≠ none → ¬ Retryable (connect n) → calls = n + 1 ∧ rv = -1
  /-- With 0 the last call succeeded. -/
  connected : rv = 0 → ∃ n, calls = n + 1 ∧ connect n = none

/-- **`sdr_connect` returns on every sequence of outcomes, and reports them right exactly if the
first one is no error to try again after.** -/
theorem connectLoop_reports_iff (connect : ℕ → Option Errno) :
    ∃ calls rv, (∀ fuel, connectLoop connect (fuel + 1) 0 false = some (calls, rv)) ∧
      (Reports connect calls rv ↔ ¬ Retryable (connect 0)) := by
  refine ⟨1, sdrConnect (connect 0), connectLoop_eq connect, ?_⟩
  constructor
  · intro h hretry
    exact Nat.lt_irrefl 1 (h.again 0 Nat.one_pos hretry)
  · intro hno
    refine ⟨?_, ?_, ?_⟩
    · intro n hn hretry
      obtain rfl := Nat.lt_one_iff.1 hn
      exact absurd hretry hno
    · intro n hn hne _
      obtain rfl := Nat.lt_one_iff.1 hn
      rcases sdrConnect_eq hno with ⟨-, hnone⟩ | ⟨hrv, -⟩
      · exact absurd hnone hne
      · exact ⟨rfl, hrv⟩
    · intro hrv
      rcases sdrConnect_eq hno with ⟨-, hnone⟩ | ⟨hrv', -⟩
      · exact ⟨0, rfl, hnone⟩
      · rw [hrv'] at hrv
        cases hrv

/-- A host that refuses the first connection and takes the second one. -/
def refusedOnce (n : ℕ) : Option Errno := if n = 0 then some .ECONNREFUSED else none

/-- The refused connection is reported as a success, and there is no second call. -/
theorem connect_refused_reported : connectLoop refusedOnce 2 0 false = some (1, 0) ∧
    ¬ Reports refusedOnce 1 0 := by
  refine ⟨rfl, ?_⟩
  intro h
  obtain ⟨n, hn, hnone⟩ := h.connected rfl
  obtain rfl := Nat.succ_injective hn
  cases hnone

end SdrProxy
