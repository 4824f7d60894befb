import SdrProxy.Moves

/-!
# Bytes that end the program

`get_adc_data` compares the start of a packet with the token by `strcmp`, and fails if there is no
difference.  A packet goes on behind the token, so the comparison finds a difference as long as the
byte there, the low byte of the length field, is not null.

* `NullBehindToken` : the next packet on the ring has a null byte behind its token;
* `turn_eq_fail_iff` : a turn ends the program exactly if the pass is not inhibited and the ring is
  so;
* `survives_iff` : the receive path ends no run exactly if no turn of it finds the ring so;
* `null_behind_token_fails` : the start of a packet with a length of 256 ends the program.
-/

namespace SdrProxy

/-- The next thing on the ring is a packet whose token is followed by a null byte, and more than its
preheader has arrived. -/
def NullBehindToken (s : List UInt8) : Prop :=
  ∃ a ∈ findSub ADCTOKEN s, (∀ c ∈ chanAt s, a ≤ c) ∧ PREHDRLEN < (s.drop a).length ∧
    (s.drop a).getD 4 0 = 0

instance (s : List UInt8) : Decidable (NullBehindToken s) :=
  inferInstanceAs (Decidable (∃ a ∈ findSub ADCTOKEN s, _))

/-- A turn of the receive path does not end the program. -/
def Survives (s : Core) (l : Label) (_ : List Event) (s' : Core) : Prop :=
  l.ofClient = true → s.client.pc = .checking → s'.exited = none

/-- A turn of a pass that stores packets does not find a null byte behind the next token. -/
def NoNullBehindToken (s : Core) (l : Label) (_ : List Event) (_ : Core) : Prop :=
  l.ofClient = true → s.client.pc = .checking → s.client.inhibitAdc = false →
    ¬ NullBehindToken s.client.rcvRing.contents

instance (s : Core) (l : Label) (es : List Event) (s' : Core) : Decidable (Survives s l es s') :=
  inferInstanceAs (Decidable (_ → _ → _))

theorem adcTurn_eq_fail_iff {s : List UInt8} :
    adcTurn s = none ↔ PREHDRLEN < s.length ∧ s.getD 4 0 = 0 := by
  unfold adcTurn
  dsimp only
  split_ifs with h₁ h₂ <;> simp_all

/-- **Which rings end the program.** -/
theorem turn_eq_fail_iff {inhibitAdc : Bool} {s : List UInt8} :
    turn inhibitAdc s = none ↔ inhibitAdc = false ∧ NullBehindToken s := by
  constructor
  · intro h
    rcases turn_cases inhibitAdc s with ⟨-, -, heq⟩ | ⟨c, -, -, heq⟩ | ⟨a, ha, hc, heq⟩
    · rw [heq] at h
      cases h
    · rw [heq] at h
      cases h
    · rw [heq, adcTurn_eq_fail_iff] at h
      unfold adcAt at ha
      split_ifs at ha with hinh
      exact ⟨by simpa using hinh, a, ha, hc, h⟩
  · rintro ⟨rfl, a, ha, hc, hfail⟩
    have ha' : adcAt false s = some a := ha
    rw [turn_eq_adc ha' hc]
    exact adcTurn_eq_fail_iff.2 hfail

/-- **Which runs the receive path does not end.**  No bytes from the remote server end the program
exactly if no turn of a pass that stores packets finds a null byte behind the next token. -/
theorem survives_iff (clientNo failtimer : ℤ) (mem : Memory) (ls : List Label) :
    proxy.Always Survives (.init clientNo failtimer mem) ls ↔
      proxy.Always NoNullBehindToken (.init clientNo failtimer mem) ls := by
  refine Machine.always_iff (fun _ => True) trivial ?_ ls
  intro s l s' es _ hstep
  have hexited := Core.exited_of_step hstep
  refine ⟨?_, fun _ => trivial⟩
  cases Core.step_cases hstep with
  | main _ => exact ⟨fun _ hl => (by cases hl), fun _ hl => (by cases hl)⟩
  | server _ _ _ => exact ⟨fun _ hl => (by cases hl), fun _ hl => (by cases hl)⟩
  | client hclient =>
    refine ⟨fun _ _ hpc hinh hnull => ?_, fun _ _ _ => hexited⟩
    cases hclient with
    | check t _ ht _ _ _ _ _ _ _ =>
      rw [turn_eq_fail_iff.2 ⟨hinh, hnull⟩] at ht
      cases ht
    | quiet hpc' _ _ _ _ => simp [hpc] at hpc'
    | sample hpc' => simp [hpc] at hpc'
    | raise hpc' _ => simp [hpc] at hpc'
    | keep hpc' _ => simp [hpc] at hpc'
  | fail msg hmay =>
    constructor
    · intro hsurv hl hpc _
      cases hsurv hl hpc
    · intro hnone hl hpc
      have hturn := hmay.client hl
      simp only [hpc, reduceCtorEq, true_and, false_or] at hturn
      obtain ⟨hinh, hnull⟩ := turn_eq_fail_iff.1 hturn
      exact absurd hnull (hnone hl hpc hinh)

/-- The first nine bytes of a packet with a length of 256 end the program. -/
theorem null_behind_token_fails :
    ¬ proxy.Always Survives (.init (-1) 0 .zero)
      (clientConnects ++ clientPass (ADCTOKEN ++ [0, 1, ADC_AD_DATA, 0, 0]) 1) := by
  decide +kernel

end SdrProxy
