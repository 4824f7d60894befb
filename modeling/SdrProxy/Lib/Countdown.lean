import SdrProxy.Lib.Machine

/-!
# Bounded waiting

A machine waits for something that some of its steps bring nearer.

* `Machine.Countdown` : the steps that count lower a measure while the machine waits, and no step
  raises it;
* `Machine.tally` : a record of how many steps have counted since the machine began to wait;
* `Machine.Countdown.step` : the steps that have counted and the measure of what is left never
  exceed the measure at the start.
-/

namespace SdrProxy

namespace Machine

variable {S L E : Type*}

/-- While the machine waits, the steps of the labels that count lower the measure `left`, and no
step raises it; where the wait begins it is at most `bound`.  `Inv` is what may be assumed. -/
structure Countdown (m : Machine S L E) (Inv waiting : S → Prop) (counts : L → Bool)
    (left : S → ℕ) (bound : ℕ) : Prop where
  starts : ∀ {s l s' es}, Inv s → m.step s l = some (s', es) → ¬ waiting s → waiting s' →
    left s' ≤ bound
  falls : ∀ {s l s' es}, Inv s → m.step s l = some (s', es) → waiting s → waiting s' →
    counts l = true → left s' < left s
  stays : ∀ {s l s' es}, Inv s → m.step s l = some (s', es) → waiting s → waiting s' →
    counts l = false → left s' ≤ left s

/-- The number of steps that have counted since the machine began to wait. -/
def tally (waiting : S → Prop) [DecidablePred waiting] (counts : L → Bool) (n : ℕ) (s : S)
    (l : L) : ℕ :=
  if waiting s then if counts l then n + 1 else n else 0

variable {m : Machine S L E} {Inv waiting : S → Prop} [DecidablePred waiting] {counts : L → Bool}
variable {left : S → ℕ} {bound n : ℕ} {s s' : S} {l : L} {es : List E}

/-- **What has counted and what is left stay within the bound.** -/
theorem Countdown.step (h : m.Countdown Inv waiting counts left bound) (hinv : Inv s)
    (hle : waiting s → n + left s ≤ bound) (hstep : m.step s l = some (s', es))
    (hwait : waiting s') : tally waiting counts n s l + left s' ≤ bound := by
  unfold tally
  by_cases hw : waiting s
  · have hle := hle hw
    rw [if_pos hw]
    cases hc : counts l with
    | true =>
      have := h.falls hinv hstep hw hwait hc
      simp only [↓reduceIte]
      omega
    | false =>
      have := h.stays hinv hstep hw hwait hc
      simp only [Bool.false_eq_true, ↓reduceIte]
      omega
  · have := h.starts hinv hstep hw hwait
    rw [if_neg hw]
    omega

end Machine

end SdrProxy
