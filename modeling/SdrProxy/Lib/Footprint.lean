import Mathlib.Data.Set.Basic
import SdrProxy.Lib.Machine

/-!
# What steps read and write

The states of a machine hold a value at each place.  A step reads some places and writes some
(`Footprint`): what it does depends only on the values at the places that it reads, and it leaves
the other places than those that it writes alone.

* `Footprint.frame` : what a step does not write is as before;
* `Footprint.Apart` : two steps, neither of which writes what the other one reads or writes;
* `Footprint.commute` : **such steps can be taken in either order**, to the same state and with the
  same events.
-/

namespace SdrProxy

variable {S L E P : Type*} {V : P → Type*} {m : Machine S L E}

/-- What the steps of a machine read and write. -/
structure Footprint (m : Machine S L E) (V : P → Type*) where
  /-- The value at a place. -/
  value : (p : P) → S → V p
  /-- There is nothing but the values. -/
  ext : ∀ s t, (∀ p, value p s = value p t) → s = t
  /-- The places that a step depends on. -/
  reads : S → L → Set P
  /-- The places that a step may change. -/
  writes : S → L → Set P
  /-- States with the same values where a step reads can do the same, and have the same values
  where it writes. -/
  spec : ∀ s t l, (∀ p ∈ reads s l, value p t = value p s) →
    Machine.Mirrors (fun s' t' => ∀ p, (p ∈ writes s l → value p t' = value p s') ∧
      (p ∉ writes s l → value p t' = value p t)) (m.step s l) (m.step t l)

namespace Footprint

variable (f : Footprint m V) {s s' t s₁ s₂ : S} {l k : L} {es fs : List E} {p : P}

/-- **What a step does not write is as before.** -/
theorem frame (h : m.step s l = some (s', es)) (hp : p ∉ f.writes s l) :
    f.value p s' = f.value p s := by
  have hspec := f.spec s s l fun _ _ => rfl
  rw [h] at hspec
  cases hspec with
  | some hsame => exact (hsame.1 p).2 hp

theorem step_of_reads (h : m.step s l = some (s', es))
    (hreads : ∀ p ∈ f.reads s l, f.value p t = f.value p s) :
    ∃ t', m.step t l = some (t', es) ∧ (∀ p ∈ f.writes s l, f.value p t' = f.value p s') ∧
      ∀ p ∉ f.writes s l, f.value p t' = f.value p t := by
  have hspec := f.spec s t l hreads
  rw [h] at hspec
  cases hstep : m.step t l with
  | none =>
    rw [hstep] at hspec
    cases hspec
  | some r =>
    rw [hstep] at hspec
    cases hspec with
    | some hsame =>
      obtain ⟨hval, hes⟩ := hsame
      refine ⟨r.1, ?_, fun p hp => (hval p).1 hp, fun p hp => (hval p).2 hp⟩
      rw [show es = r.2 from hes]

/-- The first step writes nothing that the second one reads or writes. -/
def Clear (s : S) (l k : L) : Prop := ∀ p ∈ f.writes s l, p ∉ f.reads s k ∧ p ∉ f.writes s k

/-- Neither step writes what the other one reads or writes. -/
def Apart (s : S) (l k : L) : Prop := f.Clear s l k ∧ f.Clear s k l

/-- **Steps that are apart can be taken in either order.** -/
theorem commute (hapart : f.Apart s l k) (hl : m.step s l = some (s₁, es))
    (hk : m.step s k = some (s₂, fs)) :
    ∃ s₃, m.step s₁ k = some (s₃, fs) ∧ m.step s₂ l = some (s₃, es) := by
  obtain ⟨hlk, hkl⟩ := hapart
  have hreads : ∀ {l k : L} {s' : S} {es : List E}, f.Clear s l k →
      m.step s l = some (s', es) → ∀ p ∈ f.reads s k, f.value p s' = f.value p s :=
    fun hclear hstep p hp => f.frame hstep fun hmem => (hclear p hmem).1 hp
  obtain ⟨s₃, h₃, hin, hout⟩ := f.step_of_reads hk (hreads hlk hl)
  obtain ⟨t₃, h₃', hin', hout'⟩ := f.step_of_reads hl (hreads hkl hk)
  have heq : s₃ = t₃ := by
    refine f.ext _ _ ?_
    intro p
    by_cases hpl : p ∈ f.writes s l
    · rw [hin' p hpl, hout p (hlk p hpl).2]
    · rw [hout' p hpl]
      by_cases hpk : p ∈ f.writes s k
      · rw [hin p hpk]
      · rw [hout p hpk, f.frame hl hpl, f.frame hk hpk]
  exact ⟨s₃, h₃, heq ▸ h₃'⟩

end Footprint

end SdrProxy
