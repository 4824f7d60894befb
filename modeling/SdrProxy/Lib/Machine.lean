import Mathlib.Data.List.Basic

/-!
# Runs of a labelled machine

A machine takes a step from a state under a label, if the label is enabled, and emits events; a run
is a list of labels.  What is stated about runs is stated about their steps (`Machine.Always`).

* `Machine.always_of_inv` : the rule of invariants;
* `Machine.always_imp` : a property of every step, in the runs whose steps all meet a condition;
* `Machine.always_iff` : a condition on the steps that is exact for a property of the steps;
* `Machine.run_ind`, `Machine.run_ind_labels` : the rule of invariants for what a run leaves and
  emits;
* `Machine.run_simulates`, `Machine.run_matches` : a step simulation carries whole runs over, with
  the same events; a step may be matched by a run;
* `Machine.run_mirrors` : machines that can do the same in related states have the same runs;
* `Machine.run_purge` : labels that may be dropped from a run without a difference to what is seen;
* `Machine.watch`, `Machine.record` : the machine together with a record of its past, for properties
  that refer to it; the first record only looks at the events.
-/

namespace SdrProxy

/-- A deterministic machine with labels `L`, whose steps emit events `E`. -/
structure Machine (S L E : Type*) where
  /-- The state after a step and its events, if the label is enabled. -/
  step : S → L → Option (S × List E)

namespace Machine

variable {S L E G : Type*} {m : Machine S L E}

/-- `Q` holds of every step of the run from `s` under the labels, up to the first label that is
not enabled. -/
def Always (m : Machine S L E) (Q : S → L → List E → S → Prop) : S → List L → Prop
  | _, [] => True
  | s, l :: ls => match m.step s l with
    | none => True
    | some (s', es) => Q s l es s' ∧ Always m Q s' ls

instance decidableAlways (m : Machine S L E) (Q : S → L → List E → S → Prop)
    [∀ s l es s', Decidable (Q s l es s')] :
    (s : S) → (ls : List L) → Decidable (m.Always Q s ls)
  | _, [] => .isTrue trivial
  | s, l :: ls => match h : m.step s l with
    | none => .isTrue (by simp only [Always, h])
    | some (s', es) =>
      have := decidableAlways m Q s' ls
      decidable_of_iff (Q s l es s' ∧ m.Always Q s' ls) (by simp only [Always, h])

/-- The state and the events after a run, if all labels were enabled. -/
def run (m : Machine S L E) : S → List L → Option (S × List E)
  | s, [] => some (s, [])
  | s, l :: ls => do
    let (s, es) ← m.step s l
    let (s, es') ← run m s ls
    return (s, es ++ es')

variable {Q C : S → L → List E → S → Prop} {s : S}

theorem run_cons {s' : S} {l : L} {es : List E} (h : m.step s l = some (s', es)) (ls : List L) :
    m.run s (l :: ls) = (m.run s' ls).map fun r => (r.1, es ++ r.2) := by
  rw [run, h]
  cases hrun : m.run s' ls with
  | none => simp [hrun]
  | some r => simp [hrun]

/-- Where every label is enabled as long as an invariant holds, every run goes through. -/
theorem run_total (Inv : S → Prop) (h₀ : Inv s)
    (hstep : ∀ s l, Inv s → ∃ s' es, m.step s l = some (s', es) ∧ Inv s') (ls : List L) :
    ∃ s' es, m.run s ls = some (s', es) := by
  induction ls generalizing s with
  | nil => exact ⟨_, _, rfl⟩
  | cons l ls ih =>
    obtain ⟨s₁, es₁, h₁, hinv⟩ := hstep s l h₀
    obtain ⟨s₂, es₂, h₂⟩ := ih hinv
    exact ⟨s₂, es₁ ++ es₂, by rw [run_cons h₁, h₂]; rfl⟩

theorem always_cons {l : L} {ls : List L} : m.Always Q s (l :: ls) ↔
    ∀ s' es, m.step s l = some (s', es) → Q s l es s' ∧ m.Always Q s' ls := by
  rw [Always]
  cases h : m.step s l with
  | none => simp
  | some r =>
    obtain ⟨s', es⟩ := r
    simp only [Option.some.injEq, Prod.mk.injEq, and_imp]
    exact ⟨fun hq _ _ h₁ h₂ => h₁ ▸ h₂ ▸ hq, fun hq => hq s' es rfl rfl⟩

theorem always_of_append {s' : S} {ls ls' : List L} {es : List E} (h : m.Always Q s (ls ++ ls'))
    (hrun : m.run s ls = some (s', es)) : m.Always Q s' ls' := by
  induction ls generalizing s es with
  | nil =>
    cases hrun
    exact h
  | cons l ls ih =>
    obtain ⟨⟨s₁, es₁⟩, h₁, hrun⟩ := Option.bind_eq_some_iff.1 hrun
    obtain ⟨⟨s₂, es₂⟩, h₂, hrun⟩ := Option.bind_eq_some_iff.1 hrun
    cases hrun
    exact ih (always_cons.1 h s₁ es₁ h₁).2 h₂

theorem always_and (ls : List L) :
    m.Always (fun s l es s' => Q s l es s' ∧ C s l es s') s ls ↔
      m.Always Q s ls ∧ m.Always C s ls := by
  induction ls generalizing s with
  | nil => exact ⟨fun _ => ⟨trivial, trivial⟩, fun _ => trivial⟩
  | cons l ls ih =>
    simp only [always_cons, ih]
    constructor
    · intro h
      exact ⟨fun s' es hs => ⟨(h s' es hs).1.1, (h s' es hs).2.1⟩,
        fun s' es hs => ⟨(h s' es hs).1.2, (h s' es hs).2.2⟩⟩
    · rintro ⟨hQ, hC⟩ s' es hs
      exact ⟨⟨(hQ s' es hs).1, (hC s' es hs).1⟩, (hQ s' es hs).2, (hC s' es hs).2⟩

/-- In the runs whose steps all meet the condition `C`, what the invariant and the condition give
for one step holds of every step. -/
theorem always_imp (Inv : S → Prop) (h₀ : Inv s)
    (hstep : ∀ s l s' es, Inv s → m.step s l = some (s', es) → C s l es s' →
      Inv s' ∧ Q s l es s') (ls : List L) (hC : m.Always C s ls) : m.Always Q s ls := by
  induction ls generalizing s with
  | nil => trivial
  | cons l ls ih =>
    rw [always_cons] at hC ⊢
    intro s' es h
    obtain ⟨hcond, hrest⟩ := hC s' es h
    obtain ⟨hinv, hq⟩ := hstep s l s' es h₀ h hcond
    exact ⟨hq, ih hinv hrest⟩

/-- What an invariant gives for one step holds of every step. -/
theorem always_of_inv (Inv : S → Prop) (h₀ : Inv s)
    (hstep : ∀ s l s' es, Inv s → m.step s l = some (s', es) → Inv s' ∧ Q s l es s')
    (ls : List L) : m.Always Q s ls := by
  induction ls generalizing s with
  | nil => trivial
  | cons l ls ih =>
    rw [always_cons]
    intro s' es h
    obtain ⟨hinv, hq⟩ := hstep s l s' es h₀ h
    exact ⟨hq, ih hinv⟩

/-- If the condition is exact for one step as long as the invariant holds, and the invariant goes
on holding as long as the property does, the condition is exact for runs. -/
theorem always_iff (Inv : S → Prop) (h₀ : Inv s)
    (hstep : ∀ s l s' es, Inv s → m.step s l = some (s', es) →
      (Q s l es s' ↔ C s l es s') ∧ (Q s l es s' → Inv s')) (ls : List L) :
    m.Always Q s ls ↔ m.Always C s ls := by
  induction ls generalizing s with
  | nil => exact Iff.rfl
  | cons l ls ih =>
    rw [always_cons, always_cons]
    constructor
    · intro hq s' es h
      obtain ⟨hiff, hinv⟩ := hstep s l s' es h₀ h
      obtain ⟨hq', hrest⟩ := hq s' es h
      exact ⟨hiff.1 hq', (ih (hinv hq')).1 hrest⟩
    · intro hc s' es h
      obtain ⟨hiff, hinv⟩ := hstep s l s' es h₀ h
      obtain ⟨hc', hrest⟩ := hc s' es h
      have hq' := hiff.2 hc'
      exact ⟨hq', (ih (hinv hq')).2 hrest⟩

/-- What holds before a run and is kept by every step, together with the labels and the events so
far, holds after the run. -/
theorem run_ind_labels (P : S → List L → List E → Prop) {s s' : S} {ls : List L} {es : List E}
    (h₀ : P s [] []) (hstep : ∀ s l s' ls es es', P s ls es → m.step s l = some (s', es') →
      P s' (ls ++ [l]) (es ++ es')) (h : m.run s ls = some (s', es)) : P s' ls es := by
  have hgen : ∀ (ls : List L) (s : S) (ls₀ : List L) (es₀ es : List E), P s ls₀ es₀ →
      m.run s ls = some (s', es) → P s' (ls₀ ++ ls) (es₀ ++ es) := by
    intro ls
    induction ls with
    | nil =>
      intro s ls₀ es₀ es hP hrun
      cases hrun
      rwa [List.append_nil, List.append_nil]
    | cons l ls ih =>
      intro s ls₀ es₀ es hP hrun
      obtain ⟨⟨s₁, es₁⟩, h₁, hrun⟩ := Option.bind_eq_some_iff.1 hrun
      obtain ⟨⟨s₂, es₂⟩, h₂, hrun⟩ := Option.bind_eq_some_iff.1 hrun
      cases hrun
      rw [← List.append_assoc, List.append_cons]
      exact ih s₁ (ls₀ ++ [l]) (es₀ ++ es₁) es₂ (hstep s l s₁ ls₀ es₀ es₁ hP h₁) h₂
  exact hgen ls s [] [] es h₀ h

theorem run_ind (P : S → List E → Prop) {s s' : S} {ls : List L} {es : List E} (h₀ : P s [])
    (hstep : ∀ s l s' es es', P s es → m.step s l = some (s', es') → P s' (es ++ es'))
    (h : m.run s ls = some (s', es)) : P s' es :=
  run_ind_labels (fun s _ es => P s es) h₀ (fun s l s' _ es es' => hstep s l s' es es') h

theorem of_mem_run {P : E → Prop} {s' : S} {ls : List L} {es : List E} {e : E}
    (h : m.Always (fun _ _ es _ => ∀ e ∈ es, P e) s ls) (hrun : m.run s ls = some (s', es))
    (he : e ∈ es) : P e := by
  induction ls generalizing s es with
  | nil =>
    cases hrun
    cases he
  | cons l ls ih =>
    obtain ⟨⟨s₁, es₁⟩, h₁, hrun⟩ := Option.bind_eq_some_iff.1 hrun
    obtain ⟨⟨s₂, es₂⟩, h₂, hrun⟩ := Option.bind_eq_some_iff.1 hrun
    cases hrun
    obtain ⟨hfirst, hrest⟩ := always_cons.1 h s₁ es₁ h₁
    rcases List.mem_append.1 he with he | he
    · exact hfirst e he
    · exact ih hrest h₂ he

/-- If every step of one machine is matched by a step of another one with the same events, so is
every run. -/
theorem run_simulates {T : Type*} {m' : Machine T L E} (R : S → T → Prop)
    (hstep : ∀ s t l s' es, R s t → m.step s l = some (s', es) →
      ∃ t', m'.step t l = some (t', es) ∧ R s' t') {s s' : S} {t : T} {ls : List L} {es : List E}
    (hR : R s t) (h : m.run s ls = some (s', es)) :
    ∃ t', m'.run t ls = some (t', es) ∧ R s' t' := by
  induction ls generalizing s t es with
  | nil =>
    cases h
    exact ⟨t, rfl, hR⟩
  | cons l ls ih =>
    obtain ⟨⟨s₁, es₁⟩, h₁, h⟩ := Option.bind_eq_some_iff.1 h
    obtain ⟨⟨s₂, es₂⟩, h₂, h⟩ := Option.bind_eq_some_iff.1 h
    cases h
    obtain ⟨t₁, ht₁, hR₁⟩ := hstep s t l s₁ es₁ hR h₁
    obtain ⟨t₂, ht₂, hR₂⟩ := ih hR₁ h₂
    refine ⟨t₂, ?_, hR₂⟩
    rw [run_cons ht₁, ht₂]
    rfl

/-- Related states and the same events. -/
def Mirrors {T : Type*} (R : S → T → Prop) : Option (S × List E) → Option (T × List E) → Prop :=
  Option.Rel fun r r' => R r.1 r'.1 ∧ r.2 = r'.2

/-- If two machines in related states can do the same, with the same events, then they have the same
runs.  The labels may differ. -/
theorem run_mirrors {T K : Type*} {m' : Machine T K E} (R : S → T → Prop) (f : L → K) {ls : List L}
    (hstep : ∀ s t, ∀ l ∈ ls, R s t → Mirrors R (m.step s l) (m'.step t (f l)))
    {s : S} {t : T} (hR : R s t) : Mirrors R (m.run s ls) (m'.run t (ls.map f)) := by
  induction ls generalizing s t with
  | nil => exact .some ⟨hR, rfl⟩
  | cons l ls ih =>
    have hfirst := hstep s t l List.mem_cons_self hR
    rw [List.map_cons, run, run]
    cases hs : m.step s l with
    | none =>
      cases ht : m'.step t (f l) with
      | none => exact .none
      | some r' => rw [hs, ht] at hfirst; cases hfirst
    | some r =>
      cases ht : m'.step t (f l) with
      | none => rw [hs, ht] at hfirst; cases hfirst
      | some r' =>
        rw [hs, ht] at hfirst
        obtain ⟨hR', hes⟩ : R r.1 r'.1 ∧ r.2 = r'.2 := by
          cases hfirst
          assumption
        have hrest := ih (fun s t l hl => hstep s t l (List.mem_cons_of_mem _ hl)) hR'
        show Mirrors R ((m.run r.1 ls).bind _) ((m'.run r'.1 (ls.map f)).bind _)
        rw [← hes]
        generalize m.run r.1 ls = ran at hrest
        generalize m'.run r'.1 (ls.map f) = ran' at hrest
        cases hrest with
        | none => exact .none
        | some h => exact .some ⟨h.1, congrArg (r.2 ++ ·) h.2⟩

theorem run_singleton {s' : S} {l : L} {es : List E} (h : m.step s l = some (s', es)) :
    m.run s [l] = some (s', es) := by
  rw [run_cons h, run, Option.map_some, List.append_nil]

theorem run_append {s' s'' : S} {ls ls' : List L} {es es' : List E}
    (h : m.run s ls = some (s', es)) (h' : m.run s' ls' = some (s'', es')) :
    m.run s (ls ++ ls') = some (s'', es ++ es') := by
  induction ls generalizing s es with
  | nil =>
    cases h
    exact h'
  | cons l ls ih =>
    obtain ⟨⟨s₁, es₁⟩, h₁, h⟩ := Option.bind_eq_some_iff.1 h
    obtain ⟨⟨s₂, es₂⟩, h₂, h⟩ := Option.bind_eq_some_iff.1 h
    cases h
    rw [List.cons_append, run_cons h₁, ih h₂, List.append_assoc]
    rfl

theorem run_matches {T K : Type*} {m' : Machine T K E} (R : S → T → Prop)
    (hstep : ∀ s t l s' es, R s t → m.step s l = some (s', es) →
      ∃ ks t', m'.run t ks = some (t', es) ∧ R s' t') {s s' : S} {t : T} {ls : List L}
    {es : List E} (hR : R s t) (h : m.run s ls = some (s', es)) :
    ∃ ks t', m'.run t ks = some (t', es) ∧ R s' t' := by
  refine run_ind (fun s es => ∃ ks t', m'.run t ks = some (t', es) ∧ R s t') ⟨[], t, rfl, hR⟩ ?_ h
  rintro s l s' es es' ⟨ks, t', hrun, hR'⟩ hs
  obtain ⟨ks', t'', hrun', hR''⟩ := hstep s t' l s' es' hR' hs
  exact ⟨ks ++ ks', t'', run_append hrun hrun', hR''⟩

/-- Two runs, of which the second leaves out the labels that are dropped.  If a label that is kept
shows the same in both, and one that is dropped shows nothing, the runs show the same. -/
theorem run_purge {O : Type*} (R : S → S → Prop) (drop : L → Bool) (look : E → Option O)
    {s s' t t' : S} {ls : List L} {es es' : List E}
    (hkeep : ∀ l ∈ ls, drop l = false → ∀ s t s' t' es es', R s t → m.step s l = some (s', es) →
      m.step t l = some (t', es') → R s' t' ∧ es.filterMap look = es'.filterMap look)
    (hdrop : ∀ l ∈ ls, drop l = true → ∀ s t s' es, R s t → m.step s l = some (s', es) →
      R s' t ∧ es.filterMap look = [])
    (hR : R s t) (h : m.run s ls = some (s', es))
    (h' : m.run t (ls.filter fun l => !drop l) = some (t', es')) :
    R s' t' ∧ es.filterMap look = es'.filterMap look := by
  induction ls generalizing s t es es' with
  | nil =>
    cases h
    cases h'
    exact ⟨hR, rfl⟩
  | cons l ls ih =>
    obtain ⟨⟨s₁, es₁⟩, h₁, h⟩ := Option.bind_eq_some_iff.1 h
    obtain ⟨⟨s₂, es₂⟩, h₂, h⟩ := Option.bind_eq_some_iff.1 h
    cases h
    have hkeep' := fun k hk => hkeep k (List.mem_cons_of_mem l hk)
    have hdrop' := fun k hk => hdrop k (List.mem_cons_of_mem l hk)
    rw [List.filterMap_append]
    cases hl : drop l with
    | true =>
      obtain ⟨hR₁, hnone⟩ := hdrop l List.mem_cons_self hl s t s₁ es₁ hR h₁
      rw [List.filter_cons_of_neg (by simp [hl])] at h'
      rw [hnone, List.nil_append]
      exact ih hkeep' hdrop' hR₁ h₂ h'
    | false =>
      rw [List.filter_cons_of_pos (by simp [hl])] at h'
      obtain ⟨⟨t₁, es₁'⟩, h₁', h'⟩ := Option.bind_eq_some_iff.1 h'
      obtain ⟨⟨t₂, es₂'⟩, h₂', h'⟩ := Option.bind_eq_some_iff.1 h'
      cases h'
      obtain ⟨hR₁, hsame⟩ := hkeep l List.mem_cons_self hl s t s₁ t₁ es₁ es₁' hR h₁ h₁'
      obtain ⟨hR₂, hrest⟩ := ih hkeep' hdrop' hR₁ h₂ h₂'
      rw [List.filterMap_append, hsame, hrest]
      exact ⟨hR₂, rfl⟩

/-- The machine with a record of its past: `see` updates the record with the events of a step. -/
def watch (m : Machine S L E) (see : G → E → G) : Machine (S × G) L E where
  step sg l := (m.step sg.1 l).map fun r => ((r.1, r.2.foldl see sg.2), r.2)

/-- Events that the record does not look at. -/
theorem foldl_see_of_ignored {see : G → E → G} {es : List E} (h : ∀ e ∈ es, ∀ g, see g e = g)
    (g : G) : es.foldl see g = g := by
  induction es with
  | nil => rfl
  | cons e es ih =>
    rw [List.foldl_cons, h e List.mem_cons_self]
    exact ih fun e' he' => h e' (List.mem_cons_of_mem e he')

/-- The machine with a record of its past: `see` updates the record with the state, the label and
the events of a step. -/
def record (m : Machine S L E) (see : G → S → L → List E → G) : Machine (S × G) L E where
  step sg l := (m.step sg.1 l).map fun r => ((r.1, see sg.2 sg.1 l r.2), r.2)

/-- Machines that can do the same can do so with a record, if the records say the same. -/
theorem Mirrors.record {T K : Type*} {m' : Machine T K E} {R : S → T → Prop}
    {see : G → S → L → List E → G} {see' : G → T → K → List E → G} {t : T} {l : L} {k : K} {g : G}
    (h : Mirrors R (m.step s l) (m'.step t k)) (hsee : ∀ es, see g s l es = see' g t k es) :
    Mirrors (fun x y : _ × G => R x.1 y.1 ∧ x.2 = y.2) ((m.record see).step (s, g) l)
      ((m'.record see').step (t, g) k) := by
  unfold Machine.record
  dsimp only
  generalize m.step s l = r at h
  generalize m'.step t k = r' at h
  cases h with
  | none => exact .none
  | @some r r' h =>
    obtain ⟨hR, hes⟩ := h
    refine .some ⟨⟨hR, ?_⟩, hes⟩
    show see g s l r.2 = see' g t k r'.2
    rw [hsee, hes]

theorem record_step {see : G → S → L → List E → G} {sg sg' : S × G} {l : L} {es : List E} :
    (m.record see).step sg l = some (sg', es) ↔
      m.step sg.1 l = some (sg'.1, es) ∧ sg'.2 = see sg.2 sg.1 l es := by
  simp only [record, Option.map_eq_some_iff, Prod.mk.injEq, Prod.exists]
  constructor
  · rintro ⟨s', es', h, rfl, rfl⟩
    exact ⟨h, rfl⟩
  · rintro ⟨h, hg⟩
    exact ⟨sg'.1, es, h, Prod.ext rfl hg.symm, rfl⟩

theorem always_record (see : G → S → L → List E → G) (g : G) (ls : List L) :
    (m.record see).Always (fun sg l es sg' => Q sg.1 l es sg'.1) (s, g) ls ↔ m.Always Q s ls := by
  induction ls generalizing s g with
  | nil => exact Iff.rfl
  | cons l ls ih =>
    rw [always_cons, always_cons]
    constructor
    · intro h s' es hstep
      obtain ⟨hq, hrest⟩ := h (s', see g s l es) es (record_step.2 ⟨hstep, rfl⟩)
      exact ⟨hq, (ih _).1 hrest⟩
    · rintro h ⟨s', g'⟩ es hstep
      obtain ⟨hq, hrest⟩ := h s' es (record_step.1 hstep).1
      exact ⟨hq, (ih g').2 hrest⟩

theorem watch_step {see : G → E → G} {sg sg' : S × G} {l : L} {es : List E} :
    (m.watch see).step sg l = some (sg', es) ↔
      m.step sg.1 l = some (sg'.1, es) ∧ sg'.2 = es.foldl see sg.2 := by
  simp only [watch, Option.map_eq_some_iff, Prod.mk.injEq, Prod.exists]
  constructor
  · rintro ⟨s', es', h, rfl, rfl⟩
    exact ⟨h, rfl⟩
  · rintro ⟨h, hg⟩
    exact ⟨sg'.1, es, h, Prod.ext rfl hg.symm, rfl⟩

end Machine

end SdrProxy
