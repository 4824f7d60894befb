import Mathlib.Data.Fintype.Defs
import Mathlib.Logic.Function.Basic
import SdrProxy.Lib.Footprint

/-!
# Threads with mutexes

What threads do, as far as mutexes go: each runs structured code (`Code`) in which a mutex is held
for as long as a block lasts (`Code.locked`), and does things of its own in between (`Code.act`).
What a condition of the program decides is left open here (`Code.choice`, `Code.loop`).

* `Locks` : what every thread has still to do, and who holds each mutex; `Locks.step` is one step of
  one thread, and a thread waits (`Locks.Waits`) for a mutex that is held;
* `Code.Fits` : a mutex is acquired only while mutexes are held that it may be nested in, and an act
  is done only while mutexes are held that allow it.  It is a condition on the code alone;
* `Locks.Sound` : what each thread has to do fits what it holds (`Locks.Sound.step`);
* `Locks.Sound.exists_running` : **no deadlock**, if the nestings of different threads that a mutex
  links can be ranked;
* `Code.Once` : acts of a kind are done once (`Locks.Moves.once`);
* `alone_straight` : a thread that finds every mutex free gets to the end of its code;
* `Locks.footprint` : what a step reads and writes.
-/

namespace SdrProxy

variable {T M W : Type*}

/-- What a thread does, with mutexes in `M`. -/
inductive Code (M W : Type*) where
  | skip
  /-- Something that is not about mutexes. -/
  | act (w : W)
  | seq (c d : Code M W)
  /-- One or the other. -/
  | choice (c d : Code M W)
  /-- Any number of times. -/
  | loop (c : Code M W)
  /-- With the mutex held. -/
  | locked (m : M) (c : Code M W)

/-- One after the other. -/
def Code.block : List (Code M W) → Code M W
  | [] => skip
  | c :: cs => seq c (block cs)

/-- What a thread has to do next. -/
inductive Task (M W : Type*) where
  | run (c : Code M W)
  | release (m : M)

/-- Threads with mutexes. -/
structure Locks (T M W : Type*) where
  /-- What each thread has still to do. -/
  tasks : T → List (Task M W)
  /-- The thread that holds a mutex. -/
  owner : M → Option T

namespace Locks

variable [DecidableEq T] [DecidableEq M]

/-- No thread does anything. -/
def quiet : Locks T M W := ⟨fun _ => [], fun _ => none⟩

/-- The thread has this to do. -/
def setTasks (s : Locks T M W) (t : T) (tasks : List (Task M W)) : Locks T M W :=
  { s with tasks := Function.update s.tasks t tasks }

/-- The mutex is held by this thread, or free. -/
def setOwner (s : Locks T M W) (m : M) (t : Option T) : Locks T M W :=
  { s with owner := Function.update s.owner m t }

/-- One step of a thread, with what it did; `way` decides what is left open. -/
def step (s : Locks T M W) (t : T) (way : Bool) : Option (Locks T M W × Option W) :=
  match s.tasks t with
  | [] => none
  | .release m :: rest => some ((s.setTasks t rest).setOwner m none, none)
  | .run c :: rest =>
    match c with
    | .skip => some (s.setTasks t rest, none)
    | .act w => some (s.setTasks t rest, some w)
    | .seq c d => some (s.setTasks t (.run c :: .run d :: rest), none)
    | .choice c d => some (s.setTasks t (.run (if way then c else d) :: rest), none)
    | .loop c =>
      some (s.setTasks t (if way then .run c :: .run (.loop c) :: rest else rest), none)
    | .locked m c =>
      if s.owner m = none then
        some ((s.setTasks t (.run c :: .release m :: rest)).setOwner m (some t), none)
      else none

/-- What a thread goes on with that runs this code and has the rest to do after it, and what it
did. -/
inductive Goes : Code M W → List (Task M W) → List (Task M W) → Option W → Prop
  | skip (rest : List (Task M W)) : Goes .skip rest rest none
  | act (w : W) (rest : List (Task M W)) : Goes (.act w) rest rest (some w)
  | seq (c d : Code M W) (rest : List (Task M W)) :
      Goes (.seq c d) rest (.run c :: .run d :: rest) none
  | left (c d : Code M W) (rest : List (Task M W)) : Goes (.choice c d) rest (.run c :: rest) none
  | right (c d : Code M W) (rest : List (Task M W)) : Goes (.choice c d) rest (.run d :: rest) none
  | again (c : Code M W) (rest : List (Task M W)) :
      Goes (.loop c) rest (.run c :: .run (.loop c) :: rest) none
  | stop (c : Code M W) (rest : List (Task M W)) : Goes (.loop c) rest rest none

/-- What a step of a thread can do. -/
inductive Moves (s : Locks T M W) (t : T) : Locks T M W → Option W → Prop
  | go {c : Code M W} {rest tasks : List (Task M W)} {w : Option W} :
      s.tasks t = .run c :: rest → Goes c rest tasks w → Moves s t (s.setTasks t tasks) w
  | acquire {m : M} {c : Code M W} {rest : List (Task M W)} :
      s.tasks t = .run (.locked m c) :: rest → s.owner m = none →
      Moves s t ((s.setTasks t (.run c :: .release m :: rest)).setOwner m (some t)) none
  | release {m : M} {rest : List (Task M W)} : s.tasks t = .release m :: rest →
      Moves s t ((s.setTasks t rest).setOwner m none) none

variable {s s' : Locks T M W} {t u : T} {m : M} {way : Bool} {w : Option W}

/-- **What a step of a thread can do.** -/
theorem moves_of_step (h : s.step t way = some (s', w)) : s.Moves t s' w := by
  unfold step at h
  cases htasks : s.tasks t with
  | nil =>
    rw [htasks] at h
    cases h
  | cons task rest =>
    rw [htasks] at h
    cases task with
    | release m =>
      cases h
      exact .release htasks
    | run c =>
      cases c with
      | skip =>
        cases h
        exact .go htasks (.skip rest)
      | act w =>
        cases h
        exact .go htasks (.act w rest)
      | seq c d =>
        cases h
        exact .go htasks (.seq c d rest)
      | choice c d =>
        cases h
        cases way with
        | false => exact .go htasks (.right c d rest)
        | true => exact .go htasks (.left c d rest)
      | loop c =>
        cases h
        cases way with
        | false => exact .go htasks (.stop c rest)
        | true => exact .go htasks (.again c rest)
      | locked m c =>
        dsimp only at h
        split_ifs at h with hfree
        cases h
        exact .acquire htasks hfree

omit [DecidableEq M] in
@[simp] theorem tasks_setTasks_self (tasks : List (Task M W)) :
    (s.setTasks t tasks).tasks t = tasks := Function.update_self ..

omit [DecidableEq M] in
theorem tasks_setTasks_of_ne (tasks : List (Task M W)) (h : u ≠ t) :
    (s.setTasks t tasks).tasks u = s.tasks u := Function.update_of_ne h ..

omit [DecidableEq M] in
@[simp] theorem owner_setTasks (tasks : List (Task M W)) :
    (s.setTasks t tasks).owner = s.owner := rfl

omit [DecidableEq M] in
@[simp] theorem setTasks_setTasks (tasks tasks' : List (Task M W)) :
    (s.setTasks t tasks).setTasks t tasks' = s.setTasks t tasks' := by
  simp [setTasks]

omit [DecidableEq T] in
@[simp] theorem tasks_setOwner (v : Option T) : (s.setOwner m v).tasks = s.tasks := rfl

theorem Moves.tasks_ne_nil (h : s.Moves t s' w) : s.tasks t ≠ [] := by
  cases h with
  | go htasks _ | acquire htasks _ | release htasks =>
    rw [htasks]
    exact List.cons_ne_nil _ _

theorem Moves.tasks_of_act {a : W} (h : s.Moves t s' (some a)) :
    ∃ rest, s.tasks t = .run (.act a) :: rest := by
  cases h with
  | go htasks hgoes =>
    cases hgoes
    exact ⟨_, htasks⟩

theorem Moves.eq_of_act {a : W} {rest : List (Task M W)} (h : s.Moves t s' w)
    (htasks : s.tasks t = .run (.act a) :: rest) : w = some a := by
  cases h with
  | go htasks' hgoes =>
    rw [htasks] at htasks'
    cases htasks'
    cases hgoes
    rfl
  | acquire htasks' _ | release htasks' =>
    rw [htasks] at htasks'
    cases htasks'

theorem Moves.tasks_of_ne (h : s.Moves t s' w) (hu : u ≠ t) : s'.tasks u = s.tasks u := by
  cases h with
  | go _ _ => exact tasks_setTasks_of_ne _ hu
  | acquire _ _ => exact tasks_setTasks_of_ne _ hu
  | release _ => exact tasks_setTasks_of_ne _ hu

theorem step_act {a : W} {rest : List (Task M W)} (h : s.tasks t = .run (.act a) :: rest) :
    s.step t way = some (s.setTasks t rest, some a) := by
  rw [step, h]

/-- The thread waits for the mutex, which another one holds. -/
def Waits (s : Locks T M W) (t : T) (m : M) (u : T) : Prop :=
  (∃ c rest, s.tasks t = .run (.locked m c) :: rest) ∧ s.owner m = some u

/-- A thread that waits does nothing. -/
theorem step_of_waits (h : s.Waits t m u) : s.step t way = none := by
  obtain ⟨⟨c, rest, htasks⟩, howner⟩ := h
  rw [step, htasks]
  exact if_neg (by simp [howner])

/-- A thread that has something to do can do it, unless it waits. -/
theorem step_isSome (way : Bool) (htasks : s.tasks t ≠ []) (hwaits : ∀ m u, ¬ s.Waits t m u) :
    (s.step t way).isSome := by
  unfold step
  cases h : s.tasks t with
  | nil => exact absurd h htasks
  | cons task rest =>
    cases task with
    | release m => rfl
    | run c =>
      cases c with
      | skip | act _ | seq _ _ | choice _ _ | loop _ => rfl
      | locked m c =>
        cases howner : s.owner m with
        | none =>
          dsimp only
          rw [if_pos howner]
          rfl
        | some u => exact absurd ⟨⟨c, rest, h⟩, howner⟩ (hwaits m u)

end Locks

/-! ### Code that fits -/

/-- What holds of the mutexes of a thread. -/
structure Rules (M W : Type*) where
  /-- The second mutex may be acquired while the first one is held. -/
  nests : M → M → Prop
  /-- The act may be done while these mutexes are held. -/
  allows : W → List M → Prop

variable {r r' : Rules M W} {rules rules' : T → Rules M W}

/-- The code fits the rules, if these mutexes are held. -/
def Code.Fits (r : Rules M W) : Code M W → List M → Prop
  | .skip, _ => True
  | .act w, held => r.allows w held
  | .seq c d, held => c.Fits r held ∧ d.Fits r held
  | .choice c d, held => c.Fits r held ∧ d.Fits r held
  | .loop c, held => c.Fits r held
  | .locked m c, held => m ∉ held ∧ (∀ k ∈ held, r.nests k m) ∧ c.Fits r (m :: held)

/-- The tasks fit the rules, if these mutexes are held, the last one acquired first. -/
def FitTasks (r : Rules M W) : List (Task M W) → List M → Prop
  | [], held => held = []
  | .run c :: rest, held => c.Fits r held ∧ FitTasks r rest held
  | .release m :: rest, held => ∃ held', held = m :: held' ∧ m ∉ held' ∧ FitTasks r rest held'

/-- The mutexes that the thread holds. -/
def Locks.Holds (s : Locks T M W) (t : T) (held : List M) : Prop :=
  ∀ m, s.owner m = some t ↔ m ∈ held

/-- What each thread has still to do fits what it holds. -/
def Locks.Sound (rules : T → Rules M W) (s : Locks T M W) : Prop :=
  ∀ t, ∃ held, s.Holds t held ∧ FitTasks (rules t) (s.tasks t) held

namespace Locks.Sound

variable {s s' : Locks T M W} {t u : T} {m : M} {way : Bool}

theorem quiet : (Locks.quiet : Locks T M W).Sound rules :=
  fun _ => ⟨[], by simp [Holds, Locks.quiet], rfl⟩

/-- The rules may change as long as what is still to do fits them. -/
theorem of_rules (h : s.Sound rules)
    (hfit : ∀ t held, FitTasks (rules t) (s.tasks t) held → FitTasks (rules' t) (s.tasks t) held) :
    s.Sound rules' := by
  intro t
  obtain ⟨held, hholds, hfits⟩ := h t
  exact ⟨held, hholds, hfit t held hfits⟩

theorem ne_of_waits (h : s.Sound rules) (hw : s.Waits t m u) : u ≠ t := by
  rintro rfl
  obtain ⟨⟨c, rest, htasks⟩, howner⟩ := hw
  obtain ⟨held, hholds, hfits⟩ := h u
  rw [htasks] at hfits
  exact hfits.1.1 ((hholds m).1 howner)

/-- Who waits while he holds a mutex nests the one in the other. -/
theorem nests_of_waits (h : s.Sound rules) (hw : s.Waits t m u) {k : M}
    (hk : s.owner k = some t) : (rules t).nests k m := by
  obtain ⟨⟨c, rest, htasks⟩, -⟩ := hw
  obtain ⟨held, hholds, hfits⟩ := h t
  rw [htasks] at hfits
  exact hfits.1.2.1 k ((hholds k).1 hk)

/-- **An act is done only while the mutexes held allow it.** -/
theorem allows (h : s.Sound rules) {w : W} {rest : List (Task M W)}
    (htasks : s.tasks t = .run (.act w) :: rest) :
    ∃ held, s.Holds t held ∧ (rules t).allows w held := by
  obtain ⟨held, hholds, hfits⟩ := h t
  rw [htasks] at hfits
  exact ⟨held, hholds, hfits.1⟩

theorem tasks_ne_nil (h : s.Sound rules) (hm : s.owner m = some t) : s.tasks t ≠ [] := by
  intro htasks
  obtain ⟨held, hholds, hfits⟩ := h t
  rw [htasks] at hfits
  have hmem := (hholds m).1 hm
  rw [hfits] at hmem
  cases hmem

section Step

variable [DecidableEq T]

theorem setTasks (h : s.Sound rules) {tasks : List (Task M W)}
    (htasks : ∀ held, FitTasks (rules t) (s.tasks t) held → FitTasks (rules t) tasks held) :
    (s.setTasks t tasks).Sound rules := by
  intro u
  obtain ⟨held, hholds, hfits⟩ := h u
  refine ⟨held, hholds, ?_⟩
  show FitTasks (rules u) (Function.update s.tasks t tasks u) held
  by_cases hu : u = t
  · subst hu
    rw [Function.update_self]
    exact htasks held hfits
  · rwa [Function.update_of_ne hu]

theorem start (h : s.Sound rules) (htasks : s.tasks t = []) {c : Code M W}
    (hc : c.Fits (rules t) []) : (s.setTasks t [.run c]).Sound rules := by
  refine h.setTasks ?_
  intro held hfits
  rw [htasks] at hfits
  obtain rfl : held = [] := hfits
  exact ⟨hc, rfl⟩

variable [DecidableEq M]

theorem setOwner (h : s.Sound rules) {tasks : List (Task M W)} {v : Option T}
    (howner : ∀ w, s.owner m = some w → w = t) (hv : ∀ w ∈ v, w = t)
    (ht : ∃ held, ((s.setTasks t tasks).setOwner m v).Holds t held ∧
      FitTasks (rules t) tasks held) :
    ((s.setTasks t tasks).setOwner m v).Sound rules := by
  intro u
  by_cases hu : u = t
  · subst hu
    obtain ⟨held, hholds, hfits⟩ := ht
    refine ⟨held, hholds, ?_⟩
    show FitTasks (rules u) (Function.update s.tasks u tasks u) held
    rwa [Function.update_self]
  · obtain ⟨held, hholds, hfits⟩ := h u
    refine ⟨held, ?_, ?_⟩
    · intro k
      show Function.update s.owner m v k = some u ↔ k ∈ held
      by_cases hk : k = m
      · subst hk
        rw [Function.update_self, ← hholds k]
        exact ⟨fun hmem => absurd (hv u hmem) hu, fun hown => absurd (howner u hown) hu⟩
      · rw [Function.update_of_ne hk]
        exact hholds k
    · show FitTasks (rules u) (Function.update s.tasks t tasks u) held
      rwa [Function.update_of_ne hu]

/-- **A step keeps what fits.** -/
theorem step {w : Option W} (h : s.Sound rules) (hmove : s.Moves t s' w) : s'.Sound rules := by
  cases hmove with
  | go htasks hgoes =>
    refine h.setTasks ?_
    intro held hfits
    rw [htasks] at hfits
    obtain ⟨hc, hrest⟩ := hfits
    cases hgoes with
    | skip | act | stop => exact hrest
    | seq c d => exact ⟨hc.1, hc.2, hrest⟩
    | left c d => exact ⟨hc.1, hrest⟩
    | right c d => exact ⟨hc.2, hrest⟩
    | again c => exact ⟨hc, hc, hrest⟩
  | @acquire m c rest htasks hfree =>
    obtain ⟨held, hholds, hfits⟩ := h t
    rw [htasks] at hfits
    obtain ⟨⟨hm, -, hc⟩, hrest⟩ := hfits
    refine h.setOwner (by simp [hfree]) (by simp) ⟨m :: held, ?_, hc, held, rfl, hm, hrest⟩
    intro k
    show Function.update s.owner m (some t) k = some t ↔ k ∈ m :: held
    by_cases hk : k = m
    · subst hk
      simp
    · rw [Function.update_of_ne hk, hholds k]
      simp [hk]
  | @release m rest htasks =>
    obtain ⟨held, hholds, hfits⟩ := h t
    rw [htasks] at hfits
    obtain ⟨held', rfl, hm, hfits⟩ := hfits
    have howner : s.owner m = some t := (hholds m).2 List.mem_cons_self
    refine h.setOwner (by simp [howner]) (by simp) ⟨held', ?_, hfits⟩
    intro k
    show Function.update s.owner m none k = some t ↔ k ∈ held'
    by_cases hk : k = m
    · subst hk
      simp [hm]
    · rw [Function.update_of_ne hk, hholds k]
      simp [hk]

end Step

/-! ### No deadlock -/

/-- If two threads nest mutexes, one in `m` and the other one `m` in one, the second nesting ranks
lower. -/
def Ranked (rules : T → Rules M W) (rank : T → M → M → ℕ) : Prop :=
  ∀ t u k m n, t ≠ u → (rules t).nests k m → (rules u).nests m n → rank u m n < rank t k m

/-- **There is no deadlock**: where a thread waits, one that holds a mutex does not. -/
theorem exists_running {rank : T → M → M → ℕ} (hrank : Ranked rules rank) (h : s.Sound rules)
    (hw : s.Waits t m u) : ∃ v k, s.owner k = some v ∧ ∀ n x, ¬ s.Waits v n x := by
  by_contra hnone
  push Not at hnone
  -- so every owner waits, and the ranks go down from owner to owner
  have hchain : ∀ N t k m u, rank t k m = N → s.owner k = some t → s.Waits t m u → False := by
    intro N
    induction N using Nat.strong_induction_on with
    | _ N ih =>
      rintro t k m u rfl hk hw
      obtain ⟨n, x, hw'⟩ := hnone u m hw.2
      exact ih _ (hrank t u k m n (h.ne_of_waits hw).symm (h.nests_of_waits hw hk)
        (h.nests_of_waits hw' hw.2)) u m n x rfl hw.2 hw'
  obtain ⟨n, x, hw'⟩ := hnone u m hw.2
  exact hchain _ u m n x rfl hw.2 hw'

end Locks.Sound

/-! ### Acts that are done once -/

/-- No act of the kind. -/
def Code.Quiet (p : W → Prop) : Code M W → Prop
  | .skip => True
  | .act w => ¬ p w
  | .seq c d => c.Quiet p ∧ d.Quiet p
  | .choice c d => c.Quiet p ∧ d.Quiet p
  | .loop c => c.Quiet p
  | .locked _ c => c.Quiet p

/-- At most one act of the kind, whatever is chosen. -/
def Code.Once (p : W → Prop) : Code M W → Prop
  | .skip => True
  | .act _ => True
  | .seq c d => c.Once p ∧ d.Once p ∧ (c.Quiet p ∨ d.Quiet p)
  | .choice c d => c.Once p ∧ d.Once p
  | .loop c => c.Quiet p
  | .locked _ c => c.Once p

/-- No act of the kind is still to come. -/
def QuietTasks (p : W → Prop) : List (Task M W) → Prop
  | [] => True
  | .run c :: rest => c.Quiet p ∧ QuietTasks p rest
  | .release _ :: rest => QuietTasks p rest

/-- At most one act of the kind is still to come. -/
def OnceTasks (p : W → Prop) : List (Task M W) → Prop
  | [] => True
  | .run c :: rest => c.Once p ∧ OnceTasks p rest ∧ (c.Quiet p ∨ QuietTasks p rest)
  | .release _ :: rest => OnceTasks p rest

variable {p : W → Prop} {s s' : Locks T M W} {t u : T} {w : Option W} {c : Code M W}
variable {rest tasks : List (Task M W)}

theorem Code.Quiet.once (h : c.Quiet p) : c.Once p := by
  induction c with
  | skip | act _ => trivial
  | seq c d ihc ihd => exact ⟨ihc h.1, ihd h.2, .inl h.1⟩
  | choice c d ihc ihd => exact ⟨ihc h.1, ihd h.2⟩
  | loop c _ => exact h
  | locked _ c ih => exact ih h

theorem Locks.Goes.quiet (hgoes : Goes c rest tasks w) (h : QuietTasks p (.run c :: rest)) :
    QuietTasks p tasks ∧ ∀ a ∈ w, ¬ p a := by
  obtain ⟨hc, hrest⟩ := h
  cases hgoes with
  | skip | stop => exact ⟨hrest, nofun⟩
  | act a =>
    refine ⟨hrest, ?_⟩
    rintro _ ⟨⟩
    exact hc
  | seq c d => exact ⟨⟨hc.1, hc.2, hrest⟩, nofun⟩
  | left c d => exact ⟨⟨hc.1, hrest⟩, nofun⟩
  | right c d => exact ⟨⟨hc.2, hrest⟩, nofun⟩
  | again c => exact ⟨⟨hc, hc, hrest⟩, nofun⟩

theorem Locks.Goes.once (hgoes : Goes c rest tasks w) (h : OnceTasks p (.run c :: rest)) :
    OnceTasks p tasks ∧ ∀ a ∈ w, p a → QuietTasks p tasks := by
  obtain ⟨hc, hrest, hor⟩ := h
  cases hgoes with
  | skip | stop => exact ⟨hrest, nofun⟩
  | act a =>
    refine ⟨hrest, ?_⟩
    rintro _ ⟨⟩ ha
    exact hor.resolve_left fun hquiet => hquiet ha
  | seq c d =>
    refine ⟨⟨hc.1, ⟨hc.2.1, hrest, ?_⟩, ?_⟩, nofun⟩
    · exact hor.imp_left And.right
    · rcases hc.2.2 with hquiet | hquiet
      · exact .inl hquiet
      · rcases hor with hquiet' | hquiet'
        · exact .inl hquiet'.1
        · exact .inr ⟨hquiet, hquiet'⟩
  | left c d => exact ⟨⟨hc.1, hrest, hor.imp_left And.left⟩, nofun⟩
  | right c d => exact ⟨⟨hc.2, hrest, hor.imp_left And.right⟩, nofun⟩
  | again c =>
    have hquiet : c.Quiet p := hc
    exact ⟨⟨hquiet.once, ⟨hquiet, hrest, .inl hquiet⟩, .inl hquiet⟩, nofun⟩

/-- Tasks without an act of a kind fit any rules that say the same of the other acts. -/
theorem FitTasks.of_quiet {held : List M} (hfits : FitTasks r tasks held) (h : QuietTasks p tasks)
    (hnests : r'.nests = r.nests) (hallows : ∀ a, ¬ p a → r'.allows a = r.allows a) :
    FitTasks r' tasks held := by
  have hcode : ∀ (c : Code M W) (held : List M), c.Fits r held → c.Quiet p → c.Fits r' held := by
    intro c
    induction c with
    | skip => exact fun _ _ _ => trivial
    | act w =>
      intro held hc hq
      show r'.allows w held
      rw [hallows w hq]
      exact hc
    | seq c d ihc ihd => exact fun held hc hq => ⟨ihc held hc.1 hq.1, ihd held hc.2 hq.2⟩
    | choice c d ihc ihd => exact fun held hc hq => ⟨ihc held hc.1 hq.1, ihd held hc.2 hq.2⟩
    | loop c ih => exact ih
    | locked m c ih =>
      rintro held ⟨hm, hnest, hc⟩ hq
      refine ⟨hm, ?_, ih _ hc hq⟩
      rw [hnests]
      exact hnest
  induction tasks generalizing held with
  | nil => exact hfits
  | cons task rest ih =>
    cases task with
    | run c => exact ⟨hcode c held hfits.1 h.1, ih hfits.2 h.2⟩
    | release m =>
      obtain ⟨held', rfl, hm, hfits⟩ := hfits
      exact ⟨held', rfl, hm, ih hfits h⟩

variable [DecidableEq T] [DecidableEq M]

theorem Locks.Moves.quiet (hmove : s.Moves t s' w) (h : QuietTasks p (s.tasks t)) :
    QuietTasks p (s'.tasks t) ∧ ∀ a ∈ w, ¬ p a := by
  cases hmove with
  | go htasks hgoes =>
    rw [htasks] at h
    rw [tasks_setTasks_self]
    exact hgoes.quiet h
  | acquire htasks _ =>
    rw [htasks] at h
    rw [tasks_setOwner, tasks_setTasks_self]
    exact ⟨h, nofun⟩
  | release htasks =>
    rw [htasks] at h
    rw [tasks_setOwner, tasks_setTasks_self]
    exact ⟨h, nofun⟩

/-- **What is done once is not done again.** -/
theorem Locks.Moves.once (hmove : s.Moves t s' w) (h : ∀ u, OnceTasks p (s.tasks u)) :
    (∀ u, OnceTasks p (s'.tasks u)) ∧ ∀ a ∈ w, p a → QuietTasks p (s'.tasks t) := by
  have hself : OnceTasks p (s'.tasks t) ∧ ∀ a ∈ w, p a → QuietTasks p (s'.tasks t) := by
    have ht := h t
    cases hmove with
    | go htasks hgoes =>
      rw [htasks] at ht
      rw [tasks_setTasks_self]
      exact hgoes.once ht
    | acquire htasks _ =>
      rw [htasks] at ht
      rw [tasks_setOwner, tasks_setTasks_self]
      exact ⟨ht, nofun⟩
    | release htasks =>
      rw [htasks] at ht
      rw [tasks_setOwner, tasks_setTasks_self]
      exact ⟨ht, nofun⟩
  refine ⟨?_, hself.2⟩
  intro u
  by_cases hu : u = t
  · rw [hu]
    exact hself.1
  · rw [hmove.tasks_of_ne hu]
    exact h u

/-! ### A thread alone -/

/-- The threads with their mutexes as a machine. -/
def locksMachine : Machine (Locks T M W) (T × Bool) W where
  step s l := (s.step l.1 l.2).map fun r => (r.1, r.2.toList)

theorem run_locksMachine_cons {k : T × Bool} {ls : List (T × Bool)} {ws : List W}
    (h : locksMachine.run s (k :: ls) = some (s', ws)) :
    ∃ s₁ a ws', s.step k.1 k.2 = some (s₁, a) ∧ locksMachine.run s₁ ls = some (s', ws') ∧
      ws = a.toList ++ ws' := by
  obtain ⟨⟨s₁, ws₁⟩, hfirst, h⟩ := Option.bind_eq_some_iff.1 h
  obtain ⟨⟨s₂, ws₂⟩, hrest, heq⟩ := Option.bind_eq_some_iff.1 h
  obtain ⟨⟨s₁', a⟩, hstep, hpair⟩ := Option.map_eq_some_iff.1 hfirst
  cases hpair
  cases heq
  exact ⟨s₁', a, ws₂, hstep, hrest, rfl⟩

/-- The acts on the way that takes the first of each choice and no turn of a loop. -/
def Code.straight : Code M W → List W
  | .skip => []
  | .act w => [w]
  | .seq c d => c.straight ++ d.straight
  | .choice c _ => c.straight
  | .loop _ => []
  | .locked _ c => c.straight

/-- Steps of one thread lead from one state to another one, with these acts. -/
def Alone (t : T) (s s' : Locks T M W) (ws : List W) : Prop :=
  ∃ ls, (∀ l ∈ ls, l.1 = t) ∧ locksMachine.run s ls = some (s', ws)

variable {s'' : Locks T M W} {ws ws' : List W} {way : Bool}

theorem Alone.step (h : s.step t way = some (s', w)) : Alone t s s' w.toList := by
  refine ⟨[(t, way)], by simp, Machine.run_singleton ?_⟩
  show (s.step t way).map _ = _
  rw [h]
  rfl

theorem Alone.trans (h : Alone t s s' ws) (h' : Alone t s' s'' ws') :
    Alone t s s'' (ws ++ ws') := by
  obtain ⟨ls, hls, hrun⟩ := h
  obtain ⟨ls', hls', hrun'⟩ := h'
  refine ⟨ls ++ ls', ?_, Machine.run_append hrun hrun'⟩
  intro l hl
  exact (List.mem_append.1 hl).elim (hls l) (hls' l)

/-- **A thread that finds every mutex free gets to the end of its code.** -/
theorem alone_straight {held : List M} (htasks : s.tasks t = .run c :: rest)
    (hfits : c.Fits r held) (hfree : ∀ m, s.owner m = none ∨ m ∈ held) :
    Alone t s (s.setTasks t rest) c.straight := by
  induction c generalizing s rest held with
  | skip =>
    have hstep : s.step t true = some (s.setTasks t rest, none) := by rw [Locks.step, htasks]
    exact Alone.step hstep
  | act w =>
    have hstep : s.step t true = some (s.setTasks t rest, some w) := by rw [Locks.step, htasks]
    exact Alone.step hstep
  | seq c d ihc ihd =>
    have hstep : s.step t true = some (s.setTasks t (.run c :: .run d :: rest), none) := by
      rw [Locks.step, htasks]
    have hc := ihc (Locks.tasks_setTasks_self (.run c :: .run d :: rest)) hfits.1 hfree
    rw [Locks.setTasks_setTasks] at hc
    have hd := ihd (Locks.tasks_setTasks_self (.run d :: rest)) hfits.2 hfree
    rw [Locks.setTasks_setTasks] at hd
    exact (Alone.step hstep).trans (hc.trans hd)
  | choice c d ihc _ =>
    have hstep : s.step t true = some (s.setTasks t (.run c :: rest), none) := by
      rw [Locks.step, htasks]
      rfl
    have hc := ihc (Locks.tasks_setTasks_self (.run c :: rest)) hfits.1 hfree
    rw [Locks.setTasks_setTasks] at hc
    exact (Alone.step hstep).trans hc
  | loop c _ =>
    have hstep : s.step t false = some (s.setTasks t rest, none) := by
      rw [Locks.step, htasks]
      rfl
    exact Alone.step hstep
  | locked m c ih =>
    obtain ⟨hm, -, hc⟩ := hfits
    have howner : s.owner m = none := (hfree m).resolve_right hm
    have hacquire : s.step t true = some
        ((s.setTasks t (.run c :: .release m :: rest)).setOwner m (some t), none) := by
      rw [Locks.step, htasks]
      exact if_pos howner
    have hinner := ih (s := (s.setTasks t (.run c :: .release m :: rest)).setOwner m (some t))
      (Locks.tasks_setTasks_self _) hc ?_
    · have hrelease : (((s.setTasks t (.run c :: .release m :: rest)).setOwner m
          (some t)).setTasks t (.release m :: rest)).step t true =
            some (s.setTasks t rest, none) := by
        rw [Locks.step, Locks.tasks_setTasks_self]
        simp only [Locks.setTasks, Locks.setOwner, Function.update_idem, Option.some.injEq,
          Prod.mk.injEq, and_true, Locks.mk.injEq, true_and]
        rw [← howner, Function.update_eq_self]
      have hall := (Alone.step hacquire).trans (hinner.trans (Alone.step hrelease))
      rwa [Option.toList_none, List.nil_append, List.append_nil] at hall
    · intro k
      show Function.update s.owner m (some t) k = none ∨ k ∈ m :: held
      by_cases hk : k = m
      · exact .inr (hk ▸ List.mem_cons_self)
      · rw [Function.update_of_ne hk]
        exact (hfree k).imp_right (List.mem_cons_of_mem m)

/-! ### What a step of a thread reads and writes -/

namespace Locks

/-- What a thread has to do, and who holds a mutex. -/
def Value (T M W : Type) : T ⊕ M → Type
  | .inl _ => List (Task M W)
  | .inr _ => Option T

variable {T M W : Type} {s s₂ : Locks T M W} {t u : T} {m : M} {way : Bool}

/-- The value at a place. -/
def value : (p : T ⊕ M) → Locks T M W → Value T M W p
  | .inl t, s => s.tasks t
  | .inr m, s => s.owner m

/-- The thread is about to acquire the mutex. -/
def Acquires (s : Locks T M W) (t : T) (m : M) : Prop :=
  ∃ c rest, s.tasks t = .run (.locked m c) :: rest

/-- The thread is about to release the mutex. -/
def Releases (s : Locks T M W) (t : T) (m : M) : Prop := ∃ rest, s.tasks t = .release m :: rest

theorem Sound.owner_of_releases {rules : T → Rules M W} (h : s.Sound rules)
    (hm : s.Releases t m) : s.owner m = some t := by
  obtain ⟨rest, htasks⟩ := hm
  obtain ⟨held, hholds, hfits⟩ := h t
  rw [htasks] at hfits
  obtain ⟨held', rfl, -, -⟩ := hfits
  exact (hholds m).2 List.mem_cons_self

/-- A thread looks at a mutex to acquire it. -/
def reads (s : Locks T M W) (t : T) : Set (T ⊕ M) :=
  { p | p = .inl t ∨ ∃ m, s.Acquires t m ∧ p = .inr m }

def writes (s : Locks T M W) (t : T) : Set (T ⊕ M) :=
  { p | p = .inl t ∨ ∃ m, (s.Acquires t m ∨ s.Releases t m) ∧ p = .inr m }

variable [DecidableEq T] [DecidableEq M]

/-- A thread acquires a mutex only if it is free. -/
theorem owner_of_acquires {r : Locks T M W × Option W} (h : s.step t way = some r)
    (hm : s.Acquires t m) : s.owner m = none := by
  obtain ⟨c, rest, htasks⟩ := hm
  rw [step, htasks] at h
  dsimp only at h
  split_ifs at h with hfree
  exact hfree

omit [DecidableEq M] in
theorem value_setTasks (tasks : List (Task M W)) {p : T ⊕ M} :
    (p = .inl t → value p (s₂.setTasks t tasks) = value p (s.setTasks t tasks)) ∧
      (p ≠ .inl t → value p (s₂.setTasks t tasks) = value p s₂) := by
  constructor
  · rintro rfl
    show (s₂.setTasks t tasks).tasks t = (s.setTasks t tasks).tasks t
    rw [tasks_setTasks_self, tasks_setTasks_self]
  · intro hp
    cases p with
    | inl u => exact tasks_setTasks_of_ne _ fun hu => hp (hu ▸ rfl)
    | inr m => rfl

theorem value_setOwner (tasks : List (Task M W)) (v : Option T) {p : T ⊕ M} :
    (p = .inl t ∨ p = .inr m → value p ((s₂.setTasks t tasks).setOwner m v) =
      value p ((s.setTasks t tasks).setOwner m v)) ∧
    (¬ (p = .inl t ∨ p = .inr m) → value p ((s₂.setTasks t tasks).setOwner m v) =
      value p s₂) := by
  constructor
  · rintro (rfl | rfl)
    · exact (value_setTasks tasks).1 rfl
    · show Function.update s₂.owner m v m = Function.update s.owner m v m
      rw [Function.update_self, Function.update_self]
  · intro hp
    cases p with
    | inl u => exact (value_setTasks (s := s) tasks).2 fun hu => hp (.inl hu)
    | inr k => exact Function.update_of_ne (fun hk : k = m => hp (.inr (hk ▸ rfl))) ..

/-- What the steps of the threads read and write. -/
def footprint : Footprint (locksMachine : Machine (Locks T M W) (T × Bool) W) (Value T M W) where
  value := value
  ext s t h := by
    obtain ⟨tasks, owner⟩ := s
    obtain ⟨tasks₂, owner₂⟩ := t
    obtain rfl : tasks = tasks₂ := funext fun u => h (.inl u)
    obtain rfl : owner = owner₂ := funext fun m => h (.inr m)
    rfl
  reads s l := s.reads l.1
  writes s l := s.writes l.1
  spec s s₂ l h := by
    obtain ⟨t, way⟩ := l
    have htasks : s₂.tasks t = s.tasks t := h (.inl t) (.inl rfl)
    show Machine.Mirrors _ ((s.step t way).map _) ((s₂.step t way).map _)
    unfold step
    rw [htasks]
    cases hs : s.tasks t with
    | nil => exact .none
    | cons task rest =>
      -- what changes is what the thread has to do, but for mutexes
      have hplain : (∀ m, ¬ s.Acquires t m ∧ ¬ s.Releases t m) →
          ∀ tasks p, (p ∈ s.writes t → value p (s₂.setTasks t tasks) =
            value p (s.setTasks t tasks)) ∧
          (p ∉ s.writes t → value p (s₂.setTasks t tasks) = value p s₂) := by
        intro hno tasks p
        have hiff : p ∈ s.writes t ↔ p = .inl t :=
          or_iff_left fun ⟨m, hm, _⟩ => hm.elim (hno m).1 (hno m).2
        rw [hiff]
        exact value_setTasks tasks
      have howner : ∀ {m : M}, (s.Acquires t m ∨ s.Releases t m) →
          (∀ k, s.Acquires t k ∨ s.Releases t k → k = m) → ∀ tasks v p,
          (p ∈ s.writes t → value p ((s₂.setTasks t tasks).setOwner m v) =
            value p ((s.setTasks t tasks).setOwner m v)) ∧
          (p ∉ s.writes t → value p ((s₂.setTasks t tasks).setOwner m v) = value p s₂) := by
        intro m hm honly tasks v p
        have hiff : p ∈ s.writes t ↔ p = .inl t ∨ p = .inr m := by
          refine or_congr_right ⟨?_, fun hp => ⟨m, hm, hp⟩⟩
          rintro ⟨k, hk, rfl⟩
          rw [honly k hk]
        rw [hiff]
        exact value_setOwner tasks v
      cases task with
      | release m =>
        have hm : s.Releases t m := ⟨rest, hs⟩
        refine .some ⟨howner (.inr hm) ?_ rest none, rfl⟩
        rintro k (⟨c, rest', hk⟩ | ⟨rest', hk⟩) <;> rw [hs] at hk <;> cases hk
        rfl
      | run c =>
        cases c with
        | locked m c =>
          have hm : s.Acquires t m := ⟨c, rest, hs⟩
          have hsame : s₂.owner m = s.owner m := h (.inr m) (.inr ⟨m, hm, rfl⟩)
          dsimp only
          rw [hsame]
          split_ifs with hfree
          · refine .some ⟨howner (.inl hm) ?_ _ (some t), rfl⟩
            rintro k (⟨c, rest', hk⟩ | ⟨rest', hk⟩) <;> rw [hs] at hk <;> cases hk
            rfl
          · exact .none
        | skip | act _ | seq _ _ | choice _ _ | loop _ =>
          refine .some ⟨hplain ?_ _, rfl⟩
          intro m
          constructor
          · rintro ⟨c, rest', hk⟩
            rw [hs] at hk
            cases hk
          · rintro ⟨rest', hk⟩
            rw [hs] at hk
            cases hk

end Locks

end SdrProxy
