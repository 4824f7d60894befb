import SdrProxy.Process

/-!
# The order of steps

What one thread does next and what another one does next can be done in either order, to the same
state and with the same events, with two exceptions: they are about to acquire the same mutex, or
they touch `chan_info_g` at once.

* `Process.footprint` : what a step of a thread reads and writes;
* `diamond` : the two orders lead to the same state.
-/

namespace SdrProxy

open Sections

/-- What the state consists of. -/
inductive Spot where
  | core (x : Place)
  | locks (x : Thread ⊕ Mutex)
  | plan (t : Thread)
  | seen (t : Thread)
  | ended

namespace Process

/-- What is at a spot. -/
def Value : Spot → Type
  | .core x => x.Value
  | .locks x => Locks.Value Thread Mutex Deed x
  | .plan _ => Option Label
  | .seen _ => Option Seen
  | .ended => Bool

/-- The value at a spot. -/
def value : (x : Spot) → Process → Value x
  | .core x, p => x.value p.core
  | .locks x, p => Locks.value x p.locks
  | .plan t, p => p.plan t
  | .seen t, p => p.seen t
  | .ended, p => p.ended

/-- What a step of the thread changes, in the state without mutexes. -/
def coreWrites (p : Process) (t : Thread) : Set Place :=
  { y | p.Next t .effect ∧
    ∃ l ∈ p.plan t, p.pauses t l = false ∧ y ∈ (p.core.withSeen (p.view t l)).writes l }

/-- What a step depends on.  A thread that takes its step depends on what the step reads, now or
before, and the main thread on whether it has to wait. -/
def reads (p : Process) : ProcessLabel → Set Spot
  | .start l => { x | x = .ended ∨ x = .core .exited ∨ x = .core l.thread.place ∨
      x = .locks (.inl l.thread) }
  | .go t _ => { x | x = .ended ∨ x = .core .exited ∨ (∃ y ∈ p.locks.reads t, x = .locks y) ∨
      (p.Next t .effect ∧ (x = .plan t ∨ x = .seen t ∨ (t = .main ∧ x = .core .mainThread) ∨
        (t = .main ∧ p.core.mainPc = .join ∧ x = .locks (.inl .server)) ∨
        ∃ l ∈ p.plan t, ∃ y ∈ p.core.reads l, x = .core y)) }

/-- What a step may change. -/
def writes (p : Process) : ProcessLabel → Set Spot
  | .start l => { x | x = .locks (.inl l.thread) ∨ x = .plan l.thread }
  | .go t _ => { x | (∃ y ∈ p.locks.writes t, x = .locks y) ∨ (p.Next t .exit ∧ x = .ended) ∨
      (p.Next t .effect ∧ x = .seen t) ∨ ∃ y ∈ p.coreWrites t, x = .core y }

theorem ext_value {p q : Process} (h : ∀ x, value x p = value x q) : p = q := by
  obtain ⟨core, locks, plan, seen, ended⟩ := p
  obtain ⟨core₂, locks₂, plan₂, seen₂, ended₂⟩ := q
  obtain rfl : core = core₂ := Core.ext_value fun x => h (.core x)
  obtain rfl : locks = locks₂ := Locks.footprint.ext _ _ fun x => h (.locks x)
  obtain rfl : plan = plan₂ := funext fun t => h (.plan t)
  obtain rfl : seen = seen₂ := funext fun t => h (.seen t)
  obtain rfl : ended = ended₂ := h .ended
  rfl

variable {p q : Process} {l : Label} {t : Thread} {way : Bool}

/-- The same values where the step from `p` writes, and where it does not the values before it. -/
def Like (p q : Process) (k : ProcessLabel) (p' q' : Process) : Prop :=
  ∀ x, (x ∈ p.writes k → value x q' = value x p') ∧ (x ∉ p.writes k → value x q' = value x q)

theorem like_start (h : ∀ x ∈ p.reads (.start l), value x q = value x p) :
    Machine.Mirrors (Like p q (.start l)) (p.start l) (q.start l) := by
  have htasks : q.locks.tasks l.thread = p.locks.tasks l.thread :=
    h (.locks (.inl l.thread)) (.inr (.inr (.inr rfl)))
  have hown : l.thread.place.value q.core = l.thread.place.value p.core :=
    h (.core l.thread.place) (.inr (.inr (.inl rfl)))
  have hcode : q.core.code l = p.core.code l := by
    cases l with
    | main mem => exact congrArg (fun v : MainPc × Bool => some v.1.code) hown
    | client io => exact congrArg (fun c : ClientThread => some c.code) hown
    | server io =>
      exact congrArg (fun v : Option ServerThread => v.bind (ServerThread.code io)) hown
  unfold start
  rw [htasks, hcode]
  cases p.locks.tasks l.thread with
  | cons task rest => exact .none
  | nil =>
    cases p.core.code l with
    | none => exact .none
    | some c =>
      refine .some ⟨?_, rfl⟩
      intro x
      cases x with
      | core y => exact ⟨by simp [writes], fun _ => rfl⟩
      | seen u => exact ⟨by simp [writes], fun _ => rfl⟩
      | ended => exact ⟨by simp [writes], fun _ => rfl⟩
      | locks y =>
        have hiff : Spot.locks y ∈ p.writes (.start l) ↔ y = .inl l.thread := by simp [writes]
        rw [hiff]
        exact Locks.value_setTasks _
      | plan u =>
        have hiff : Spot.plan u ∈ p.writes (.start l) ↔ u = l.thread := by simp [writes]
        rw [hiff]
        constructor
        · rintro rfl
          show Function.update q.plan _ _ _ = Function.update p.plan _ _ _
          rw [Function.update_self, Function.update_self]
        · exact fun hu => Function.update_of_ne hu ..

/-- What a thread does with its mutexes, by what it reads. -/
theorem locks_of_reads (h : ∀ y ∈ p.locks.reads t, Locks.value y q.locks = Locks.value y p.locks)
    (way : Bool) : (p.locks.step t way = none ∧ q.locks.step t way = none) ∨
    ∃ p' q' d, p.locks.step t way = some (p', d) ∧ q.locks.step t way = some (q', d) ∧
      ∀ y, (y ∈ p.locks.writes t → Locks.value y q' = Locks.value y p') ∧
        (y ∉ p.locks.writes t → Locks.value y q' = Locks.value y q.locks) := by
  have hspec := Locks.footprint.spec p.locks q.locks (t, way) h
  change Machine.Mirrors _ ((p.locks.step t way).map _) ((q.locks.step t way).map _) at hspec
  cases hp : p.locks.step t way with
  | none =>
    cases hq : q.locks.step t way with
    | none => exact .inl ⟨rfl, rfl⟩
    | some r => rw [hp, hq] at hspec; cases hspec
  | some r =>
    obtain ⟨p', d⟩ := r
    cases hq : q.locks.step t way with
    | none => rw [hp, hq] at hspec; cases hspec
    | some r' =>
      obtain ⟨q', d'⟩ := r'
      rw [hp, hq] at hspec
      cases hspec with
      | some hsame =>
        obtain ⟨hval, hd⟩ := hsame
        obtain rfl : d = d' := by
          cases d <;> cases d' <;> simp_all
        exact .inr ⟨p', q', d, rfl, rfl, hval⟩

/-- What a step of a thread with its mutexes did was what it had to do next. -/
theorem next_iff {d : Option Deed} {e : Deed} {locks' : Locks Thread Mutex Deed}
    (h : p.locks.step t way = some (locks', d)) : p.Next t e ↔ d = some e := by
  constructor
  · rintro ⟨rest, htasks⟩
    rw [Locks.step_act htasks] at h
    cases h
    rfl
  · rintro rfl
    exact (Locks.moves_of_step h).tasks_of_act

theorem like_of_parts {p' q' : Process}
    (hcore : ∀ y, (y ∈ p.coreWrites t → y.value q'.core = y.value p'.core) ∧
      (y ∉ p.coreWrites t → y.value q'.core = y.value q.core))
    (hlocks : ∀ y, (y ∈ p.locks.writes t → Locks.value y q'.locks = Locks.value y p'.locks) ∧
      (y ∉ p.locks.writes t → Locks.value y q'.locks = Locks.value y q.locks))
    (hplan : q'.plan = q.plan)
    (hseen : ∀ u, (p.Next t .effect ∧ u = t → q'.seen u = p'.seen u) ∧
      (¬ (p.Next t .effect ∧ u = t) → q'.seen u = q.seen u))
    (hended : (p.Next t .exit → q'.ended = p'.ended) ∧ (¬ p.Next t .exit → q'.ended = q.ended)) :
    Like p q (.go t way) p' q' := by
  intro x
  cases x with
  | core y =>
    have hiff : Spot.core y ∈ p.writes (.go t way) ↔ y ∈ p.coreWrites t := by simp [writes]
    rw [hiff]
    exact hcore y
  | locks y =>
    have hiff : Spot.locks y ∈ p.writes (.go t way) ↔ y ∈ p.locks.writes t := by
      refine ⟨?_, fun hy => .inl ⟨y, hy, rfl⟩⟩
      rintro (⟨y', hy, heq⟩ | ⟨-, heq⟩ | ⟨-, heq⟩ | ⟨z, -, heq⟩) <;> cases heq
      exact hy
    rw [hiff]
    exact hlocks y
  | plan u => exact ⟨by simp [writes], fun _ => congrFun hplan u⟩
  | seen u =>
    have hiff : Spot.seen u ∈ p.writes (.go t way) ↔ p.Next t .effect ∧ u = t := by simp [writes]
    rw [hiff]
    exact hseen u
  | ended =>
    have hiff : Spot.ended ∈ p.writes (.go t way) ↔ p.Next t .exit := by simp [writes]
    rw [hiff]
    exact hended

theorem joins_of_reads (hnext : p.Next t .effect)
    (h : ∀ x ∈ p.reads (.go t way), value x q = value x p) : q.joins t = p.joins t := by
  unfold joins
  by_cases ht : t = .main
  · obtain ⟨hpc, -⟩ : q.core.mainPc = p.core.mainPc ∧ _ := Prod.mk.inj
      (h (.core .mainThread) (.inr (.inr (.inr ⟨hnext, .inr (.inr (.inl ⟨ht, rfl⟩))⟩))))
    rw [hpc]
    by_cases hjoin : p.core.mainPc = .join
    · have hserver : q.locks.tasks .server = p.locks.tasks .server :=
        h (.locks (.inl .server))
          (.inr (.inr (.inr ⟨hnext, .inr (.inr (.inr (.inl ⟨ht, hjoin, rfl⟩)))⟩)))
      rw [hserver]
    · simp [hjoin]
  · simp [ht]

theorem view_of_reads (hseen : q.seen t = p.seen t)
    (h : ∀ y ∈ p.core.reads l, y.value q.core = y.value p.core) :
    q.core.look l = p.core.look l ∧ q.pauses t l = p.pauses t l ∧ q.view t l = p.view t l := by
  have htouches : q.core.touches l = p.core.touches l :=
    Core.touches_of_own (h _ (.inr (.inl rfl)))
  have hlook : q.core.look l = p.core.look l :=
    Core.look_congr htouches fun x hx _ => h _ (.inr (.inr (.inr (.inr ⟨x, hx, rfl⟩))))
  refine ⟨hlook, ?_, ?_⟩
  · rw [pauses, pauses, hseen, Core.looks, Core.looks, htouches]
  · rw [view, view, hseen, hlook]

/-- What a thread about to take its step has to do is not changed by what it reads first. -/
theorem locks_of_next {d : Deed} (hnext : p.Next t d)
    (h : ∀ y ∈ p.locks.reads t, Locks.value y q.locks = Locks.value y p.locks)
    (y : Thread ⊕ Mutex) : (y ∈ p.locks.writes t →
      Locks.value y q.locks = Locks.value y p.locks) ∧
        (y ∉ p.locks.writes t → Locks.value y q.locks = Locks.value y q.locks) := by
  refine ⟨?_, fun _ => rfl⟩
  obtain ⟨rest, htasks⟩ := hnext
  rintro (rfl | ⟨m, ⟨c, rest', hacquires⟩ | ⟨rest', hreleases⟩, rfl⟩)
  · exact h _ (.inl rfl)
  · rw [htasks] at hacquires
    cases hacquires
  · rw [htasks] at hreleases
    cases hreleases

theorem like_effect (h : ∀ x ∈ p.reads (.go t way), value x q = value x p)
    {p' q' : Locks Thread Mutex Deed} (hp : p.locks.step t way = some (p', some .effect))
    (hq : q.locks.step t way = some (q', some .effect))
    (hval : ∀ y, (y ∈ p.locks.writes t → Locks.value y q' = Locks.value y p') ∧
      (y ∉ p.locks.writes t → Locks.value y q' = Locks.value y q.locks)) :
    Machine.Mirrors (Like p q (.go t way)) (p.go t way) (q.go t way) := by
  have hno : ¬ p.Next t .exit := by simp [next_iff hp]
  have heffect : p.Next t .effect := by simp [next_iff hp]
  have hplan : q.plan t = p.plan t := h (.plan t) (.inr (.inr (.inr ⟨heffect, .inl rfl⟩)))
  have hseen : q.seen t = p.seen t := h (.seen t) (.inr (.inr (.inr ⟨heffect, .inr (.inl rfl)⟩)))
  -- what the thread reads is noted for it alone
  have hnoted : ∀ (v : Option Seen) (u : Thread), (p.Next t .effect ∧ u = t →
      Function.update q.seen t v u = Function.update p.seen t v u) ∧
        (¬ (p.Next t .effect ∧ u = t) → Function.update q.seen t v u = q.seen u) := by
    intro v u
    constructor
    · rintro ⟨-, rfl⟩
      rw [Function.update_self, Function.update_self]
    · intro hu
      exact Function.update_of_ne (fun heq => hu ⟨heffect, heq⟩) ..
  unfold go
  rw [hp, hq]
  dsimp only
  rw [joins_of_reads heffect h, hplan]
  split_ifs
  · exact .none
  · cases hl : p.plan t with
    | none => exact .none
    | some l =>
      have hreads : ∀ y ∈ p.core.reads l, y.value q.core = y.value p.core := fun y hy =>
        h (.core y) (.inr (.inr (.inr ⟨heffect, .inr (.inr (.inr (.inr ⟨l, hl, y, hy, rfl⟩)))⟩)))
      obtain ⟨hlook, hpauses, hview⟩ := view_of_reads hseen hreads
      have hwrites : ∀ y, y ∈ p.coreWrites t ↔
          p.pauses t l = false ∧ y ∈ (p.core.withSeen (p.view t l)).writes l := by
        intro y
        show (p.Next t .effect ∧ ∃ k ∈ p.plan t, _) ↔ _
        rw [hl]
        simp [heffect]
      rw [Option.bind_some, Option.bind_some]
      unfold act
      rw [hpauses, hlook, hview]
      cases hpause : p.pauses t l with
      | true =>
        refine .some ⟨like_of_parts ?_ ?_ rfl (hnoted _) ⟨fun hy => absurd hy hno, fun _ => rfl⟩,
          rfl⟩
        · intro y
          rw [hwrites, hpause]
          exact ⟨fun hy => absurd hy.1 (by simp), fun _ => rfl⟩
        · exact locks_of_next heffect fun y hy => h (.locks y) (.inr (.inr (.inl ⟨y, hy, rfl⟩)))
      | false =>
        have hspec := Core.like_finish hreads (p.view t l)
        simp only [Bool.false_eq_true, if_false]
        generalize p.core.finish (p.view t l) l = r at hspec
        generalize q.core.finish (p.view t l) l = r' at hspec
        cases hspec with
        | none => exact .none
        | some hsame =>
          refine .some ⟨like_of_parts ?_ hval rfl (hnoted _)
            ⟨fun hy => absurd hy hno, fun _ => rfl⟩, hsame.2⟩
          intro y
          rw [hwrites, hpause]
          simpa using hsame.1 y

theorem like_go (h : ∀ x ∈ p.reads (.go t way), value x q = value x p) :
    Machine.Mirrors (Like p q (.go t way)) (p.go t way) (q.go t way) := by
  have hlocks : ∀ y ∈ p.locks.reads t, Locks.value y q.locks = Locks.value y p.locks :=
    fun y hy => h (.locks y) (.inr (.inr (.inl ⟨y, hy, rfl⟩)))
  rcases locks_of_reads hlocks way with ⟨hp, hq⟩ | ⟨p', q', d, hp, hq, hval⟩
  · unfold go
    rw [hp, hq]
    exact .none
  · cases d with
    | none =>
      have hno : ∀ e, ¬ p.Next t e := by simp [next_iff hp]
      unfold go
      rw [hp, hq]
      exact .some ⟨like_of_parts (fun y => ⟨fun hy => absurd hy.1 (hno _), fun _ => rfl⟩) hval rfl
        (fun u => ⟨fun hu => absurd hu.1 (hno _), fun _ => rfl⟩)
        ⟨fun hy => absurd hy (hno _), fun _ => rfl⟩, rfl⟩
    | some d =>
      cases d with
      | exit =>
        have hno : ¬ p.Next t .effect := by simp [next_iff hp]
        have hexit : p.Next t .exit := by simp [next_iff hp]
        unfold go
        rw [hp, hq]
        exact .some ⟨like_of_parts (fun y => ⟨fun hy => absurd hy.1 hno, fun _ => rfl⟩) hval rfl
          (fun u => ⟨fun hu => absurd hu.1 hno, fun _ => rfl⟩)
          ⟨fun _ => rfl, fun hy => absurd hexit hy⟩, rfl⟩
      | effect => exact like_effect h hp hq hval

/-- What the steps of the threads with their mutexes read and write. -/
def footprint : Footprint process Value where
  value := value
  ext _ _ := ext_value
  reads := reads
  writes := writes
  spec p q k h := by
    have hlive : q.halted = p.halted := by
      have hended : Spot.ended ∈ p.reads k := by cases k <;> exact .inl rfl
      have hexited : Spot.core .exited ∈ p.reads k := by cases k <;> exact .inr (.inl rfl)
      show (q.ended || q.core.exited.isSome) = (p.ended || p.core.exited.isSome)
      rw [show q.ended = p.ended from h _ hended,
        show q.core.exited = p.core.exited from h _ hexited]
    show Machine.Mirrors (Like p q k) (p.step k) (q.step k)
    unfold step
    rw [hlive]
    split_ifs
    · exact .none
    · cases k with
      | start l => exact like_start h
      | go t way => exact like_go h

/-! ### Steps that are apart -/

/-- What a thread depends on. -/
def Looks (p : Process) (t : Thread) (x : Spot) : Prop :=
  x = .ended ∨ x = .core .exited ∨ x = .core .clientNo ∨ x = .core t.place ∨
    x = .locks (.inl t) ∨ x = .plan t ∨ x = .seen t ∨
    (∃ m, p.locks.Acquires t m ∧ x = .locks (.inr m)) ∨
    (p.Next t .effect ∧ ((t = .main ∧ p.core.mainPc = .join ∧
      (x = .locks (.inl .server) ∨ x = .core .serverThread)) ∨
      ∃ y ∈ p.touched t, x = .core (.shared y)))

/-- What a thread may change, if it does not end the program. -/
def Changes (p : Process) (t : Thread) (x : Spot) : Prop :=
  x = .locks (.inl t) ∨ x = .plan t ∨ x = .seen t ∨
    (∃ m, (p.locks.Acquires t m ∨ p.locks.Releases t m) ∧ x = .locks (.inr m)) ∨
    (p.Next t .effect ∧ (x = .core t.place ∨
      (t = .main ∧ p.core.mainPc = .spawn ∧ x = .core .serverThread) ∨
      ∃ y ∈ p.touched t, x = .core (.shared y)))

variable {j k : ProcessLabel} {p₁ p₂ : Process} {es fs : List Event} {x : Spot} {u : Thread}

theorem Ok.looks_of_mem (h : p.Ok) (hx : x ∈ p.reads k) : p.Looks k.thread x := by
  cases k with
  | start l =>
    change p.Looks l.thread x
    rcases hx with rfl | rfl | rfl | rfl <;> simp [Looks]
  | go t way =>
    change p.Looks t x
    rcases hx with rfl | rfl | ⟨y, hy, rfl⟩ | ⟨hnext, hx⟩
    · simp [Looks]
    · simp [Looks]
    · rcases hy with rfl | ⟨m, hm, rfl⟩
      · simp [Looks]
      · simpa [Looks] using hm
    · rcases hx with rfl | rfl | ⟨rfl, rfl⟩ | ⟨rfl, hpc, rfl⟩ | ⟨l, hl, y, hy, rfl⟩
      · simp [Looks]
      · simp [Looks]
      · simp [Looks, Thread.place]
      · simp [Looks, hnext, hpc]
      · obtain rfl : l.thread = t := h.plan t l hl
        have htouched := touched_of_plan hl
        rcases hy with rfl | rfl | ⟨-, rfl⟩ | ⟨hmain, hpc, rfl⟩ | ⟨z, hz, rfl⟩
        · simp [Looks]
        · simp [Looks]
        · simp [Looks]
        · rw [hmain] at hnext
          simp [Looks, hnext, hmain, hpc]
        · simp [Looks, hnext, htouched, hz]

theorem halted_of_step {r : Process × List Event} (h : process.step p k = some r) :
    p.halted = false := by
  change p.step k = some r at h
  unfold step at h
  split_ifs at h with hlive
  simpa using hlive

theorem go_of_step {r : Process × List Event} (h : process.step p (.go t way) = some r) :
    p.go t way = some r := by
  rw [← h, step_go (halted_of_step h)]

theorem start_of_step {r : Process × List Event} (h : process.step p (.start l) = some r) :
    p.locks.tasks l.thread = [] ∧ (p.core.code l).isSome := by
  rw [← start_isSome, ← step_start (halted_of_step h), h]
  rfl

theorem locks_of_go {r : Process × List Event} (h : p.go t way = some r) :
    ∃ r', p.locks.step t way = some r' := by
  unfold go at h
  cases hlocks : p.locks.step t way with
  | none =>
    rw [hlocks] at h
    cases h
  | some r' => exact ⟨r', rfl⟩

/-- A thread that is about to end the program does. -/
theorem halted_of_exit (h : p.go t way = some (p₁, es)) (hexit : p.Next t .exit) :
    p₁.halted = true := by
  obtain ⟨rest, htasks⟩ := hexit
  unfold go at h
  rw [Locks.step_act htasks] at h
  cases h
  rfl

theorem Ok.core_of_effect (hok : p.Ok) (hlive : p.halted = false) (h : p.go t way = some (p₁, es))
    (hnext : p.Next t .effect) : p.joins t = false ∧ ∃ l, p.plan t = some l ∧
      (proxy.step p.core l).isSome ∧
        (p.pauses t l = false → proxy.step p.core l = some (p₁.core, es)) := by
  have heffect := hnext
  obtain ⟨rest, htasks⟩ := hnext
  unfold go at h
  rw [Locks.step_act htasks] at h
  dsimp only at h
  split_ifs at h with hjoins
  obtain ⟨l, hl, h⟩ := Option.bind_eq_some_iff.1 h
  refine ⟨by simpa using hjoins, l, hl, ?_⟩
  unfold act at h
  cases hpauses : p.pauses t l with
  | true =>
    refine ⟨?_, nofun⟩
    rw [pauses, Bool.and_eq_true] at hpauses
    exact hok.step_isSome_of_looks hlive heffect hl hpauses.2
  | false =>
    rw [if_neg (by simp [hpauses]), hok.finish_eq hl] at h
    obtain ⟨⟨core', es'⟩, hcore, heq⟩ := Option.map_eq_some_iff.1 h
    cases heq
    exact ⟨by rw [hcore]; rfl, fun _ => hcore⟩

theorem Ok.changes_of_mem (h : p.Ok) (hstep : process.step p j = some (p₁, es))
    (hlive : p₁.halted = false) (hx : x ∈ p.writes j) : p.Changes j.thread x := by
  cases j with
  | start l =>
    change p.Changes l.thread x
    rcases hx with rfl | rfl <;> simp [Changes]
  | go t way =>
    change p.Changes t x
    have hgo := go_of_step hstep
    rcases hx with ⟨y, hy, rfl⟩ | ⟨hexit, rfl⟩ | ⟨hnext, rfl⟩ |
      ⟨y, ⟨hnext, l, hl, hpauses, hy⟩, rfl⟩
    · rcases hy with rfl | ⟨m, hm, rfl⟩
      · simp [Changes]
      · simpa [Changes] using hm
    · rw [halted_of_exit hgo hexit] at hlive
      cases hlive
    · simp [Changes]
    · obtain ⟨-, l', hl', -, hfinish⟩ := h.core_of_effect (halted_of_step hstep) hgo hnext
      obtain rfl : l = l' := Option.some.inj (hl.symm.trans hl')
      obtain rfl : l.thread = t := h.plan t l hl
      have hcore := hfinish hpauses
      rw [h.view_eq hl, Core.withSeen_look] at hy
      have htouched := touched_of_plan hl
      have hends := Core.ends_eq_false hcore (exited_of_halted hlive)
      rcases (Core.mem_writes hends).1 hy with rfl | ⟨hmain, hpc, rfl⟩ | ⟨z, hz, rfl⟩
      · simp [Changes, hnext]
      · rw [hmain] at hnext
        simp [Changes, hnext, hmain, hpc]
      · simp [Changes, hnext, htouched, hz]

theorem owner_of_acquires {m : Mutex} (hstep : process.step p j = some (p₁, es))
    (hm : p.locks.Acquires j.thread m) : p.locks.owner m = none := by
  cases j with
  | start l =>
    obtain ⟨hnil, -⟩ := start_of_step hstep
    obtain ⟨c, rest, htasks⟩ := hm
    change p.locks.tasks l.thread = _ at htasks
    rw [hnil] at htasks
    cases htasks
  | go t way =>
    obtain ⟨r, hr⟩ := locks_of_go (go_of_step hstep)
    exact Locks.owner_of_acquires hr hm

/-- While the server thread can do something the main thread neither starts one nor has joined
one. -/
theorem Ok.main_of_server (h : p.Ok) (hj : process.step p j = some (p₁, es))
    (hk : process.step p k = some (p₂, fs)) (hserver : j.thread = .server)
    (hmain : k.thread = .main) (hnext : p.Next .main .effect) :
    p.core.mainPc ≠ .join ∧ p.core.mainPc ≠ .spawn := by
  -- the main thread is in a step, so it can take it
  have hcan : p.joins .main = false ∧ (p.core.mainPc = .join → p.core.serverEnded = true) := by
    cases k with
    | start l =>
      obtain ⟨hnil, -⟩ := start_of_step hk
      obtain ⟨rest, htasks⟩ := hnext
      change l.thread = .main at hmain
      rw [hmain, htasks] at hnil
      cases hnil
    | go t way =>
      obtain rfl : t = .main := hmain
      have hlive := halted_of_step hk
      obtain ⟨hjoins, l, hl, hcore, -⟩ := h.core_of_effect hlive (go_of_step hk) hnext
      exact ⟨hjoins, ((Core.step_isSome (exited_of_halted hlive)).1 hcore).2 (h.plan _ l hl)⟩
  have hbusy : p.core.serverEnded = false ∨ p.locks.tasks .server ≠ [] := by
    cases j with
    | start l => exact .inl (Core.code_isSome.1 (start_of_step hj).2 hserver)
    | go t way =>
      obtain rfl : t = .server := hserver
      obtain ⟨r, hr⟩ := locks_of_go (go_of_step hj)
      exact .inr (Locks.moves_of_step hr).tasks_ne_nil
  constructor
  · intro hpc
    have hended := hcan.2 hpc
    rw [hended] at hbusy
    simpa [joins, hpc, hbusy.resolve_left (by simp)] using hcan.1
  · intro hpc
    have hoff : p.core.mainPc.serverOff = true ∨ p.core.serverRunning = false :=
      .inl (by rw [hpc]; rfl)
    rcases hbusy with hended | hbusy
    · rw [h.stopped hoff] at hended
      cases hended
    · exact hbusy (h.idle hoff)

theorem Ok.not_releases (h : p.Ok) {m : Mutex} (hfree : p.locks.owner m = none) :
    ¬ p.locks.Releases t m := by
  intro hreleases
  rw [Locks.Sound.owner_of_releases h.sound hreleases] at hfree
  cases hfree

theorem Ok.apart_mutex (h : p.Ok) (hne : t ≠ u)
    (hown : ∀ m, p.locks.Acquires t m → p.locks.owner m = none)
    (hown' : ∀ m, p.locks.Acquires u m → p.locks.owner m = none)
    (hmutex : ∀ m, p.locks.Acquires t m → ¬ p.locks.Acquires u m) {m : Mutex}
    (hm : p.locks.Acquires t m ∨ p.locks.Releases t m) :
    ¬ p.locks.Acquires u m ∧ ¬ p.locks.Releases u m := by
  rcases hm with hm | hm
  · exact ⟨hmutex m hm, h.not_releases (hown m hm)⟩
  · refine ⟨fun hm' => h.not_releases (hown' m hm') hm, ?_⟩
    intro hm'
    have howner := Locks.Sound.owner_of_releases h.sound hm
    rw [Locks.Sound.owner_of_releases h.sound hm'] at howner
    exact hne (Option.some.inj howner).symm

/-- **What a thread changes another one neither looks at nor changes**, but for the mutexes that
both acquire and the shared data that both touch. -/
theorem Ok.apart (h : p.Ok) (hne : t ≠ u)
    (hmain : t = .server → u = .main → p.Next .main .effect →
      p.core.mainPc ≠ .join ∧ p.core.mainPc ≠ .spawn)
    (hserver : t = .main → u = .server → p.Next .main .effect → p.core.mainPc ≠ .spawn)
    (hown : ∀ m, p.locks.Acquires t m → p.locks.owner m = none)
    (hown' : ∀ m, p.locks.Acquires u m → p.locks.owner m = none)
    (hmutex : ∀ m, p.locks.Acquires t m → ¬ p.locks.Acquires u m)
    (hdata : ∀ y, p.About t y → ¬ p.About u y) (hx : p.Changes t x) :
    ¬ p.Looks u x ∧ ¬ p.Changes u x := by
  have hplace : t.place ≠ u.place := by
    cases t <;> cases u <;> simp [Thread.place] at hne ⊢
  rcases hx with rfl | rfl | rfl | ⟨m, hm, rfl⟩ | ⟨hnext, rfl | ⟨rfl, hpc, rfl⟩ | ⟨y, hy, rfl⟩⟩
  · simp only [Looks, Changes, Spot.locks.injEq, Sum.inl.injEq, hne, reduceCtorEq, and_false,
      exists_false, or_false, false_or, not_false_eq_true, and_true]
    rintro ⟨hnext, rfl, hpc, rfl⟩
    exact (hmain rfl rfl hnext).1 hpc
  · simp [Looks, Changes, hne]
  · simp [Looks, Changes, hne]
  · obtain ⟨hacquires, hreleases⟩ := h.apart_mutex hne hown hown' hmutex hm
    simp only [Looks, Changes, Spot.locks.injEq, Sum.inr.injEq, reduceCtorEq, and_false,
      exists_false, or_false, false_or]
    constructor
    · rintro ⟨_, hm', rfl⟩
      exact hacquires hm'
    · rintro ⟨_, hm', rfl⟩
      exact hm'.elim hacquires hreleases
  · have hserverThread : t.place = .serverThread → t = .server := by
      cases t <;> simp [Thread.place]
    have hno : t.place ≠ .exited ∧ t.place ≠ .clientNo ∧ ∀ y, t.place ≠ .shared y := by
      cases t <;> exact ⟨nofun, nofun, nofun⟩
    simp only [Looks, Changes, Spot.core.injEq, reduceCtorEq, and_false, exists_false, or_false,
      false_or, hplace, hno.1, hno.2.1, hno.2.2]
    constructor
    · rintro ⟨hnext, rfl, hpc, ht⟩
      exact (hmain (hserverThread ht) rfl hnext).1 hpc
    · rintro ⟨hnext, rfl, hpc, ht⟩
      exact (hmain (hserverThread ht) rfl hnext).2 hpc
  · have hu : .serverThread ≠ u.place := by
      intro hu
      cases u with
      | server => exact hserver rfl rfl hnext hpc
      | main | client => cases hu
    simp only [Looks, Changes, Spot.core.injEq, reduceCtorEq, and_false, exists_false, or_false,
      false_or, hu, and_true]
    exact ⟨fun hmain => hne hmain.2.1.symm, fun hmain => hne hmain.2.1.symm⟩
  · have hu : .shared y ≠ u.place := by cases u <;> nofun
    simp only [Looks, Changes, Spot.core.injEq, Place.shared.injEq, reduceCtorEq, and_false,
      exists_false, or_false, false_or, hu]
    constructor
    · rintro ⟨hnext', _, hy', rfl⟩
      exact hdata y ⟨hnext, hy⟩ ⟨hnext', hy'⟩
    · rintro ⟨hnext', _, hy', rfl⟩
      exact hdata y ⟨hnext, hy⟩ ⟨hnext', hy'⟩

/-- What one thread does next writes nothing that matters to another one. -/
theorem Ok.clear (h : p.Ok) (hne : j.thread ≠ k.thread) (hj : process.step p j = some (p₁, es))
    (hk : process.step p k = some (p₂, fs)) (hlive₁ : p₁.halted = false)
    (hlive₂ : p₂.halted = false)
    (hmutex : ∀ m, p.locks.Acquires j.thread m → ¬ p.locks.Acquires k.thread m)
    (hrace : p.About j.thread .chanInfo → ¬ p.About k.thread .chanInfo) :
    footprint.Clear p j k := by
  intro x hx
  have hdata : ∀ y, p.About j.thread y → ¬ p.About k.thread y := by
    intro y ht hu
    obtain ⟨rfl, -⟩ := h.race hne ht hu
    exact hrace ht hu
  obtain ⟨hlooks, hchanges⟩ := h.apart hne (fun ht hu => h.main_of_server hj hk ht hu)
    (fun ht hu hnext => (h.main_of_server hk hj hu ht hnext).2)
    (fun m => owner_of_acquires hj) (fun m => owner_of_acquires hk) hmutex hdata
    (h.changes_of_mem hj hlive₁ hx)
  exact ⟨fun hx => hlooks (h.looks_of_mem hx), fun hx => hchanges (h.changes_of_mem hk hlive₂ hx)⟩

end Process

/-- **Only mutexes and the one race make a difference**: in every state of every run, what two
threads do next can be done in either order, to the same state and with the same events, unless both
acquire the same mutex or both are about to touch `chan_info_g`. -/
theorem diamond (clientNo failtimer : ℤ) (mem : Memory) (ls : List ProcessLabel) :
    process.Always (fun _ _ _ p => ∀ j k p₁ p₂ es fs, j.thread ≠ k.thread →
      process.step p j = some (p₁, es) → process.step p k = some (p₂, fs) →
      p₁.halted = false → p₂.halted = false →
      (∃ m, p.locks.Acquires j.thread m ∧ p.locks.Acquires k.thread m) ∨
      (p.About j.thread .chanInfo ∧ p.About k.thread .chanInfo) ∨
      ∃ p₃, process.step p₁ k = some (p₃, fs) ∧ process.step p₂ j = some (p₃, es))
      (.init clientNo failtimer mem) ls := by
  refine Machine.always_of_inv Process.Ok (Process.ok_init _ _ _) ?_ ls
  intro p₀ l p es₀ hok₀ hstep
  have hok : p.Ok := hok₀.step hstep
  refine ⟨hok, ?_⟩
  intro j k p₁ p₂ es fs hne hj hk hlive₁ hlive₂
  by_cases hmutex : ∃ m, p.locks.Acquires j.thread m ∧ p.locks.Acquires k.thread m
  · exact .inl hmutex
  by_cases hrace : p.About j.thread .chanInfo ∧ p.About k.thread .chanInfo
  · exact .inr (.inl hrace)
  refine .inr (.inr (Process.footprint.commute ⟨?_, ?_⟩ hj hk))
  · exact hok.clear hne hj hk hlive₁ hlive₂ (fun m ht hu => hmutex ⟨m, ht, hu⟩)
      fun ht hu => hrace ⟨ht, hu⟩
  · exact hok.clear hne.symm hk hj hlive₂ hlive₁ (fun m ht hu => hmutex ⟨m, hu, ht⟩)
      fun ht hu => hrace ⟨hu, ht⟩

end SdrProxy
