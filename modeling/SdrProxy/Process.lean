import SdrProxy.Views

/-!
# The program with its mutexes

The three threads take one step for each lock, each unlock and each thing in between.  A thread that
starts a step of `proxy` goes through its code, and the step is taken where the code has its
`effect`: the thread first reads the shared data that its step touches, and later takes the step on
what it has read, whatever the other threads do in the meantime.

* `Process` : the state; `Process.step` is one step of a thread;
* `Process.Ok` : what holds of every state (`Process.Ok.step`);
* `sections_atomic` : the program with its mutexes has the runs of `proxy`, where a section reads
  and writes at once;
* `no_deadlock` : where a thread waits for a mutex, one that holds a mutex can take a step, and the
  program never stands still;
* `race_iff` : two threads come to touch the same shared data at once only where the main thread is
  about to copy the configuration for the first time and the server thread reads it, and there they
  do.
-/

namespace SdrProxy

open Sections

/-! ### Which steps there are -/

theorem Label.main_of_thread {l : Label} (h : l.thread = .main) : ∃ io, l = .main io := by
  cases l with
  | main io => exact ⟨io, rfl⟩
  | client _ | server _ => cases h

theorem Label.server_of_thread {l : Label} (h : l.thread = .server) : ∃ io, l = .server io := by
  cases l with
  | server io => exact ⟨io, rfl⟩
  | main _ | client _ => cases h

namespace Core

variable {s : Core} {l : Label}

theorem code_isSome : (s.code l).isSome ↔ (l.thread = .server → s.serverEnded = false) := by
  cases l with
  | main io | client io => exact ⟨fun _ hl => (by cases hl), fun _ => rfl⟩
  | server io =>
    dsimp only [code, Label.thread]
    unfold serverEnded
    cases s.server with
    | none => simp
    | some t =>
      dsimp only
      rw [Option.bind_some, ServerThread.code]
      cases hpc : t.pc with
      | ended => simp
      | service conn =>
        dsimp only
        split_ifs <;> simp
      | setup | flags | closing | listen _ | expire => simp

/-- A thread can take a step, unless it is a server thread that has returned, or the main thread
waits for one that has not. -/
theorem step_isSome (hexited : s.exited = none) : (proxy.step s l).isSome ↔
    (l.thread = .server → s.serverEnded = false) ∧
      (l.thread = .main → s.mainPc = .join → s.serverEnded = true) := by
  have hrunning : ¬ s.exited.isSome = true := by simp [hexited]
  change (s.step l).isSome ↔ _
  cases l with
  | client io =>
    rw [show s.step (.client io) = some (s.clientStep io) from if_neg hrunning]
    exact ⟨fun _ => ⟨fun hl => (by cases hl), fun hl => (by cases hl)⟩, fun _ => rfl⟩
  | main io =>
    rw [show s.step (.main io) = s.mainStep io from if_neg hrunning]
    dsimp only [Label.thread]
    unfold mainStep
    cases hpc : s.mainPc with
    | join =>
      cases s.serverEnded with
      | false => simp
      | true => simp
    | poll =>
      dsimp only
      split_ifs <;> simp
    | alloc =>
      dsimp only
      split_ifs <;> simp
    | copy | closeCmd | dealloc | finish | clearSrv | spawn => simp
  | server io =>
    rw [show s.step (.server io) = s.serverStep io from if_neg hrunning]
    dsimp only [Label.thread]
    unfold serverStep serverEnded
    cases s.server with
    | none => simp
    | some t =>
      dsimp only
      split_ifs with hended
      · simp [hended]
      · cases t.step io s.serverClose s.chanInfoG s.dataRing with
        | error msg => simp [hended]
        | ok r => simp [hended]

theorem ready_of_step {r : Core × List Event} (h : proxy.step s l = some r) :
    (l.thread = .server → s.serverEnded = false) ∧
      (l.thread = .main → s.mainPc = .join → s.serverEnded = true) := by
  refine (step_isSome (exited_of_step h)).1 ?_
  rw [h]
  rfl

end Core

/-- The program with its mutexes. -/
structure Process where
  /-- The program without them. -/
  core : Core
  /-- Where the threads are in the code of their steps. -/
  locks : Locks Thread Mutex Deed
  /-- The step that a thread is taking. -/
  plan : Thread → Option Label
  /-- What a thread has read for its step. -/
  seen : Thread → Option Seen
  /-- A call of `fail` has ended the program. -/
  ended : Bool

/-- What a thread does. -/
inductive ProcessLabel where
  /-- It starts a step. -/
  | start (l : Label)
  /-- It goes on in its code. -/
  | go (t : Thread) (way : Bool)

/-- The thread that does it. -/
def ProcessLabel.thread : ProcessLabel → Thread
  | start l => l.thread
  | go t _ => t

namespace Process

/-- The program when the client thread has been created. -/
def init (clientNo failtimer : ℤ) (mem : Memory) : Process where
  core := .init clientNo failtimer mem
  locks := .quiet
  plan _ := none
  seen _ := none
  ended := false

/-- The program has ended. -/
def halted (p : Process) : Bool := p.ended || p.core.exited.isSome

/-- The thread is the main thread, and waits for a server thread that is still in a step. -/
def joins (p : Process) (t : Thread) : Bool :=
  t = .main && p.core.mainPc = .join && !(p.locks.tasks .server).isEmpty

/-- A thread starts a step, if it is in none. -/
def start (l : Label) (p : Process) : Option (Process × List Event) :=
  match p.locks.tasks l.thread with
  | [] =>
    (p.core.code l).map fun c =>
      ({ p with
        locks := p.locks.setTasks l.thread [.run c]
        plan := Function.update p.plan l.thread (some l) }, [])
  | _ :: _ => none

/-- The thread still has to read what its step goes by. -/
def pauses (p : Process) (t : Thread) (l : Label) : Bool := (p.seen t).isNone && p.core.looks l

/-- What the step of a thread goes by. -/
def view (p : Process) (t : Thread) (l : Label) : Seen := (p.seen t).getD (p.core.look l)

/-- A thread takes its step: it reads, and stays where it is, or goes by what it has read. -/
def act (t : Thread) (l : Label) (locks : Locks Thread Mutex Deed) (p : Process) :
    Option (Process × List Event) :=
  if p.pauses t l then
    some ({ p with seen := Function.update p.seen t (some (p.core.look l)) }, [])
  else
    (p.core.finish (p.view t l) l).map fun (core, events) =>
      ({ p with
        core := core
        locks := locks
        seen := Function.update p.seen t none }, events)

/-- A thread goes on in its code. -/
def go (t : Thread) (way : Bool) (p : Process) : Option (Process × List Event) :=
  match p.locks.step t way with
  | none => none
  | some (locks, none) => some ({ p with locks := locks }, [])
  | some (locks, some .exit) => some ({ p with locks := locks, ended := true }, [])
  | some (locks, some .effect) =>
    if p.joins t then none
    else (p.plan t).bind fun l => p.act t l locks

/-- One step of a thread. -/
def step (p : Process) (l : ProcessLabel) : Option (Process × List Event) :=
  if p.halted then none
  else
    match l with
    | .start l => p.start l
    | .go t way => p.go t way

end Process

/-- The program with its mutexes as a machine. -/
def process : Machine Process ProcessLabel Event := ⟨Process.step⟩

namespace Process

variable {p p' : Process} {l : Label} {t : Thread} {es : List Event}
variable {locks' : Locks Thread Mutex Deed}

/-- What a step can do. -/
inductive Does (p : Process) : Process → List Event → Prop
  /-- A thread starts a step. -/
  | start {l : Label} {c : Code Mutex Deed} : p.locks.tasks l.thread = [] →
      p.core.code l = some c →
      Does p { p with
        locks := p.locks.setTasks l.thread [.run c]
        plan := Function.update p.plan l.thread (some l) } []
  /-- A thread locks, unlocks or decides something. -/
  | lock {t : Thread} {locks' : Locks Thread Mutex Deed} : p.locks.Moves t locks' none →
      Does p { p with locks := locks' } []
  /-- A thread ends the program. -/
  | exit {t : Thread} {locks' : Locks Thread Mutex Deed} : p.locks.Moves t locks' (some .exit) →
      Does p { p with locks := locks', ended := true } []
  /-- A thread reads what its step goes by. -/
  | look {t : Thread} {locks' : Locks Thread Mutex Deed} {l : Label} :
      p.locks.Moves t locks' (some .effect) → p.plan t = some l →
      Does p { p with seen := Function.update p.seen t (some (p.core.look l)) } []
  /-- A thread takes the step that it is in. -/
  | effect {t : Thread} {locks' : Locks Thread Mutex Deed} {l : Label} {core' : Core}
      {es : List Event} : p.locks.Moves t locks' (some .effect) → p.joins t = false →
      p.plan t = some l → p.core.finish (p.view t l) l = some (core', es) →
      Does p { p with
        core := core'
        locks := locks'
        seen := Function.update p.seen t none } es

/-- **What a step can do.** -/
theorem does_of_step {k : ProcessLabel} (h : process.step p k = some (p', es)) :
    p.Does p' es := by
  change p.step k = some (p', es) at h
  unfold step at h
  split_ifs at h
  cases k with
  | start l =>
    dsimp only at h
    unfold start at h
    split at h
    · rename_i htasks
      obtain ⟨c, hc, heq⟩ := Option.map_eq_some_iff.1 h
      cases heq
      exact .start htasks hc
    · cases h
  | go t way =>
    dsimp only at h
    unfold go at h
    split at h
    · cases h
    · rename_i locks' hstep
      cases h
      exact .lock (Locks.moves_of_step hstep)
    · rename_i locks' hstep
      cases h
      exact .exit (Locks.moves_of_step hstep)
    · rename_i locks' hstep
      split_ifs at h with hjoins
      obtain ⟨l, hl, h⟩ := Option.bind_eq_some_iff.1 h
      unfold act at h
      split_ifs at h
      · cases h
        exact .look (Locks.moves_of_step hstep) hl
      · obtain ⟨⟨core', es'⟩, hcore, heq⟩ := Option.map_eq_some_iff.1 h
        cases heq
        exact .effect (Locks.moves_of_step hstep) (by simpa using hjoins) hl hcore

theorem halted_eq_false_iff : p.halted = false ↔ p.ended = false ∧ p.core.exited = none := by
  rw [halted, Bool.or_eq_false_iff, Option.isSome_eq_false_iff, Option.isNone_iff_eq_none]

theorem exited_of_halted (hlive : p.halted = false) : p.core.exited = none :=
  (halted_eq_false_iff.1 hlive).2

/-! ### What holds of every state -/

/-- What the step touches that a thread is taking. -/
def touched (p : Process) (t : Thread) : List Shared := (p.plan t).elim [] p.core.touches

theorem touched_of_plan (h : p.plan t = some l) : p.touched t = p.core.touches l := by
  rw [touched, h]
  rfl

theorem mem_touched {x : Shared} :
    x ∈ p.touched t ↔ ∃ l, p.plan t = some l ∧ x ∈ p.core.touches l := by
  unfold touched
  cases p.plan t <;> simp

/-- The thread is about to do this. -/
def Next (p : Process) (t : Thread) (d : Deed) : Prop :=
  ∃ rest, p.locks.tasks t = .run (.act d) :: rest

/-- What holds of every state. -/
structure Ok (p : Process) : Prop where
  stopped : p.core.Stopped
  /-- The threads keep to their code. -/
  sound : p.locks.Sound fun t => rules t (p.touched t)
  once : ∀ t, OnceTasks (· = .effect) (p.locks.tasks t)
  plan : ∀ t l, p.plan t = some l → l.thread = t
  planned : ∀ t, p.locks.tasks t ≠ [] → (p.plan t).isSome
  /-- A server thread that has not taken its step has not returned. -/
  alive : QuietTasks (· = .effect) (p.locks.tasks .server) ∨
    ∃ t, p.core.server = some t ∧ t.pc ≠ .ended
  /-- Where the main thread has no server thread running, none is in a step. -/
  idle : p.core.mainPc.serverOff = true ∨ p.core.serverRunning = false → p.locks.tasks .server = []
  /-- What a thread has read is still there when it takes its step. -/
  fresh : ∀ t v, p.seen t = some v →
    p.Next t .effect ∧ ∃ l, p.plan t = some l ∧ v = p.core.look l

/-- The thread is about to touch the data. -/
def About (p : Process) (t : Thread) (x : Shared) : Prop := p.Next t .effect ∧ x ∈ p.touched t

/-- Data other than `chan_info_g` are touched under their mutex. -/
theorem Ok.owner_of_about (h : p.Ok) {x : Shared} (habout : p.About t x) (hx : x ≠ .chanInfo) :
    p.locks.owner x.mutex = some t := by
  obtain ⟨⟨rest, htasks⟩, hmem⟩ := habout
  obtain ⟨held, hholds, hallows⟩ := h.sound.allows htasks
  exact (hholds _).2 ((hallows rfl).1 x hmem hx)

theorem locks_init (clientNo failtimer : ℤ) (mem : Memory) :
    (init clientNo failtimer mem).locks = .quiet := rfl

theorem ok_init (clientNo failtimer : ℤ) (mem : Memory) : (init clientNo failtimer mem).Ok where
  stopped := Core.stopped_init clientNo failtimer mem
  sound := by
    rw [locks_init]
    exact Locks.Sound.quiet
  once _ := trivial
  plan _ _ h := absurd h.symm (Option.some_ne_none _)
  planned _ h := absurd rfl h
  alive := .inl trivial
  idle _ := rfl
  fresh _ _ h := absurd h.symm (Option.some_ne_none _)

theorem alive_of_code {s : Core} {io : ServerIO} {c : Code Mutex Deed}
    (h : s.code (.server io) = some c) : ∃ t, s.server = some t ∧ t.pc ≠ .ended := by
  obtain ⟨t, ht, hcode⟩ := Option.bind_eq_some_iff.1 h
  refine ⟨t, ht, ?_⟩
  intro hended
  rw [ServerThread.code, hended] at hcode
  cases hcode

theorem forall_started {c : Code Mutex Deed}
    {P : Thread → List (Task Mutex Deed) → Option Label → Prop}
    (hself : P l.thread [.run c] (some l))
    (hother : ∀ u, u ≠ l.thread → P u (p.locks.tasks u) (p.plan u)) (u : Thread) :
    P u ((p.locks.setTasks l.thread [.run c]).tasks u)
      (Function.update p.plan l.thread (some l) u) := by
  by_cases hu : u = l.thread
  · subst hu
    rw [Locks.tasks_setTasks_self, Function.update_self]
    exact hself
  · rw [Locks.tasks_setTasks_of_ne _ hu, Function.update_of_ne hu]
    exact hother u hu

theorem Ok.start (h : p.Ok) {c : Code Mutex Deed} (htasks : p.locks.tasks l.thread = [])
    (hcode : p.core.code l = some c) : Ok { p with
      locks := p.locks.setTasks l.thread [.run c]
      plan := Function.update p.plan l.thread (some l) } := by
  have halive : l.thread = .server → ∃ t, p.core.server = some t ∧ t.pc ≠ .ended := by
    intro hl
    obtain ⟨io, rfl⟩ := Label.server_of_thread hl
    exact alive_of_code hcode
  refine ⟨h.stopped, ?_, ?_, ?_, ?_, ?_, ?_, ?_⟩
  · refine Locks.Sound.start (h.sound.of_rules ?_) htasks ?_
    · intro u held hfits
      by_cases hu : u = l.thread
      · rw [hu, htasks] at hfits ⊢
        exact hfits
      · show FitTasks (rules u ((Function.update p.plan l.thread (some l) u).elim [] _)) _ held
        rwa [Function.update_of_ne hu]
    · show c.Fits (rules _ ((Function.update p.plan l.thread (some l) l.thread).elim [] _)) []
      rw [Function.update_self]
      exact Core.fits_code hcode
  · refine forall_started (P := fun _ tasks _ => OnceTasks (· = .effect) tasks) ?_ ?_
    · exact ⟨(Core.single_code hcode).once, trivial, .inr trivial⟩
    · exact fun u _ => h.once u
  · refine forall_started (c := c) (P := fun u _ k => ∀ l', k = some l' → l'.thread = u) ?_ ?_
    · rintro _ ⟨⟩
      rfl
    · exact fun u _ => h.plan u
  · refine forall_started (P := fun _ tasks k => tasks ≠ [] → k.isSome) ?_ ?_
    · exact fun _ => rfl
    · exact fun u _ => h.planned u
  · refine forall_started (P := fun u tasks _ => u = .server →
      QuietTasks (· = .effect) tasks ∨ ∃ t, p.core.server = some t ∧ t.pc ≠ .ended) ?_ ?_ _ rfl
    · exact fun hl => .inr (halive hl)
    · rintro _ - rfl
      exact h.alive
  · intro hoff
    refine forall_started (P := fun u tasks _ => u = .server → tasks = []) ?_ ?_ _ rfl
    · intro hl
      obtain ⟨t, ht, hpc⟩ := halive hl
      exact absurd hoff (h.stopped.not_off ht hpc)
    · rintro _ - rfl
      exact h.idle hoff
  · refine forall_started (P := fun u tasks k => ∀ v, p.seen u = some v →
      (∃ rest, tasks = .run effect :: rest) ∧ ∃ l', k = some l' ∧ v = p.core.look l') ?_ ?_
    · intro v hv
      obtain ⟨⟨rest, hrest⟩, -⟩ := h.fresh _ v hv
      rw [htasks] at hrest
      cases hrest
    · exact fun u _ => h.fresh u

theorem tasks_of_moves {d : Option Deed} (hmove : p.locks.Moves t locks' d) {u : Thread}
    (h : p.locks.tasks u = []) : locks'.tasks u = [] := by
  have hu : u ≠ t := by
    rintro rfl
    exact hmove.tasks_ne_nil h
  rw [hmove.tasks_of_ne hu]
  exact h

/-- A thread that has read goes on to take its step. -/
theorem Ok.tasks_of_seen (h : p.Ok) {d : Option Deed} (hmove : p.locks.Moves t locks' d)
    (hd : d ≠ some .effect) {u : Thread} {v : Seen} (hv : p.seen u = some v) :
    locks'.tasks u = p.locks.tasks u := by
  obtain ⟨⟨rest, hrest⟩, -⟩ := h.fresh u v hv
  refine hmove.tasks_of_ne ?_
  rintro rfl
  exact hd (hmove.eq_of_act hrest)

theorem Ok.lock (h : p.Ok) {d : Option Deed} (hmove : p.locks.Moves t locks' d)
    (hd : d ≠ some .effect) (ended : Bool) : Ok { p with locks := locks', ended := ended } := by
  refine ⟨h.stopped, h.sound.step hmove, (hmove.once h.once).1, h.plan, ?_, ?_, ?_, ?_⟩
  · intro u hne
    refine h.planned u ?_
    intro hnil
    exact hne (tasks_of_moves hmove hnil)
  · refine h.alive.imp_left ?_
    intro hquiet
    show QuietTasks _ (locks'.tasks .server)
    by_cases ht : t = .server
    · subst ht
      exact (hmove.quiet hquiet).1
    · rwa [hmove.tasks_of_ne (Ne.symm ht)]
  · exact fun hoff => tasks_of_moves hmove (h.idle hoff)
  · intro u v hv
    show (∃ rest, locks'.tasks u = _) ∧ _
    rw [h.tasks_of_seen hmove hd hv]
    exact h.fresh u v hv

theorem Ok.look (h : p.Ok) (hmove : p.locks.Moves t locks' (some .effect))
    (hplan : p.plan t = some l) :
    Ok { p with seen := Function.update p.seen t (some (p.core.look l)) } := by
  refine ⟨h.stopped, h.sound, h.once, h.plan, h.planned, h.alive, h.idle, ?_⟩
  intro u v hv
  change Function.update p.seen t _ u = some v at hv
  by_cases hu : u = t
  · subst hu
    rw [Function.update_self] at hv
    cases hv
    exact ⟨hmove.tasks_of_act, l, hplan, rfl⟩
  · rw [Function.update_of_ne hu] at hv
    exact h.fresh u v hv

/-- What the step of a thread goes by is there. -/
theorem Ok.view_eq (h : p.Ok) (hplan : p.plan t = some l) : p.view t l = p.core.look l := by
  unfold view
  cases hseen : p.seen t with
  | none => rfl
  | some v =>
    obtain ⟨-, l', hplan', hv⟩ := h.fresh t v hseen
    rw [hplan] at hplan'
    cases hplan'
    exact hv

/-- **A thread that takes its step takes it on what is there.** -/
theorem Ok.finish_eq (h : p.Ok) (hplan : p.plan t = some l) :
    p.core.finish (p.view t l) l = proxy.step p.core l := by
  rw [h.view_eq hplan, Core.finish_look]

/-- A step leaves alone what the steps of the other threads touch, but for the start of a server
thread. -/
theorem touches_of_move {s s' : Core} {l' : Label} (hm : s.Move l s' es)
    (hne : l'.thread ≠ l.thread)
    (hspawn : s.mainPc = .spawn → l'.thread ≠ .server) : s'.touches l' = s.touches l' := by
  cases hm with
  | fail msg _ => rfl
  | client _ =>
    cases l' with
    | client io => exact absurd rfl hne
    | main _ | server _ => rfl
  | server _ _ _ =>
    cases l' with
    | server io => exact absurd rfl hne
    | main _ | client _ => rfl
  | main hmain =>
    cases l' with
    | main mem => exact absurd rfl hne
    | client io => cases hmain <;> rfl
    | server io =>
      cases hmain with
      | spawn mem hpc => exact absurd rfl (hspawn hpc)
      | idle | seen | copy | closeCmd | join | dealloc | alloc | finish | clearSrv => rfl

/-- What the other threads have read is still there after a step, as they hold the mutexes. -/
theorem Ok.look_of_step (h : p.Ok) {core' : Core} {l' : Label} {u : Thread}
    (heffect : p.Next t .effect) (hplan : p.plan t = some l)
    (hstep : proxy.step p.core l = some (core', es)) (heffect' : p.Next u .effect)
    (hplan' : p.plan u = some l') (hne : u ≠ t) : core'.look l' = p.core.look l' := by
  obtain rfl : l.thread = t := h.plan t l hplan
  obtain rfl : l'.thread = u := h.plan u l' hplan'
  refine Core.look_congr (touches_of_move (Core.step_cases hstep) hne ?_) ?_
  · intro hpc hserver
    obtain ⟨rest, hrest⟩ := heffect'
    rw [hserver, h.idle (.inl (by rw [hpc]; rfl))] at hrest
    cases hrest
  · intro x hx hguarded
    refine Core.value_of_same (Core.changes_of_step hstep ?_)
    intro halters
    have hmine : p.About l.thread x :=
      ⟨heffect, by rw [touched_of_plan hplan]; exact Core.alters_subset_touches halters⟩
    have hother : p.About l'.thread x := ⟨heffect', by rwa [touched_of_plan hplan']⟩
    have howner := h.owner_of_about hmine hguarded
    rw [h.owner_of_about hother hguarded] at howner
    exact hne (Option.some.inj howner)

/-- Where the main thread has no server thread running after a step, it had none before, or it
waited for one. -/
theorem off_of_move {s s' : Core} (hm : s.Move l s' es)
    (hoff : s'.mainPc.serverOff = true ∨ s'.serverRunning = false) :
    (s.mainPc.serverOff = true ∨ s.serverRunning = false) ∨
      (l.thread = .main ∧ s.mainPc = .join) := by
  cases hm with
  | fail msg _ => exact .inl hoff
  | client _ => exact .inl hoff
  | server _ _ _ => exact .inl hoff
  | main hmain =>
    cases hmain with
    | idle _ _ => exact .inl hoff
    | seen hpc _ => exact .inl (.inr (hoff.resolve_left (by simp [MainPc.serverOff])))
    | copy hpc =>
      cases hrun : s.serverRunning with
      | false => exact .inl (.inr rfl)
      | true =>
        rw [hrun] at hoff
        rcases hoff with hoff | hoff <;> cases hoff
    | closeCmd hpc => exact .inl (.inr (hoff.resolve_left (by simp [MainPc.serverOff])))
    | join hpc _ => exact .inr ⟨rfl, hpc⟩
    | dealloc hpc | alloc _ hpc | finish hpc | clearSrv hpc =>
      exact .inl (.inl (by rw [hpc]; rfl))
    | spawn _ hpc => exact .inl (.inl (by rw [hpc]; rfl))

theorem server_of_move {s s' : Core} (hm : s.Move l s' es) (hne : l.thread ≠ .server) :
    s'.server = s.server ∨ s.mainPc = .spawn := by
  cases hm with
  | fail msg _ => exact .inl rfl
  | client _ => exact .inl rfl
  | server _ _ _ => exact absurd rfl hne
  | main hmain =>
    cases hmain with
    | spawn _ hpc => exact .inr hpc
    | idle | seen | copy | closeCmd | join | dealloc | alloc | finish | clearSrv => exact .inl rfl

theorem Ok.effect (h : p.Ok) {core' : Core} (hmove : p.locks.Moves t locks' (some .effect))
    (hjoins : p.joins t = false) (hplan : p.plan t = some l)
    (hstep : proxy.step p.core l = some (core', es)) :
    Ok { p with
      core := core'
      locks := locks'
      seen := Function.update p.seen t none } := by
  have hm := Core.step_cases hstep
  have hthread : l.thread = t := h.plan t l hplan
  obtain ⟨honce, hquiet⟩ := hmove.once h.once
  -- where the main thread starts a server thread none is in a step
  have hspawn : p.core.mainPc = .spawn → p.locks.tasks .server = [] :=
    fun hpc => h.idle (.inl (by rw [hpc]; rfl))
  refine ⟨h.stopped.step hm, (h.sound.step hmove).of_rules ?_, honce, h.plan, ?_, ?_, ?_, ?_⟩
  · intro u held hfits
    by_cases hu : u = t
    · subst hu
      refine hfits.of_quiet (hquiet _ rfl rfl) rfl ?_
      intro d hd
      funext held
      simp [rules, hd]
    · by_cases hnil : locks'.tasks u = []
      · rw [hnil] at hfits ⊢
        exact hfits
      · suffices htouched : touched { p with
            core := core'
            locks := locks'
            seen := Function.update p.seen t none } u = p.touched u by
          rwa [htouched]
        unfold touched
        cases hk : p.plan u with
        | none => rfl
        | some k =>
          have hku : k.thread = u := h.plan u k hk
          refine touches_of_move hm (by rwa [hku, hthread]) ?_
          rintro hpc hserver
          exact hnil (tasks_of_moves hmove (by rw [← hku, hserver]; exact hspawn hpc))
  · intro u hne
    exact h.planned u fun hnil => hne (tasks_of_moves hmove hnil)
  · by_cases ht : t = .server
    · subst ht
      exact .inl (hquiet _ rfl rfl)
    · show QuietTasks _ (locks'.tasks .server) ∨ _
      rw [hmove.tasks_of_ne (Ne.symm ht)]
      rcases server_of_move hm (by rwa [hthread]) with hsame | hpc
      · rw [hsame]
        exact h.alive
      · rw [hspawn hpc]
        exact .inl trivial
  · intro hoff
    refine tasks_of_moves hmove ?_
    rcases off_of_move hm hoff with hoff | ⟨hmain, hpc⟩
    · exact h.idle hoff
    · rw [hthread] at hmain
      subst hmain
      simpa [joins, hpc] using hjoins
  · intro u v hv
    by_cases hu : u = t
    · subst hu
      simp at hv
    · change Function.update p.seen t none u = some v at hv
      rw [Function.update_of_ne hu] at hv
      obtain ⟨heffect, l', hplan', rfl⟩ := h.fresh u v hv
      refine ⟨?_, l', hplan', ?_⟩
      · show ∃ rest, locks'.tasks u = _
        rwa [hmove.tasks_of_ne hu]
      · exact (h.look_of_step hmove.tasks_of_act hplan hstep heffect hplan' hu).symm

/-- **What a step keeps.** -/
theorem Ok.step (h : p.Ok) {k : ProcessLabel} (hstep : process.step p k = some (p', es)) :
    p'.Ok := by
  cases does_of_step hstep with
  | start htasks hcode => exact h.start htasks hcode
  | lock hmove => exact h.lock hmove nofun p.ended
  | exit hmove => exact h.lock hmove (by simp) true
  | look hmove hplan => exact h.look hmove hplan
  | effect hmove hjoins hplan hcore =>
    rw [h.finish_eq hplan] at hcore
    exact h.effect hmove hjoins hplan hcore

/-! ### Sections are atomic -/

theorem step_start (hlive : p.halted = false) : process.step p (.start l) = p.start l := by
  show p.step (.start l) = _
  rw [step, hlive]
  rfl

theorem step_go {way : Bool} (hlive : p.halted = false) :
    process.step p (.go t way) = p.go t way := by
  show p.step (.go t way) = _
  rw [step, hlive]
  rfl

theorem step_of_code {c : Code Mutex Deed} (hlive : p.halted = false)
    (hnil : p.locks.tasks l.thread = []) (hcode : p.core.code l = some c) :
    process.step p (.start l) = some ({ p with
      locks := p.locks.setTasks l.thread [.run c]
      plan := Function.update p.plan l.thread (some l) }, []) := by
  rw [step_start hlive]
  simp only [start, hnil, hcode, Option.map_some]

/-- Threads go on, without taking their steps. -/
theorem run_quiet {ls : List (Thread × Bool)} (hlive : p.halted = false)
    (hrun : locksMachine.run p.locks ls = some (locks', [])) :
    ∃ ks, process.run p ks = some ({ p with locks := locks' }, []) := by
  induction ls generalizing p with
  | nil =>
    cases hrun
    exact ⟨[], rfl⟩
  | cons k ls ih =>
    obtain ⟨k₁, d, ws, hstep, hrest, hws⟩ := run_locksMachine_cons hrun
    obtain ⟨hd, rfl⟩ := List.append_eq_nil_iff.1 hws.symm
    obtain rfl : d = none := by simpa using hd
    have hgo : process.step p (.go k.1 k.2) = some ({ p with locks := k₁ }, []) := by
      rw [step_go hlive, go, hstep]
    obtain ⟨ks, hks⟩ := ih (p := { p with locks := k₁ }) hlive hrest
    refine ⟨.go k.1 k.2 :: ks, ?_⟩
    rw [Machine.run_cons hgo, hks]
    rfl

theorem run_act {way : Bool} {core' : Core} (hlive : p.halted = false) (hjoins : p.joins t = false)
    (hseen : p.seen t = none) (hplan : p.plan t = some l)
    (hlocks : p.locks.step t way = some (locks', some .effect))
    (hcore : proxy.step p.core l = some (core', es)) :
    ∃ ks, process.run p ks = some ({ p with core := core', locks := locks' }, es) := by
  rw [← Core.finish_look] at hcore
  have hback : Function.update p.seen t none = p.seen := by rw [← hseen, Function.update_eq_self]
  have hgo : ∀ q : Process, q.halted = false → q.joins t = false → q.plan t = some l →
      q.locks.step t way = some (locks', some .effect) →
      process.step q (.go t way) = q.act t l locks' := by
    intro q hq hj hp hl
    rw [step_go hq, go, hl]
    simp only [hj, hp, Bool.false_eq_true, if_false, Option.bind_some]
  cases hlooks : p.core.looks l with
  | false =>
    refine ⟨[.go t way], Machine.run_singleton ?_⟩
    rw [hgo p hlive hjoins hplan hlocks, act, if_neg (by simp [pauses, hlooks]), view, hseen]
    show (p.core.finish (p.core.look l) l).map _ = _
    rw [hcore, Option.map_some, hback]
  | true =>
    have hfirst : process.step p (.go t way) = some
        ({ p with seen := Function.update p.seen t (some (p.core.look l)) }, []) := by
      rw [hgo p hlive hjoins hplan hlocks, act, if_pos (by simp [pauses, hseen, hlooks])]
    have hsecond : process.step
        { p with seen := Function.update p.seen t (some (p.core.look l)) } (.go t way) =
          some ({ p with core := core', locks := locks' }, es) := by
      rw [hgo { p with seen := Function.update p.seen t (some (p.core.look l)) } hlive hjoins hplan
        hlocks, act, if_neg (by simp [pauses])]
      simp only [view, Function.update_self, Option.getD_some, hcore, Option.map_some,
        Function.update_idem, hback]
    refine ⟨[.go t way, .go t way], ?_⟩
    rw [Machine.run_cons hfirst, Machine.run_singleton hsecond]
    rfl

theorem run_effect {ls : List (Thread × Bool)} {core' : Core} (hls : ∀ k ∈ ls, k.1 = t)
    (hlive : p.halted = false) (hserver : t = .main → p.locks.tasks .server = [])
    (hseen : p.seen t = none) (hplan : p.plan t = some l)
    (hcore : proxy.step p.core l = some (core', es))
    (hrun : locksMachine.run p.locks ls = some (locks', [.effect])) :
    ∃ ks p', process.run p ks = some (p', es) ∧ p'.core = core' ∧
      (core'.exited = none → p' = { p with core := core', locks := locks' }) := by
  induction ls generalizing p with
  | nil => cases hrun
  | cons k ls ih =>
    obtain ⟨k₁, d, ws, hstep, hrest, hws⟩ := run_locksMachine_cons hrun
    obtain rfl : k.1 = t := hls k List.mem_cons_self
    have hls' := fun k hk => hls k (List.mem_cons_of_mem _ hk)
    have hmove := Locks.moves_of_step hstep
    cases d with
    | none =>
      obtain rfl : ws = [.effect] := hws.symm
      have hgo : process.step p (.go k.1 k.2) = some ({ p with locks := k₁ }, []) := by
        rw [step_go hlive, go, hstep]
      obtain ⟨ks, p', hks, hp'⟩ := ih (p := { p with locks := k₁ }) hls' hlive
        (fun ht => tasks_of_moves hmove (hserver ht)) hseen hplan hcore hrest
      refine ⟨.go k.1 k.2 :: ks, p', ?_, hp'⟩
      rw [Machine.run_cons hgo, hks]
      rfl
    | some d =>
      obtain ⟨rfl, rfl⟩ : d = .effect ∧ ws = [] := by simpa using hws.symm
      have hjoins : p.joins k.1 = false := by
        unfold joins
        by_cases ht : k.1 = .main
        · simp [hserver ht]
        · simp [ht]
      obtain ⟨ks₁, hact⟩ := run_act hlive hjoins hseen hplan hstep hcore
      cases hexited : core'.exited with
      | some msg => exact ⟨ks₁, _, hact, rfl, nofun⟩
      | none =>
        have hlive' : halted { p with core := core', locks := k₁ } = false :=
          halted_eq_false_iff.2 ⟨(halted_eq_false_iff.1 hlive).1, hexited⟩
        obtain ⟨ks, hks⟩ :=
          run_quiet (p := { p with core := core', locks := k₁ }) hlive' hrest
        refine ⟨ks₁ ++ ks, _, ?_, rfl, fun _ => rfl⟩
        rw [Machine.run_append hact hks, List.append_nil]

/-- No thread is in a step. -/
structure Idle (p : Process) : Prop where
  live : p.halted = false
  quiet : p.locks = .quiet
  unseen : ∀ t, p.seen t = none

theorem idle_init (clientNo failtimer : ℤ) (mem : Memory) : (init clientNo failtimer mem).Idle :=
  ⟨rfl, rfl, fun _ => rfl⟩

/-- **A step of `proxy` is taken by the threads with their mutexes.** -/
theorem process_of_step {core' : Core} (h : p.Idle)
    (hcore : proxy.step p.core l = some (core', es)) :
    ∃ ks p', process.run p ks = some (p', es) ∧ p'.core = core' ∧
      (core'.exited = none → p'.Idle) := by
  obtain ⟨hlive, hquiet, hseen⟩ := h
  obtain ⟨c, hcode⟩ :=
    Option.isSome_iff_exists.1 (Core.code_isSome.2 (Core.ready_of_step hcore).1)
  have hstart := step_of_code hlive (by rw [hquiet]; rfl) hcode
  -- every mutex is free
  have hfree : ∀ m, (p.locks.setTasks l.thread [.run c]).owner m = none ∨ m ∈ [] := by
    intro m
    rw [Locks.owner_setTasks, hquiet]
    exact .inl rfl
  obtain ⟨ls, hls, hrun⟩ := alone_straight (Locks.tasks_setTasks_self [.run c])
    (Core.fits_code hcode) hfree
  rw [(Core.single_code hcode).straight, Locks.setTasks_setTasks] at hrun
  have hback : p.locks.setTasks l.thread [] = .quiet := by
    rw [hquiet]
    show Locks.mk (Function.update (fun _ => []) l.thread []) _ = _
    rw [Function.update_eq_self]
    rfl
  rw [hback] at hrun
  have hserver : l.thread = .main →
      (p.locks.setTasks l.thread [.run c]).tasks .server = [] := by
    intro hl
    rw [Locks.tasks_setTasks_of_ne _ (by rw [hl]; nofun), hquiet]
    rfl
  obtain ⟨ks, p', hks, hp', hidle⟩ := run_effect (p := { p with
      locks := p.locks.setTasks l.thread [.run c]
      plan := Function.update p.plan l.thread (some l) }) hls hlive hserver (hseen _)
    (Function.update_self ..) hcore hrun
  refine ⟨.start l :: ks, p', ?_, hp', ?_⟩
  · rw [Machine.run_cons hstart, hks]
    rfl
  · intro hexited
    rw [hidle hexited]
    exact ⟨halted_eq_false_iff.2 ⟨(halted_eq_false_iff.1 hlive).1, hexited⟩, rfl, hseen⟩

/-- **A run of `proxy` is a run of the threads with their mutexes.** -/
theorem process_of_run {core' : Core} {ls : List Label} (h : p.Idle)
    (hcore : proxy.run p.core ls = some (core', es)) :
    ∃ ks p', process.run p ks = some (p', es) ∧ p'.core = core' ∧
      (core'.exited = none → p'.Idle) := by
  induction ls generalizing p es with
  | nil =>
    cases hcore
    exact ⟨[], p, rfl, rfl, fun _ => h⟩
  | cons l ls ih =>
    obtain ⟨⟨s₁, es₁⟩, hfirst, hcore⟩ := Option.bind_eq_some_iff.1 hcore
    obtain ⟨⟨s₂, es₂⟩, hrest, heq⟩ := Option.bind_eq_some_iff.1 hcore
    cases heq
    obtain ⟨ks, p₁, hks, rfl, hidle⟩ := process_of_step h hfirst
    cases hexited : p₁.core.exited with
    | none =>
      obtain ⟨ks', p', hks', hp'⟩ := ih (hidle hexited) hrest
      exact ⟨ks ++ ks', p', Machine.run_append hks hks', hp'⟩
    | some msg =>
      -- a program that has ended takes no further step
      cases ls with
      | nil =>
        cases hrest
        exact ⟨ks, p₁, by rw [hks, List.append_nil], rfl, hidle⟩
      | cons l' ls =>
        obtain ⟨r, hr, -⟩ := Option.bind_eq_some_iff.1 hrest
        rw [Core.exited_of_step hr] at hexited
        cases hexited

/-- What a run of the threads with their mutexes does to the program. -/
theorem run_of_process {ks : List ProcessLabel} (hok : p.Ok)
    (h : process.run p ks = some (p', es)) : ∃ ls, proxy.run p.core ls = some (p'.core, es) := by
  have hmatch : ∀ p s k p' es, p.Ok ∧ p.core = s → process.step p k = some (p', es) →
      ∃ ls s', proxy.run s ls = some (s', es) ∧ p'.Ok ∧ p'.core = s' := by
    rintro p _ k p' es ⟨hok, rfl⟩ hstep
    have hok' := hok.step hstep
    cases does_of_step hstep with
    | start _ _ | lock _ | exit _ | look _ _ => exact ⟨[], _, rfl, hok', rfl⟩
    | effect _ _ hplan hcore =>
      rw [hok.finish_eq hplan] at hcore
      exact ⟨[_], _, Machine.run_singleton hcore, hok', rfl⟩
  obtain ⟨ls, s, hrun, -, rfl⟩ :=
    Machine.run_matches (fun p s => p.Ok ∧ p.core = s) hmatch ⟨hok, rfl⟩ h
  exact ⟨ls, hrun⟩

/-! ### Who can go on -/

/-- A thread can take a step. -/
def CanMove (p : Process) (t : Thread) : Prop :=
  ∃ k : ProcessLabel, k.thread = t ∧ (process.step p k).isSome

/-- A thread waits. -/
inductive Blocked (p : Process) : Thread → Prop
  /-- For a mutex that a thread holds. -/
  | mutex {t u : Thread} {m : Mutex} : p.locks.Waits t m u → Blocked p t
  /-- For the server thread to return. -/
  | join {rest : List (Task Mutex Deed)} : p.locks.tasks .main = .run effect :: rest →
      p.core.mainPc = .join → (p.core.serverEnded = false ∨ p.locks.tasks .server ≠ []) →
      Blocked p .main
  /-- For the next server thread to be started. -/
  | gone : p.locks.tasks .server = [] → p.core.serverEnded = true → Blocked p .server

theorem start_isSome :
    (p.start l).isSome ↔ p.locks.tasks l.thread = [] ∧ (p.core.code l).isSome := by
  unfold start
  cases p.locks.tasks l.thread with
  | nil => simp
  | cons task rest => simp

/-- A server thread that is about to take its step has not returned. -/
theorem Ok.serverEnded_of_effect (h : p.Ok) (hnext : p.Next .server .effect) :
    p.core.serverEnded = false := by
  obtain ⟨rest, htasks⟩ := hnext
  rcases h.alive with hquiet | ⟨t, ht, hpc⟩
  · rw [htasks] at hquiet
    exact absurd rfl hquiet.1
  · simp [Core.serverEnded, ht, hpc]

theorem Ok.step_isSome_of_looks (h : p.Ok) (hlive : p.halted = false) (hnext : p.Next t .effect)
    (hplan : p.plan t = some l) (hlooks : p.core.looks l = true) :
    (proxy.step p.core l).isSome := by
  obtain rfl : l.thread = t := h.plan t l hplan
  refine (Core.step_isSome (exited_of_halted hlive)).2 ⟨?_, ?_⟩
  · intro ht
    exact h.serverEnded_of_effect (ht ▸ hnext)
  · intro ht hpc
    obtain ⟨io, rfl⟩ := Label.main_of_thread ht
    change (p.core.mainPc.touches).any _ = true at hlooks
    rw [hpc] at hlooks
    cases hlooks

theorem Ok.go_isSome_of_effect (h : p.Ok) (hlive : p.halted = false) {way : Bool}
    {rest : List (Task Mutex Deed)} (htasks : p.locks.tasks t = .run Sections.effect :: rest) :
    (p.go t way).isSome ↔
      p.joins t = false ∧ ∃ l, p.plan t = some l ∧ (proxy.step p.core l).isSome := by
  unfold go
  rw [Locks.step_act htasks]
  dsimp only
  cases p.joins t with
  | true => simp
  | false =>
    cases hplan : p.plan t with
    | none => simp
    | some l =>
      simp only [Bool.false_eq_true, if_false, Option.bind_some, true_and, Option.some.injEq,
        exists_eq_left']
      unfold act
      split_ifs with hpauses
      · rw [pauses, Bool.and_eq_true] at hpauses
        exact iff_of_true rfl (h.step_isSome_of_looks hlive ⟨rest, htasks⟩ hplan hpauses.2)
      · rw [h.finish_eq hplan, Option.isSome_map]

theorem go_isSome {way : Bool} (h : ∀ rest, p.locks.tasks t ≠ .run effect :: rest) :
    (p.go t way).isSome ↔ (p.locks.step t way).isSome := by
  unfold go
  cases hstep : p.locks.step t way with
  | none => simp
  | some r =>
    obtain ⟨locks', d⟩ := r
    cases d with
    | none => simp
    | some d =>
      cases d with
      | exit => simp
      | effect =>
        obtain ⟨rest, htasks⟩ := (Locks.moves_of_step hstep).tasks_of_act
        exact absurd htasks (h rest)

theorem exists_label (t : Thread) : ∃ l : Label, l.thread = t := by
  cases t with
  | main =>
    exact ⟨.main ⟨true, true, true, fun _ => ⟨⟨0, 0, 0, false⟩, fun _ => 0⟩, fun _ => 0⟩, rfl⟩
  | client => exact ⟨.client ⟨true, true, none, .again, 0, 0, none, ⟨0, .EAGAIN⟩, fun _ => 0⟩, rfl⟩
  | server =>
    exact ⟨.server ⟨true, true, true, false, false, .again, ⟨0, .EAGAIN⟩, none, true, 0,
      fun _ => 0⟩, rfl⟩

theorem Ok.not_blocked (h : p.Ok) (hlive : p.halted = false) {k : ProcessLabel}
    (hk : (process.step p k).isSome) : ¬ p.Blocked k.thread := by
  intro hblocked
  cases k with
  | start l =>
    rw [step_start hlive, start_isSome] at hk
    obtain ⟨hnil, hcode⟩ := hk
    change p.Blocked l.thread at hblocked
    generalize ht : l.thread = t at hblocked hnil
    cases hblocked with
    | mutex hwaits =>
      obtain ⟨⟨c, rest, htasks⟩, -⟩ := hwaits
      rw [hnil] at htasks
      cases htasks
    | join htasks _ _ =>
      rw [hnil] at htasks
      cases htasks
    | gone _ hended =>
      rw [Core.code_isSome.1 hcode ht] at hended
      cases hended
  | go t way =>
    rw [step_go hlive] at hk
    change p.Blocked t at hblocked
    cases hblocked with
    | mutex hwaits =>
      have hnone : p.locks.step t way = none := Locks.step_of_waits hwaits
      obtain ⟨⟨c, rest, htasks⟩, -⟩ := hwaits
      rw [go_isSome (by rw [htasks]; nofun), hnone] at hk
      cases hk
    | join htasks hpc hserver =>
      obtain ⟨hjoins, l, hplan, hstep⟩ := (h.go_isSome_of_effect hlive htasks).1 hk
      have hended := ((Core.step_isSome (exited_of_halted hlive)).1 hstep).2 (h.plan _ l hplan) hpc
      have hbusy : p.locks.tasks .server ≠ [] := by
        refine hserver.resolve_left ?_
        rw [hended]
        nofun
      simp [joins, hpc, hbusy] at hjoins
    | gone hnil _ =>
      rw [go_isSome (by rw [hnil]; nofun)] at hk
      obtain ⟨r, hr⟩ := Option.isSome_iff_exists.1 hk
      exact (Locks.moves_of_step hr).tasks_ne_nil hnil

theorem Ok.canMove (h : p.Ok) (hlive : p.halted = false) (hnot : ¬ p.Blocked t) : p.CanMove t := by
  by_cases hnil : p.locks.tasks t = []
  · obtain ⟨l, rfl⟩ := exists_label t
    refine ⟨.start l, rfl, ?_⟩
    rw [step_start hlive, start_isSome]
    refine ⟨hnil, Core.code_isSome.2 ?_⟩
    intro ht
    rw [ht] at hnot hnil
    exact Bool.eq_false_iff.2 fun hended => hnot (.gone hnil hended)
  · refine ⟨.go t true, rfl, ?_⟩
    rw [step_go hlive]
    by_cases heffect : ∃ rest, p.locks.tasks t = .run Sections.effect :: rest
    · obtain ⟨rest, htasks⟩ := heffect
      obtain ⟨l, hplan⟩ := Option.isSome_iff_exists.1 (h.planned t hnil)
      have hthread : l.thread = t := h.plan t l hplan
      refine (h.go_isSome_of_effect hlive htasks).2 ⟨?_, l, hplan, ?_⟩
      · refine Bool.eq_false_iff.2 ?_
        intro hjoins
        simp only [joins, Bool.and_eq_true, decide_eq_true_eq, Bool.not_eq_true',
          List.isEmpty_eq_false_iff] at hjoins
        obtain ⟨⟨rfl, hpc⟩, hbusy⟩ := hjoins
        exact hnot (.join htasks hpc (.inr hbusy))
      · refine (Core.step_isSome (exited_of_halted hlive)).2 ⟨?_, ?_⟩
        · intro ht
          rw [hthread] at ht
          subst ht
          exact h.serverEnded_of_effect ⟨rest, htasks⟩
        · intro ht hpc
          rw [hthread] at ht
          subst ht
          by_contra hended
          exact hnot (.join htasks hpc (.inl (by simpa using hended)))
    · rw [go_isSome fun rest htasks => heffect ⟨rest, htasks⟩]
      exact Locks.step_isSome true hnil fun m u hwaits => hnot (.mutex hwaits)

theorem Ok.owner_canMove (h : p.Ok) (hlive : p.halted = false) {m : Mutex}
    (howner : p.locks.owner m = some t) (hwaits : ∀ n u, ¬ p.locks.Waits t n u) :
    p.CanMove t := by
  refine h.canMove hlive ?_
  intro hblocked
  cases hblocked with
  | mutex hw => exact hwaits _ _ hw
  | gone hnil _ => exact h.sound.tasks_ne_nil howner hnil
  | join htasks hpc _ =>
    -- the main thread holds nothing where it waits for the server thread
    obtain ⟨held, hholds, hallows⟩ := h.sound.allows htasks
    have hnothing : p.touched .main = [] := by
      refine List.eq_nil_iff_forall_not_mem.2 ?_
      intro x hx
      obtain ⟨l, hplan, hmem⟩ := mem_touched.1 hx
      obtain ⟨mem, rfl⟩ := Label.main_of_thread (h.plan _ l hplan)
      change x ∈ p.core.mainPc.touches at hmem
      rw [hpc] at hmem
      cases hmem
    have hmem := (hholds m).1 howner
    rw [(hallows rfl).2 hnothing] at hmem
    cases hmem

/-! ### Who touches what -/

theorem Ok.chanInfo_of_about (h : p.Ok) (habout : p.About t .chanInfo) :
    (t = .main ∧ (p.core.mainPc = .copy ∨ p.core.mainPc.serverOff = true)) ∨ t = .server := by
  obtain ⟨l, hplan, hmem⟩ := mem_touched.1 habout.2
  obtain rfl : l.thread = t := h.plan t l hplan
  cases l with
  | server io => exact .inr rfl
  | main mem =>
    refine .inl ⟨rfl, ?_⟩
    change Shared.chanInfo ∈ p.core.mainPc.touches at hmem
    cases hpc : p.core.mainPc <;> simp [hpc, MainPc.touches, MainPc.serverOff] at hmem ⊢
  | client io =>
    change Shared.chanInfo ∈ p.core.client.touches at hmem
    unfold ClientThread.touches at hmem
    cases hpc : p.core.client.pc <;> simp only [hpc] at hmem
    case checking => split_ifs at hmem <;> simp at hmem
    case publish => split_ifs at hmem <;> simp at hmem
    all_goals simp at hmem

/-- Two threads that are about to touch the same data are the main thread in its first copy of the
configuration and the server thread. -/
theorem Ok.race (h : p.Ok) {t u : Thread} {x : Shared} (hne : t ≠ u) (ht : p.About t x)
    (hu : p.About u x) : x = .chanInfo ∧ (t = .main ∧ u = .server ∨ t = .server ∧ u = .main) ∧
      p.core.mainPc = .copy ∧ ∃ io, Shared.chanInfo ∈ p.core.touches (.server io) := by
  have hx : x = .chanInfo := by
    by_contra hx
    have howner := h.owner_of_about ht hx
    rw [h.owner_of_about hu hx] at howner
    exact hne (Option.some.inj howner).symm
  subst hx
  -- the two together, whichever is which
  have hboth : p.About .server .chanInfo →
      (p.core.mainPc = .copy ∨ p.core.mainPc.serverOff = true) →
      p.core.mainPc = .copy ∧ ∃ io, Shared.chanInfo ∈ p.core.touches (.server io) := by
    rintro ⟨⟨rest, htasks⟩, hmem⟩ hor
    constructor
    · refine hor.resolve_right ?_
      intro hoff
      rw [h.idle (.inl hoff)] at htasks
      cases htasks
    · obtain ⟨l, hplan, hmem⟩ := mem_touched.1 hmem
      obtain ⟨io, rfl⟩ := Label.server_of_thread (h.plan _ l hplan)
      exact ⟨io, hmem⟩
  rcases h.chanInfo_of_about ht with ⟨rfl, hpc⟩ | rfl
  · rcases h.chanInfo_of_about hu with ⟨rfl, -⟩ | rfl
    · exact absurd rfl hne
    · exact ⟨rfl, .inl ⟨rfl, rfl⟩, hboth hu hpc⟩
  · rcases h.chanInfo_of_about hu with ⟨rfl, hpc⟩ | rfl
    · exact ⟨rfl, .inr ⟨rfl, rfl⟩, hboth ht hpc⟩
    · exact absurd rfl hne

end Process

/-- **The program with its mutexes has the runs of `proxy`, where a section is one step.** -/
theorem sections_atomic (clientNo failtimer : ℤ) (mem : Memory) (s : Core) (es : List Event) :
    (∃ ks p, process.run (.init clientNo failtimer mem) ks = some (p, es) ∧ p.core = s) ↔
      ∃ ls, proxy.run (.init clientNo failtimer mem) ls = some (s, es) := by
  constructor
  · rintro ⟨ks, p, hrun, rfl⟩
    exact Process.run_of_process (Process.ok_init _ _ _) hrun
  · rintro ⟨ls, hrun⟩
    obtain ⟨ks, p, hks, hp, -⟩ :=
      Process.process_of_run (Process.idle_init clientNo failtimer mem) hrun
    exact ⟨ks, p, hks, hp⟩

/-- **There is no deadlock.**  As long as the program has not ended some thread can take a step, one
that cannot waits, and where one waits for a mutex, a thread that holds a mutex can take a step. -/
theorem no_deadlock (clientNo failtimer : ℤ) (mem : Memory) (ks : List ProcessLabel) :
    process.Always (fun _ _ _ p => p.halted = true ∨
      (∃ t, p.CanMove t) ∧ (∀ t, p.CanMove t ↔ ¬ p.Blocked t) ∧
        ∀ t m u, p.locks.Waits t m u → ∃ v k, p.locks.owner k = some v ∧ p.CanMove v)
      (.init clientNo failtimer mem) ks := by
  refine Machine.always_of_inv Process.Ok (Process.ok_init _ _ _) ?_ ks
  intro p k p' es hok hstep
  have hok' : p'.Ok := hok.step hstep
  refine ⟨hok', ?_⟩
  cases hlive : p'.halted with
  | true => exact .inl rfl
  | false =>
    have hwaiting : ∀ t m u, p'.locks.Waits t m u →
        ∃ v k, p'.locks.owner k = some v ∧ p'.CanMove v := by
      intro t m u hwaits
      obtain ⟨v, k, howner, hv⟩ :=
        Locks.Sound.exists_running (ranked_nests _) hok'.sound hwaits
      exact ⟨v, k, howner, hok'.owner_canMove hlive howner hv⟩
    refine .inr ⟨?_, ?_, hwaiting⟩
    · -- nothing but a mutex stops the client thread
      by_cases hclient : p'.Blocked .client
      · cases hclient with
        | mutex hwaits =>
          obtain ⟨v, _, _, hv⟩ := hwaiting _ _ _ hwaits
          exact ⟨v, hv⟩
      · exact ⟨.client, hok'.canMove hlive hclient⟩
    · intro t
      refine ⟨?_, hok'.canMove hlive⟩
      rintro ⟨k, rfl, hk⟩
      exact hok'.not_blocked hlive hk

end SdrProxy
