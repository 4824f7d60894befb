import SdrProxy.Publication

/-!
# Announcing the same configuration again

A channel info that is announced again, on a new connection or on the same one, need not make the
main thread discard the packets and disconnect the clients.

* `Reallocs` counts what the main thread does about changes;
* `AtMostOnce` : it does so at most once, and nothing of it after the first change was handled;
* `NotRaisedAgain` : a pass that receives the published configuration while `CHANCHANGE` is clear
  finds it in `old_chan_info`;
* `atMostOnce_of_notRaisedAgain` : in a run of such passes in which only one configuration is
  announced, the data ring is reallocated at most once;
* `announced_twice` : the second announcement of a configuration reallocates the data ring.
-/

namespace SdrProxy

/-- What the main thread has done about changes. -/
structure Reallocs where
  /-- How often the slots were freed. -/
  deallocs : ℕ
  /-- How often they were allocated. -/
  allocs : ℕ
  /-- How often the server thread was told to shut down. -/
  closeCmds : ℕ
  /-- How often `CHANCHANGE` was cleared. -/
  cleared : ℕ
  /-- The current pass has received a valid channel info. -/
  any : Bool
  deriving DecidableEq

namespace Reallocs

/-- Nothing done yet. -/
def none : Reallocs := ⟨0, 0, 0, 0, false⟩

/-- What an event tells. -/
def see (g : Reallocs) : Event → Reallocs
  | .sampled _ => { g with any := false }
  | .rcv (.accepted _) => { g with any := true }
  | .dealloc => { g with deallocs := g.deallocs + 1 }
  | .alloc _ => { g with allocs := g.allocs + 1 }
  | .closeCmd => { g with closeCmds := g.closeCmds + 1 }
  | .cleared _ => { g with cleared := g.cleared + 1 }
  | _ => g

/-- The counts, with no server thread shut down. -/
def Counts (deallocs allocs cleared : ℕ) (g : Reallocs) : Prop :=
  g.deallocs = deallocs ∧ g.allocs = allocs ∧ g.closeCmds = 0 ∧ g.cleared = cleared

end Reallocs

/-- The event discards packets or connections. -/
def Event.Discards : Event → Bool
  | dealloc | alloc _ | closeCmd => true
  | _ => false

/-- The main thread reallocates at most once, and discards nothing after the first change was
handled. -/
def AtMostOnce (sg : Core × Reallocs) (_ : Label) (es : List Event) (sg' : Core × Reallocs) :
    Prop :=
  (sg'.2.deallocs ≤ 1 ∧ sg'.2.allocs ≤ 1 ∧ sg'.2.closeCmds ≤ 1) ∧
    (1 ≤ sg.2.cleared → ∀ e ∈ es, e.Discards = false)

/-- The event is no acceptance of a channel info other than `c`. -/
def Event.Only (c : ChannelInfo) : Event → Prop
  | rcv (.accepted d) => d = c
  | _ => True

/-- Every valid channel info received is `c`. -/
def Announces (c : ChannelInfo) (_ : Core × Reallocs) (_ : Label) (es : List Event)
    (_ : Core × Reallocs) : Prop :=
  ∀ e ∈ es, e.Only c

/-- A pass that received the published configuration `c`, and ends with `CHANCHANGE` clear, finds
its sample rate and channels in `old_chan_info`. -/
def NotRaisedAgain (c : ChannelInfo) (sg : Core × Reallocs) (l : Label) (_ : List Event)
    (_ : Core × Reallocs) : Prop :=
  l.ofClient = true → sg.1.client.pc = .publish → sg.2.any = true →
    sg.1.comm.chanChange = false → sg.1.comm.chanInfo = c → sg.1.client.oldChanInfo.Same c

/-- How far the first announcement has come. -/
inductive Stage (c : ChannelInfo) (s : Core) (g : Reallocs) : Prop
  /-- Not published yet. -/
  | unannounced : s.comm.chanChange = false → s.mainPc = .poll → s.serverRunning = false →
      g.Counts 0 0 0 → Stage c s g
  /-- Published, and not handled to the end. -/
  | announced : s.comm.chanChange = true → s.comm.chanInfo = c → s.serverRunning = false →
      ((s.mainPc = .poll ∨ s.mainPc = .copy ∨ s.mainPc = .dealloc) ∧ g.Counts 0 0 0 ∨
        s.mainPc = .alloc ∧ g.Counts 1 0 0 ∨ s.mainPc = .finish ∧ g.Counts 1 1 0) → Stage c s g
  /-- Handled. -/
  | handled : s.comm.chanChange = false → s.comm.chanInfo = c →
      (s.mainPc = .clearSrv ∨ s.mainPc = .spawn ∨ s.mainPc = .poll) → g.Counts 1 1 1 → Stage c s g

/-- The invariant: the stage, and what a pass holds as the new configuration. -/
structure Announced (c : ChannelInfo) (s : Core) (g : Reallocs) : Prop where
  stage : Stage c s g
  inPass : s.client.InPass →
    s.client.newChanInfo = if g.any then c else s.client.oldChanInfo

section

variable (c : ChannelInfo) (sg : Core × Reallocs) (l : Label) (es : List Event)
  (sg' : Core × Reallocs)

instance : Decidable (AtMostOnce sg l es sg') := inferInstanceAs (Decidable (_ ∧ _))

instance : Decidable (NotRaisedAgain c sg l es sg') :=
  inferInstanceAs (Decidable (_ → _ → _ → _ → _ → _))

instance (e : Event) : Decidable (e.Only c) := by
  unfold Event.Only
  split <;> infer_instance

instance : Decidable (Announces c sg l es sg') :=
  inferInstanceAs (Decidable (∀ e ∈ es, e.Only c))

end

variable {c : ChannelInfo} {s s' : Core} {g : Reallocs} {l : Label} {es : List Event}

theorem Stage.counts_le (h : Stage c s g) :
    (g.deallocs ≤ 1 ∧ g.allocs ≤ 1 ∧ g.closeCmds ≤ 1) ∧
      (1 ≤ g.cleared → s.mainPc = .clearSrv ∨ s.mainPc = .spawn ∨ s.mainPc = .poll) := by
  cases h with
  | unannounced _ _ _ hcounts =>
    obtain ⟨hd, ha, hc, hk⟩ := hcounts
    exact ⟨by omega, fun _ => by omega⟩
  | announced _ _ _ hcases =>
    rcases hcases with ⟨-, hd, ha, hc, hk⟩ | ⟨-, hd, ha, hc, hk⟩ | ⟨-, hd, ha, hc, hk⟩ <;>
      exact ⟨by omega, fun _ => by omega⟩
  | handled _ _ hpc hcounts =>
    obtain ⟨hd, ha, hc, hk⟩ := hcounts
    exact ⟨by omega, fun _ => hpc⟩

/-- The stage depends on the counts only. -/
theorem Stage.of_counts {g' : Reallocs} (h : Stage c s g)
    (hg : ∀ d a k, g.Counts d a k → g'.Counts d a k) (hcomm : s'.comm = s.comm)
    (hpc : s'.mainPc = s.mainPc) (hrun : s'.serverRunning = s.serverRunning) : Stage c s' g' := by
  cases h with
  | unannounced h₁ h₂ h₃ h₄ =>
    exact .unannounced (hcomm ▸ h₁) (hpc ▸ h₂) (hrun ▸ h₃) (hg _ _ _ h₄)
  | announced h₁ h₂ h₃ h₄ =>
    refine .announced (hcomm ▸ h₁) (hcomm ▸ h₂) (hrun ▸ h₃) ?_
    rw [hpc]
    exact h₄.imp (And.imp_right (hg _ _ _))
      (Or.imp (And.imp_right (hg _ _ _)) (And.imp_right (hg _ _ _)))
  | handled h₁ h₂ h₃ h₄ =>
    exact .handled (hcomm ▸ h₁) (hcomm ▸ h₂) (hpc ▸ h₃) (hg _ _ _ h₄)

theorem Stage.main (h : Stage c s g) (hm : MainMove s s' es) :
    Stage c s' (es.foldl Reallocs.see g) := by
  cases h with
  | unannounced hflag hpc hrun hcounts =>
    cases hm with
    | idle _ _ => exact .unannounced hflag hpc hrun hcounts
    | seen _ hset => simp [hflag] at hset
    | copy hpc' => simp [hpc] at hpc'
    | closeCmd hpc' => simp [hpc] at hpc'
    | join hpc' _ => simp [hpc] at hpc'
    | dealloc hpc' => simp [hpc] at hpc'
    | alloc _ hpc' => simp [hpc] at hpc'
    | finish hpc' => simp [hpc] at hpc'
    | clearSrv hpc' => simp [hpc] at hpc'
    | spawn _ hpc' => simp [hpc] at hpc'
  | announced hflag hinfo hrun hcases =>
    -- before the slots are freed nothing has been counted
    have hcounts : ∀ pc, s.mainPc = pc → pc = .poll ∨ pc = .copy ∨ pc = .dealloc →
        g.Counts 0 0 0 := by
      rintro pc rfl hpc
      rcases hcases with ⟨-, hcounts⟩ | ⟨hpc', -⟩ | ⟨hpc', -⟩
      · exact hcounts
      · simp [hpc'] at hpc
      · simp [hpc'] at hpc
    cases hm with
    | idle _ hset => simp [hflag] at hset
    | seen hpc _ =>
      exact .announced hflag hinfo hrun (.inl ⟨.inr (.inl rfl), hcounts _ hpc (by simp)⟩)
    | copy hpc =>
      exact .announced hflag hinfo hrun
        (.inl ⟨.inr (.inr (by simp [hrun])), hcounts _ hpc (by simp)⟩)
    | dealloc hpc =>
      obtain ⟨hd, ha, hc, hk⟩ := hcounts _ hpc (by simp)
      exact .announced hflag hinfo hrun (.inr (.inl ⟨rfl, by simp [Reallocs.see, hd], ha, hc, hk⟩))
    | alloc mem hpc =>
      simp only [hpc, reduceCtorEq, or_self, false_and, true_and, or_false, false_or] at hcases
      obtain ⟨hd, ha, hc, hk⟩ := hcases
      exact .announced hflag hinfo hrun (.inr (.inr ⟨rfl, hd, by simp [Reallocs.see, ha], hc, hk⟩))
    | finish hpc =>
      simp only [hpc, reduceCtorEq, or_self, false_and, true_and, false_or] at hcases
      obtain ⟨hd, ha, hc, hk⟩ := hcases
      exact .handled rfl hinfo (.inl rfl) ⟨hd, ha, hc, by simp [Reallocs.see, hk]⟩
    | closeCmd hpc => simp [hpc] at hcases
    | join hpc _ => simp [hpc] at hcases
    | clearSrv hpc => simp [hpc] at hcases
    | spawn _ hpc => simp [hpc] at hcases
  | handled hflag hinfo hpcs hcounts =>
    cases hm with
    | idle _ _ => exact .handled hflag hinfo hpcs hcounts
    | clearSrv _ => exact .handled hflag hinfo (.inr (.inl rfl)) hcounts
    | spawn _ _ => exact .handled hflag hinfo (.inr (.inr rfl)) hcounts
    | seen _ hset => simp [hflag] at hset
    | copy hpc => simp [hpc] at hpcs
    | closeCmd hpc => simp [hpc] at hpcs
    | join hpc _ => simp [hpc] at hpcs
    | dealloc hpc => simp [hpc] at hpcs
    | alloc _ hpc => simp [hpc] at hpcs
    | finish hpc => simp [hpc] at hpcs

theorem MainMove.discards (hm : MainMove s s' es)
    (hpc : s.mainPc = .clearSrv ∨ s.mainPc = .spawn ∨ s.mainPc = .poll) :
    ∀ e ∈ es, e.Discards = false := by
  cases hm <;> simp_all [Event.Discards]

theorem Handed.counts {item : Option Item} {p p' : RcvPath} {events : List RcvEvent}
    (h : Handed item p p' events) {d a k : ℕ} (hg : g.Counts d a k) :
    ((events.map .rcv).foldl Reallocs.see g).Counts d a k := by
  cases h <;> exact hg

/-- A turn receives nothing, or the one configuration announced. -/
theorem Handed.announced {item : Option Item} {p p' : RcvPath} {events : List RcvEvent}
    (h : Handed item p p' events) (hann : ∀ e ∈ events.map Event.rcv, e.Only c)
    (g : Reallocs) :
    (((events.map .rcv).foldl Reallocs.see g).any = g.any ∧ p'.newChanInfo = p.newChanInfo) ∨
      (((events.map .rcv).foldl Reallocs.see g).any = true ∧ p'.newChanInfo = c) := by
  cases h with
  | none hsame _ => exact .inl ⟨rfl, hsame⟩
  | chan d hd _ => exact .inr ⟨rfl, hd.trans (hann (.rcv (.accepted d)) (by simp))⟩
  | adc _ _ _ _ _ hsame _ => exact .inl ⟨rfl, hsame⟩

/-- One step of the client thread: only a pass that receives the published configuration again can
raise `CHANCHANGE` a second time. -/
theorem Announced.client (h : Announced c s g) (hl : l.ofClient = true)
    (hm : ClientMove s.client s.comm s.dataRing s'.client s'.comm s'.dataRing es)
    (hpc : s'.mainPc = s.mainPc) (hrun : s'.serverRunning = s.serverRunning)
    (hann : ∀ e ∈ es, e.Only c)
    (hagain : NotRaisedAgain c (s, g) l es (s', es.foldl Reallocs.see g)) :
    Announced c s' (es.foldl Reallocs.see g) := by
  obtain ⟨comm', _, dataRing', _, mainPc', serverRunning', c', _, _⟩ := s'
  dsimp only at hm hpc hrun
  subst hpc hrun
  cases hm with
  | quiet hpc hpc' hinh hnew hold =>
    have hout' : ¬ c'.InPass := ClientThread.not_inPass (by tauto)
    exact ⟨h.stage.of_counts (fun _ _ _ => id) rfl rfl rfl, fun hin => absurd hin hout'⟩
  | sample hpc => exact ⟨h.stage.of_counts (fun _ _ _ => id) rfl rfl rfl, fun _ => rfl⟩
  | check t hpc _ hpc' _ _ hold hnew _ hhanded =>
    refine ⟨h.stage.of_counts (fun _ _ _ => hhanded.counts) rfl rfl rfl, fun _ => ?_⟩
    dsimp only
    rcases hhanded.announced hann g with ⟨hany, hsame⟩ | ⟨hany, hgot⟩
    · rw [hnew, hold, hany, hsame]
      exact h.inPass (.inl hpc)
    · rw [hnew, hany, hgot, if_pos rfl]
  | raise hpc hch =>
    obtain ⟨hgot, hcur, hdiff⟩ := ClientThread.received_of_changed (h.inPass (.inr hpc)) hch
    have hout' : ¬ ({ s.client with oldChanInfo := s.comm.chanInfo, pc := .sending } :
      ClientThread).InPass := ClientThread.not_inPass (by simp)
    refine ⟨?_, fun hin => absurd hin hout'⟩
    cases h.stage with
    | unannounced _ hmain hrun hcounts =>
      exact .announced rfl hcur hrun (.inl ⟨.inl hmain, hcounts⟩)
    | announced _ _ hrun hcases => exact .announced rfl hcur hrun hcases
    -- a second change is what `NotRaisedAgain` excludes
    | handled hflag hinfo _ _ => exact absurd (hagain hl hpc hgot hflag hinfo) hdiff
  | keep hpc hch =>
    have hout' : ¬ ({ s.client with pc := .sending } : ClientThread).InPass :=
      ClientThread.not_inPass (by simp)
    exact ⟨h.stage.of_counts (fun _ _ _ => id) rfl rfl rfl, fun hin => absurd hin hout'⟩

/-- In a run in which only one configuration is announced, and every pass that receives it again
while `CHANCHANGE` is clear finds it in `old_chan_info`, **the main thread reallocates at most
once**, and no packet or connection is discarded afterwards. -/
theorem atMostOnce_of_notRaisedAgain (clientNo failtimer : ℤ) (mem : Memory) (c : ChannelInfo)
    (ls : List Label)
    (hann : (proxy.watch Reallocs.see).Always (Announces c)
      (.init clientNo failtimer mem, .none) ls)
    (hagain : (proxy.watch Reallocs.see).Always (NotRaisedAgain c)
      (.init clientNo failtimer mem, .none) ls) :
    (proxy.watch Reallocs.see).Always AtMostOnce (.init clientNo failtimer mem, .none) ls := by
  refine Machine.always_imp (fun sg => Announced c sg.1 sg.2) ?_ ?_ ls
    ((Machine.always_and ls).2 ⟨hann, hagain⟩)
  · exact ⟨.unannounced rfl rfl rfl ⟨rfl, rfl, rfl, rfl⟩,
      fun hin => absurd hin (ClientThread.not_inPass (.inl rfl))⟩
  · rintro ⟨s, g⟩ l ⟨s', g'⟩ es hinv hstep ⟨hann, hagain⟩
    obtain ⟨hstep, rfl⟩ := Machine.watch_step.1 hstep
    have hm := Core.step_cases hstep
    -- the counts are bounded at every stage
    suffices hnext : Announced c s' (es.foldl Reallocs.see g) ∧
        (1 ≤ g.cleared → ∀ e ∈ es, e.Discards = false) from
      ⟨hnext.1, hnext.1.stage.counts_le.1, hnext.2⟩
    cases hm with
    | fail msg _ => exact ⟨⟨hinv.stage.of_counts (fun _ _ _ => id) rfl rfl rfl, hinv.inPass⟩,
        fun _ _ he => (by cases he)⟩
    | server _ _ hserver =>
      cases hserver <;> exact ⟨⟨hinv.stage.of_counts (fun _ _ _ => id) rfl rfl rfl, hinv.inPass⟩,
        fun _ => by simp [Event.Discards]⟩
    | main hmain =>
      refine ⟨⟨hinv.stage.main hmain, ?_⟩, fun hk => hmain.discards (hinv.stage.counts_le.2 hk)⟩
      cases hmain <;> exact hinv.inPass
    | client hclient =>
      refine ⟨hinv.client rfl hclient rfl rfl hann hagain, fun _ => ?_⟩
      cases hclient <;> simp [Event.Discards]

/-- The same configuration in each of the first two passes, and again in the fourth. -/
theorem atMostOnce_announced_early :
    let text := chanInfoText ⟨100, 4, 1⟩
    (proxy.watch Reallocs.see).Always AtMostOnce (.init (-1) 0 .zero, .none)
      (clientConnects ++ clientPass text 2 ++ clientPass text 2 ++ mainSteps 8 ++
        clientPass [0] 1 ++ clientPass text 2 ++ mainSteps 8) :=
  atMostOnce_of_notRaisedAgain _ _ _ ⟨100, 4, 1⟩ _ (by decide +kernel) (by decide +kernel)

/-- A configuration that is announced again after the main thread has handled its first
announcement makes it shut down the server thread and reallocate a second time. -/
theorem announced_twice :
    let text := chanInfoText ⟨100, 4, 1⟩
    let ls := clientConnects ++ clientPass text 2 ++ mainSteps 7 ++ clientPass text 2 ++
      mainSteps 3 ++ serverSteps 3 ++ mainSteps 6
    (proxy.watch Reallocs.see).Always (Announces ⟨100, 4, 1⟩) (.init (-1) 0 .zero, .none) ls ∧
      ((proxy.watch Reallocs.see).run (.init (-1) 0 .zero, .none) ls).map (fun r => r.1.2) =
        some ⟨2, 2, 1, 2, true⟩ ∧
      ¬ (proxy.watch Reallocs.see).Always AtMostOnce (.init (-1) 0 .zero, .none) ls := by
  decide +kernel

end SdrProxy
