import SdrProxy.Moves
import SdrProxy.Fragmentation

/-!
# The published configuration

At the end of a pass the client thread compares the configuration it received with `old_chan_info`,
which it sets to what it had published before.

* `Received` : what the client thread has received, read off the events;
* `Fresh` : a pass ends with the last configuration received published, and with `CHANCHANGE` raised
  if that changed;
* `Noticed` : what a pass received differs from `old_chan_info` in what the thread compares, unless
  it is published already;
* `fresh_iff_noticed` : a run publishes no stale configuration exactly if all its passes notice what
  they received;
* `return_unnoticed` : a configuration that was replaced and comes back is not noticed.
-/

namespace SdrProxy

/-- The configurations received, the zeros the thread starts with standing for none. -/
structure Received where
  /-- The last valid channel info received. -/
  last : ChannelInfo
  /-- The last one when the pass started. -/
  before : ChannelInfo
  /-- The pass has received one. -/
  any : Bool
  deriving DecidableEq

namespace Received

/-- Nothing received yet. -/
def none : Received := ⟨.zero, .zero, false⟩

/-- What an event tells. -/
def see (g : Received) : Event → Received
  | .sampled _ => { g with before := g.last, any := false }
  | .rcv (.accepted c) => { g with last := c, any := true }
  | _ => g

theorem see_of_not_client {e : Event} (h : e.ofClient = false) (g : Received) : g.see e = g := by
  cases e <;> simp_all [Event.ofClient, see]

end Received

/-- A pass ends with the last configuration received published, and with `CHANCHANGE` raised if that
changed in the pass. -/
def Fresh (_ : Core × Received) (_ : Label) (es : List Event) (sg' : Core × Received) : Prop :=
  ∀ raised, .passEnd raised ∈ es →
    sg'.1.comm.chanInfo = sg'.2.last ∧ (sg'.2.last ≠ sg'.2.before → raised = true)

/-- At the end of a pass that received a configuration, the last one differs from `old_chan_info`
in what the thread compares, or is the published one. -/
def Noticed (sg : Core × Received) (l : Label) (_ : List Event) (_ : Core × Received) : Prop :=
  l.ofClient = true → sg.1.client.pc = .publish → sg.2.any = true →
    ¬ sg.1.client.oldChanInfo.Same sg.2.last ∨ sg.1.comm.chanInfo = sg.2.last

instance (sg : Core × Received) (l : Label) (es : List Event) (sg' : Core × Received) :
    Decidable (Fresh sg l es sg') := inferInstanceAs (Decidable (∀ _, _ → _))

instance (sg : Core × Received) (l : Label) (es : List Event) (sg' : Core × Received) :
    Decidable (Noticed sg l es sg') := inferInstanceAs (Decidable (_ → _ → _ → _))

/-- How the thread and the published configuration stand to what was received, as long as no pass
has ended with a stale one. -/
structure Received.Tracks (g : Received) (s : Core) : Prop where
  between : ¬ s.client.InPass → s.comm.chanInfo = g.last
  inPass : s.client.InPass → s.comm.chanInfo = g.before ∧ (g.any = false → g.last = g.before) ∧
    s.client.newChanInfo = if g.any then g.last else s.client.oldChanInfo

/-- What a turn hands on is received. -/
theorem Handed.received {item : Option Item} {p p' : RcvPath} {events : List RcvEvent}
    (h : Handed item p p' events) (g : Received) :
    ((events.map .rcv).foldl Received.see g).before = g.before ∧
      (((events.map .rcv).foldl Received.see g = g ∧ p'.newChanInfo = p.newChanInfo) ∨
        (((events.map .rcv).foldl Received.see g).any = true ∧
          p'.newChanInfo = ((events.map .rcv).foldl Received.see g).last)) := by
  cases h with
  | none hnew _ => exact ⟨rfl, .inl ⟨rfl, hnew⟩⟩
  | chan c hnew _ => exact ⟨rfl, .inr ⟨rfl, hnew⟩⟩
  | adc _ _ _ _ _ hnew _ => exact ⟨rfl, .inl ⟨rfl, hnew⟩⟩

/-- The end of a pass that finds no change: nothing is published, so all hangs on what was published
before. -/
theorem Received.Tracks.keep {g : Received} {s s' : Core} {l : Label} (h : g.Tracks s)
    (hl : l.ofClient = true) (hpc : s.client.pc = .publish) (hch : s.client.changed = false)
    (hout : ¬ s'.client.InPass) (hcomm : s'.comm = s.comm) :
    (Fresh (s, g) l [.passEnd false] (s', g) ↔ Noticed (s, g) l [.passEnd false] (s', g)) ∧
    (Fresh (s, g) l [.passEnd false] (s', g) → g.Tracks s') := by
  obtain ⟨hbefore, hany, hcur⟩ := h.inPass (.inr hpc)
  rw [← Bool.not_eq_true, ClientThread.changed_iff, not_not, hcur] at hch
  have hfresh : Fresh (s, g) l [.passEnd false] (s', g) ↔ s.comm.chanInfo = g.last := by
    constructor
    · intro hf
      rw [← hcomm]
      exact (hf false (by simp)).1
    · intro heq raised he
      exact ⟨hcomm ▸ heq, fun hne => absurd (heq.symm.trans hbefore) hne⟩
  refine ⟨hfresh.trans ?_, fun hf => ?_⟩
  · cases hgot : g.any with
    | false =>
      -- nothing was received either
      exact ⟨fun _ _ _ htrue => by simp [hgot] at htrue, fun _ => hbefore.trans (hany hgot).symm⟩
    | true =>
      -- what was received equals `old_chan_info`, so it is right only if published already
      rw [hgot, if_pos rfl] at hch
      constructor
      · intro heq _ _ _
        exact .inr heq
      · intro hnoticed
        exact (hnoticed hl hpc hgot).resolve_left (not_not.2 hch)
  · refine ⟨fun _ => ?_, fun hin => absurd hin hout⟩
    rw [hcomm]
    exact hfresh.1 hf

/-- One step of the client thread: whether a pass ends well is decided by whether it notices what it
received. -/
theorem Received.Tracks.client {g : Received} {s s' : Core} {l : Label} {es : List Event}
    (h : g.Tracks s) (hl : l.ofClient = true)
    (hm : ClientMove s.client s.comm s.dataRing s'.client s'.comm s'.dataRing es) :
    (Fresh (s, g) l es (s', es.foldl Received.see g) ↔
      Noticed (s, g) l es (s', es.foldl Received.see g)) ∧
    (Fresh (s, g) l es (s', es.foldl Received.see g) → (es.foldl Received.see g).Tracks s') := by
  obtain ⟨comm', _, dataRing', _, _, _, c', _, _⟩ := s'
  dsimp only at hm
  cases hm with
  | quiet hpc hpc' hinh hnew hold =>
    have hout : ¬ s.client.InPass := ClientThread.not_inPass (by tauto)
    have hout' : ¬ c'.InPass := ClientThread.not_inPass (by tauto)
    refine ⟨⟨fun _ _ hpub => absurd (.inr hpub) hout, fun _ _ he => (by cases he)⟩, fun _ => ?_⟩
    exact ⟨fun _ => h.between hout, fun hin => absurd hin hout'⟩
  | sample hpc =>
    have hout : ¬ s.client.InPass := ClientThread.not_inPass (by simp [hpc])
    refine ⟨⟨fun _ _ hpub => absurd (.inr hpub) hout, fun _ _ he => (by simp at he)⟩, fun _ => ?_⟩
    exact ⟨fun hnot => absurd (.inl rfl) hnot, fun _ => ⟨h.between hout, fun _ => rfl, rfl⟩⟩
  | check t hpc _ hpc' _ _ hold hnew _ hhanded =>
    have hnot : s.client.pc ≠ .publish := by simp [hpc]
    have hin' : c'.InPass := ClientThread.inPass_of_turn hpc'
    refine ⟨⟨fun _ _ hpub => absurd hpub hnot, fun _ _ he => (by simp at he)⟩, ?_⟩
    intro _
    obtain ⟨hbefore, hany, hcur⟩ := h.inPass (.inl hpc)
    obtain ⟨hb', hcases⟩ := hhanded.received g
    refine ⟨fun hout => absurd hin' hout, fun _ => ⟨hbefore.trans hb'.symm, ?_⟩⟩
    rcases hcases with ⟨heq, hsame⟩ | ⟨hgot, hlast⟩
    · -- the turn received nothing
      rw [heq]
      refine ⟨hany, ?_⟩
      rw [hnew, hsame, hold]
      exact hcur
    · exact ⟨fun hnone => by simp [hgot] at hnone, by rw [if_pos hgot, hnew, hlast]⟩
  | raise hpc hch =>
    obtain ⟨-, -, hcur⟩ := h.inPass (.inr hpc)
    obtain ⟨-, hcur, hdiff⟩ := ClientThread.received_of_changed hcur hch
    have hout' : ¬ ({ s.client with oldChanInfo := s.comm.chanInfo, pc := .sending } :
      ClientThread).InPass := ClientThread.not_inPass (by simp)
    refine ⟨⟨fun _ _ _ _ => .inl hdiff, fun _ raised he => ⟨hcur, fun _ => ?_⟩⟩, fun _ => ?_⟩
    · simpa using he
    · exact ⟨fun _ => hcur, fun hin => absurd hin hout'⟩
  | keep hpc hch => exact h.keep hl hpc hch (ClientThread.not_inPass (by simp)) rfl

theorem Received.tracks_init (clientNo failtimer : ℤ) (mem : Memory) :
    Received.none.Tracks (.init clientNo failtimer mem) where
  between _ := rfl
  inPass hin := absurd hin (ClientThread.not_inPass (.inl rfl))

/-- **Which runs publish no stale configuration.**  Every pass ends with the last configuration
received published, and announced if it is another, exactly if what each pass received differs from
`old_chan_info` in sample rate or channels or is published already. -/
theorem fresh_iff_noticed (clientNo failtimer : ℤ) (mem : Memory) (ls : List Label) :
    (proxy.watch Received.see).Always Fresh (.init clientNo failtimer mem, .none) ls ↔
      (proxy.watch Received.see).Always Noticed (.init clientNo failtimer mem, .none) ls := by
  refine Machine.always_iff (fun sg => sg.2.Tracks sg.1)
    (Received.tracks_init clientNo failtimer mem) ?_ ls
  · rintro ⟨s, g⟩ l ⟨s', g'⟩ es htracks hstep
    obtain ⟨hstep, rfl⟩ := Machine.watch_step.1 hstep
    rcases (Core.step_cases hstep).client_cases with ⟨hclient, hinfo, hes, hpc⟩ | ⟨hl, hm⟩
    · have hsee : es.foldl Received.see g = g :=
        Machine.foldl_see_of_ignored (fun e he g => Received.see_of_not_client (hes e he) g) g
      refine ⟨⟨fun _ hl hpub => absurd hpub (hpc hl), fun _ raised he => ?_⟩, fun _ => ?_⟩
      · cases hes _ he
      · change (es.foldl Received.see g).Tracks s'
        rw [hsee]
        exact ⟨by rw [hclient, hinfo]; exact htracks.between,
          by rw [hclient, hinfo]; exact htracks.inPass⟩
    · exact htracks.client hl hm

/-- The configurations A, B, A, each received in a pass of its own: the third is taken for the one
published before the current one, and not published. -/
theorem return_unnoticed :
    ¬ (proxy.watch Received.see).Always Fresh (.init (-1) 0 .zero, .none)
      (clientConnects ++ clientPass (chanInfoText ⟨100, 4, 1⟩) 2 ++
        clientPass (chanInfoText ⟨200, 4, 1⟩) 2 ++ clientPass (chanInfoText ⟨100, 4, 1⟩) 2) := by
  decide +kernel

end SdrProxy
