import SdrProxy.Moves
import SdrProxy.Fragmentation

/-!
# The slots and the configuration

The main thread copies the published configuration twice, before it reallocates the slots and after,
and clears `CHANCHANGE` with the second copy.

* `Settled` : while the flag is clear after a change was handled, the slots have the size for the
  configuration in `chan_info_g`, and that is the published one;
* `SameSize` : packets have the same size by the second copy as by the first;
* `settled_iff_sameSize` : the first holds in all states of a run exactly if the second holds of all
  changes that are handled in it;
* `lost_update` : a configuration published between the two copies gets slots of the wrong size.
-/

namespace SdrProxy

/-- Whether a change has been handled, after an event. -/
def seeHandled (handled : Bool) : Event → Bool
  | .cleared _ => true
  | _ => handled

/-- While `CHANCHANGE` is clear after a change was handled, the slots have the size for the
configuration in `chan_info_g`, and that is the published one. -/
def Settled (s : Core) (handled : Bool) : Prop :=
  s.comm.chanChange = false → handled = true →
    s.dataRing.slotSize = some (sdrPktSize s.chanInfoG) ∧ s.chanInfoG = s.comm.chanInfo

/-- The state after a step is settled. -/
def StepSettled (_ : Core × Bool) (_ : Label) (_ : List Event) (sg' : Core × Bool) : Prop :=
  Settled sg'.1 sg'.2

/-- When the main thread copies the configuration for the second time, packets have the same size as
by the first copy. -/
def SameSize (sg : Core × Bool) (l : Label) (_ : List Event) (_ : Core × Bool) : Prop :=
  l.ofMain = true → sg.1.mainPc = .finish →
    sdrPktSize sg.1.comm.chanInfo = sdrPktSize sg.1.chanInfoG

instance (s : Core) (handled : Bool) : Decidable (Settled s handled) :=
  inferInstanceAs (Decidable (_ → _ → _ ∧ _))

instance (sg : Core × Bool) (l : Label) (es : List Event) (sg' : Core × Bool) :
    Decidable (StepSettled sg l es sg') := inferInstanceAs (Decidable (Settled _ _))

instance (sg : Core × Bool) (l : Label) (es : List Event) (sg' : Core × Bool) :
    Decidable (SameSize sg l es sg') := inferInstanceAs (Decidable (_ → _ → _))

/-- The invariant, as long as all states were settled. -/
structure Sized (s : Core) (handled : Bool) : Prop where
  handshake : s.Handshake
  settled : Settled s handled
  /-- Between the two copies the slots are those for the first. -/
  finish : s.mainPc = .finish → s.dataRing.slotSize = some (sdrPktSize s.chanInfoG)

variable {s s' : Core} {handled : Bool} {l : Label} {es : List Event}

theorem Sized.init (clientNo failtimer : ℤ) (mem : Memory) :
    Sized (.init clientNo failtimer mem) false where
  handshake := Core.handshake_init _ _ _
  settled _ hhandled := by cases hhandled
  finish hpc := by cases hpc

/-- While the flag is set there is nothing to show. -/
theorem settled_of_flag (h : s.comm.chanChange = true) : Settled s handled := by
  intro hclear
  simp [h] at hclear

theorem Settled.congr (h : Settled s handled) (hcomm : s'.comm = s.comm)
    (hinfo : s'.chanInfoG = s.chanInfoG) (hsize : s'.dataRing.slotSize = s.dataRing.slotSize) :
    Settled s' handled := by
  unfold Settled
  rw [hcomm, hinfo, hsize]
  exact h

/-- Every step but the second copy keeps the state settled. -/
theorem Sized.settled_step (h : Sized s handled) (hm : s.Move l s' es)
    (hnot : l.ofMain = true → s.mainPc ≠ .finish) :
    Settled s' (es.foldl seeHandled handled) ∧
      (s'.mainPc = .finish → s'.dataRing.slotSize = some (sdrPktSize s'.chanInfoG)) := by
  cases hm with
  | fail msg _ => exact ⟨h.settled, h.finish⟩
  | server _ _ hserver => cases hserver <;> exact ⟨h.settled, h.finish⟩
  | client hclient =>
    cases hclient with
    | quiet _ _ _ _ _ => exact ⟨h.settled, h.finish⟩
    | sample _ => exact ⟨h.settled, h.finish⟩
    | @check _ _ _ events t _ _ _ _ _ _ _ hring hhanded =>
      have hsize := hhanded.slotSize
      rw [← hring] at hsize
      have hsee : (events.map Event.rcv).foldl seeHandled handled = handled :=
        Machine.foldl_see_of_ignored (by simp [seeHandled]) handled
      rw [hsee]
      exact ⟨h.settled.congr rfl rfl hsize, fun hpc => hsize.trans (h.finish hpc)⟩
    | raise _ _ => exact ⟨settled_of_flag rfl, h.finish⟩
    | keep _ _ => exact ⟨h.settled, h.finish⟩
  | main hmain =>
    have hflag := h.handshake.handling
    cases hmain with
    | idle _ _ => exact ⟨h.settled, h.finish⟩
    | seen _ _ => exact ⟨h.settled, fun hpc => by cases hpc⟩
    | copy hpc =>
      refine ⟨settled_of_flag (hflag (by rw [hpc]; rfl)), ?_⟩
      intro hpc'
      dsimp only at hpc'
      split_ifs at hpc'
    | closeCmd _ => exact ⟨h.settled, fun hpc => by cases hpc⟩
    | join _ _ => exact ⟨h.settled, fun hpc => by cases hpc⟩
    | dealloc hpc =>
      exact ⟨settled_of_flag (hflag (by rw [hpc]; rfl)), fun hpc => by cases hpc⟩
    | alloc mem hpc => exact ⟨settled_of_flag (hflag (by rw [hpc]; rfl)), fun _ => rfl⟩
    | finish hpc => exact absurd hpc (hnot rfl)
    | clearSrv _ => exact ⟨h.settled, fun hpc => by cases hpc⟩
    | spawn _ _ => exact ⟨h.settled, fun hpc => by cases hpc⟩

/-- **Which runs lose no update.**  Whenever `CHANCHANGE` is clear after a change was handled, the
slots have the size for the configuration in `chan_info_g` and that is the published one, exactly if
with every change packets have the same size by the second copy as by the first. -/
theorem settled_iff_sameSize (clientNo failtimer : ℤ) (mem : Memory) (ls : List Label) :
    (proxy.watch seeHandled).Always StepSettled (.init clientNo failtimer mem, false) ls ↔
      (proxy.watch seeHandled).Always SameSize (.init clientNo failtimer mem, false) ls := by
  refine Machine.always_iff (fun sg => Sized sg.1 sg.2) (Sized.init _ _ _) ?_ ls
  rintro ⟨s, handled⟩ l ⟨s', handled'⟩ es hsized hstep
  obtain ⟨hstep, rfl⟩ := Machine.watch_step.1 hstep
  have hm := Core.step_cases hstep
  have hshake := hsized.handshake.step hm
  by_cases hcopy : l.ofMain = true ∧ s.mainPc = .finish
  · obtain ⟨hl, hpc⟩ := hcopy
    cases hm with
    | client _ => cases hl
    | server _ _ _ => cases hl
    | fail _ hmay => rcases hmay.main hl with hpc' | hpc' <;> simp [hpc] at hpc'
    | main hmain =>
      obtain ⟨rfl, rfl⟩ := hmain.of_finish hpc
      -- the slots are those for the first copy, `chan_info_g` is now the second
      have hsize := hsized.finish hpc
      have hiff : Settled { s with
          chanInfoG := s.comm.chanInfo
          comm := { s.comm with chanChange := false }
          mainPc := .clearSrv } true ↔
            sdrPktSize s.comm.chanInfo = sdrPktSize s.chanInfoG := by
        simp only [Settled, and_true, forall_const]
        rw [hsize, Option.some.injEq]
        exact eq_comm
      refine ⟨hiff.trans ⟨fun heq _ _ => heq, fun hsame => hsame rfl hpc⟩, ?_⟩
      intro hsettled
      exact ⟨hshake, hsettled, fun hpc' => by cases hpc'⟩
  · obtain ⟨hsettled, hfinish⟩ := hsized.settled_step hm fun hl hpc => hcopy ⟨hl, hpc⟩
    exact ⟨⟨fun _ hl hpc => absurd ⟨hl, hpc⟩ hcopy, fun _ => hsettled⟩,
      fun _ => ⟨hshake, hsettled, hfinish⟩⟩

/-- A configuration published between the two copies of the main thread gets the slots of the one
before it. -/
theorem lost_update :
    ¬ (proxy.watch seeHandled).Always StepSettled (.init (-1) 0 .zero, false)
      (clientConnects ++ clientPass (chanInfoText ⟨100, 4, 1⟩) 2 ++ mainSteps 2 ++
        clientPass (chanInfoText ⟨200, 4, 1⟩) 2 ++ mainSteps 3) := by
  decide +kernel

end SdrProxy
