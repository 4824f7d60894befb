import SdrProxy.Fragmentation
import SdrProxy.Items

/-!
# No packets for slots that are to be replaced

Between the acceptance of a channel info that changes the configuration and the end of its handling
by the main thread, packets are not for the slots there are.

* `Awaited` : the configuration the slots were allocated for, and whether a changed one has been
  accepted since;
* `NoneStored` : while a changed configuration awaits its slots, no packet is stored;
* `RingOrdered` : a pass that stores packets starts with none on the ring behind a changed
  configuration, be it on the ring as well or one accepted before;
* `noneStored_of_ordered` : in a run of such passes, no packet is stored while it should not be;
* `stored_behind_change` : a packet behind a channel info is stored in the same pass.
-/

namespace SdrProxy

/-- What the slots are for, and what they are awaited for. -/
structure Awaited where
  /-- The configuration the data ring was last allocated for. -/
  conf : ChannelInfo
  /-- A configuration with another sample rate or other channels was accepted since, and the main
  thread has not yet cleared `CHANCHANGE`. -/
  pending : Bool
  deriving DecidableEq

namespace Awaited

/-- The data ring as `main` allocates it at the start. -/
def none : Awaited := ⟨.zero, false⟩

/-- A changed configuration awaits its slots after `c` is accepted. -/
def note (conf : ChannelInfo) (pending : Bool) (c : ChannelInfo) : Bool := pending || !(c.Same conf)

/-- What an event tells. -/
def see (g : Awaited) : Event → Awaited
  | .rcv (.accepted c) => { g with pending := note g.conf g.pending c }
  | .alloc c => { g with conf := c }
  | .cleared _ => { g with pending := false }
  | _ => g

end Awaited

/-- The event is a `RING_STORE`. -/
def Event.Stores : Event → Bool
  | rcv (.stored _ _ _) => true
  | _ => false

theorem Event.exists_of_stores {e : Event} (h : e.Stores ≠ false) :
    ∃ element pkt ret, e = .rcv (.stored element pkt ret) := by
  unfold Stores at h
  split at h
  · exact ⟨_, _, _, rfl⟩
  · exact absurd rfl h

/-- While a changed configuration awaits its slots, no packet is stored. -/
def NoneStored (sg : Core × Awaited) (_ : Label) (es : List Event) (_ : Core × Awaited) : Prop :=
  sg.2.pending = true → ∀ e ∈ es, e.Stores = false

/-- A pass that stores packets starts with none on the ring behind a changed configuration that
awaits its slots. -/
def RingOrdered (sg : Core × Awaited) (l : Label) (_ : List Event) (_ : Core × Awaited) : Prop :=
  sg.1.StartsPass l → EachPacket (Awaited.note sg.2.conf) (fun pending _ => pending = false)
    sg.2.pending (items sg.1.client.rcvRing.contents)

section

variable (sg : Core × Awaited) (l : Label) (es : List Event) (sg' : Core × Awaited)

instance : Decidable (NoneStored sg l es sg') := inferInstanceAs (Decidable (_ → _))

instance : Decidable (RingOrdered sg l es sg') := inferInstanceAs (Decidable (_ → _))

end

/-- The invariant. -/
structure Awaited.Ok (g : Awaited) (s : Core) : Prop where
  handshake : s.Handshake
  rest : s.RestMeets (note g.conf) (fun pending _ => pending = false) g.pending

variable {g : Awaited} {s s' : Core} {l : Label} {es : List Event}

theorem Awaited.ok_init (clientNo failtimer : ℤ) (mem : Memory) :
    Awaited.none.Ok (.init clientNo failtimer mem) where
  handshake := Core.handshake_init _ _ _
  rest := Core.restMeets_init _ _ _

/-- What the receive path hands on changes the record as the condition on a pass foresees. -/
theorem Awaited.see_rcv (g : Awaited) (events : List RcvEvent) :
    (events.map .rcv).foldl see g =
      ⟨g.conf, (events.map .rcv).foldl (noteEvent (note g.conf)) g.pending⟩ := by
  induction events generalizing g with
  | nil => rfl
  | cons e events ih => cases e <;> exact ih _

/-- The packets that a pass has still to store go on to be in order. -/
theorem Awaited.Ok.rest_step (h : g.Ok s) (hm : s.Move l s' es)
    (hring : RingOrdered (s, g) l es (s', es.foldl see g)) :
    s'.RestMeets (note (es.foldl see g).conf) (fun pending _ => pending = false)
      (es.foldl see g).pending := by
  obtain ⟨-, hrest'⟩ := h.rest.step hm hring
  have hnot := h.handshake.not_storing
  cases hm with
  | fail _ _ => exact hrest'
  | server _ _ hserver => cases hserver <;> exact hrest'
  | main hmain =>
    -- the record changes only while no pass stores packets
    cases hmain with
    | alloc _ hpc => exact Core.restMeets_of_not_storing (hnot (by rw [hpc]; rfl))
    | finish hpc => exact Core.restMeets_of_not_storing (hnot (by rw [hpc]; rfl))
    | _ => exact hrest'
  | client hclient =>
    cases hclient with
    | check _ _ _ _ _ _ _ _ _ _ => rwa [see_rcv]
    | _ => exact hrest'

/-- In a run in which every pass that stores packets starts with none behind a changed
configuration that awaits its slots, **no packet is stored between the acceptance of a changed
configuration and the end of its handling**. -/
theorem noneStored_of_ordered (clientNo failtimer : ℤ) (mem : Memory) (ls : List Label)
    (hring : (proxy.watch Awaited.see).Always RingOrdered
      (.init clientNo failtimer mem, .none) ls) :
    (proxy.watch Awaited.see).Always NoneStored (.init clientNo failtimer mem, .none) ls := by
  refine Machine.always_imp (fun sg => sg.2.Ok sg.1) (Awaited.ok_init _ _ _) ?_ ls hring
  rintro ⟨s, g⟩ l ⟨s', g'⟩ es hok hstep hring
  obtain ⟨hstep, rfl⟩ := Machine.watch_step.1 hstep
  have hm := Core.step_cases hstep
  refine ⟨⟨hok.handshake.step hm, hok.rest_step hm hring⟩, ?_⟩
  intro hpending e he
  by_contra hstores
  obtain ⟨element, pkt, ret, rfl⟩ := Event.exists_of_stores hstores
  have hclear := ((hok.rest.step hm hring).1 element pkt ret he).2.2
  dsimp only at hpending
  simp [hpending] at hclear

/-- A packet that arrives when the main thread has handled the channel info. -/
theorem noneStored_one :
    let pkt := (Message.adc ⟨0, List.replicate 22 0, by decide, by decide, by decide⟩).encode
    (proxy.watch Awaited.see).Always NoneStored (.init (-1) 0 .zero, .none)
      (clientConnects ++ clientPass (chanInfoText ⟨10, 1, 1⟩) 2 ++ mainSteps 7 ++
        clientPass pkt 2) :=
  noneStored_of_ordered _ _ _ _ (by decide +kernel)

/-- A packet that arrives together with the channel info in front of it is stored in the same
pass. -/
theorem stored_behind_change :
    let pkt := (Message.adc ⟨0, List.replicate 22 0, by decide, by decide, by decide⟩).encode
    ¬ (proxy.watch Awaited.see).Always NoneStored (.init (-1) 0 .zero, .none)
      (clientConnects ++ clientPass (chanInfoText ⟨10, 1, 1⟩ ++ pkt) 3) := by
  decide +kernel

end SdrProxy
