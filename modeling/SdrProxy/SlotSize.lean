import SdrProxy.Fragmentation
import SdrProxy.Items
import SdrProxy.Cache

/-!
# Packets and the size of their slots

`RING_STORE` copies as many bytes as the length field of a packet says into slots that were
allocated for a channel configuration.

* `StoresFit` : a step stores no packet that is longer than a slot;
* `RingFits` : a pass that stores packets starts with no packet on the ring that is longer than a
  slot;
* `stores_fit` : in a run whose passes all start so, every packet fits its slot;
* `oversized_store` : a packet that arrives before the first channel info does not fit.
-/

namespace SdrProxy

/-- The slots have room for `n` bytes. -/
def DataRing.Room (n : ℕ) (r : DataRing) : Prop := ∃ size ∈ r.slotSize, n ≤ size

instance (n : ℕ) (r : DataRing) : Decidable (r.Room n) :=
  inferInstanceAs (Decidable (∃ size ∈ r.slotSize, n ≤ size))

/-- An event is no store of a packet that is longer than a slot. -/
def Event.Fits (dataRing : DataRing) : Event → Prop
  | rcv (.stored element _ _) => dataRing.Room element.packetLen
  | _ => True

instance (dataRing : DataRing) (e : Event) : Decidable (e.Fits dataRing) := by
  unfold Event.Fits
  split <;> infer_instance

/-- A step stores no packet that is longer than a slot. -/
def StoresFit (s : Core) (_ : Label) (es : List Event) (_ : Core) : Prop :=
  ∀ e ∈ es, e.Fits s.dataRing

instance (s : Core) (l : Label) (es : List Event) (s' : Core) : Decidable (StoresFit s l es s') :=
  inferInstanceAs (Decidable (∀ e ∈ es, e.Fits s.dataRing))

/-- A pass that stores packets starts with no packet on the ring that is longer than a slot. -/
def RingFits (s : Core) (l : Label) (_ : List Event) (_ : Core) : Prop :=
  s.StartsPass l → EachPacket (fun _ _ => ()) (fun _ pkt => s.dataRing.Room pkt.length) ()
    (items s.client.rcvRing.contents)

instance (s : Core) (l : Label) (es : List Event) (s' : Core) : Decidable (RingFits s l es s') :=
  inferInstanceAs (Decidable (_ → _))

/-- In a run in which every pass that stores packets starts with none that is longer than a slot,
**every packet fits its slot**. -/
theorem stores_fit (clientNo failtimer : ℤ) (mem : Memory) (ls : List Label)
    (h : proxy.Always RingFits (.init clientNo failtimer mem) ls) :
    proxy.Always StoresFit (.init clientNo failtimer mem) ls := by
  -- the invariant: what the pass has still to store fits
  refine Machine.always_imp (fun s => s.Handshake ∧ s.RestMeets (fun _ _ => ())
    (fun _ pkt => s.dataRing.Room pkt.length) ()) ?_ ?_ ls h
  · exact ⟨Core.handshake_init _ _ _, Core.restMeets_init _ _ _⟩
  · rintro s l s' es ⟨hshake, hrest⟩ hstep hfits
    have hm := Core.step_cases hstep
    obtain ⟨hstores, hrest'⟩ := hrest.step hm hfits
    refine ⟨⟨hshake.step hm, hrest'.imp ?_⟩, ?_⟩
    · -- the slots stay as they are until the pass is over
      intro hs _ pkt hroom
      rwa [DataRing.Room, hshake.slotSize hm hs]
    · intro e he
      unfold Event.Fits
      split
      · obtain ⟨-, hlen, hroom⟩ := hstores _ _ _ he
        rwa [hlen]
      · trivial

/-- A packet of 31 bytes that arrives when the slots were allocated for packets of 51. -/
theorem stores_fit_one :
    let pkt := (Message.adc ⟨0, List.replicate 22 0, by decide, by decide, by decide⟩).encode
    proxy.Always StoresFit (.init (-1) 0 .zero)
      (clientConnects ++ clientPass (chanInfoText ⟨10, 1, 1⟩) 2 ++ mainSteps 7 ++
        clientPass pkt 2) :=
  stores_fit _ _ _ _ (by decide +kernel)

/-- A packet that arrives before the first channel info: 32 bytes for a slot of 31. -/
theorem oversized_store :
    let pkt := (Message.adc ⟨0, List.replicate 23 0, by decide, by decide, by decide⟩).encode
    ¬ proxy.Always StoresFit (.init (-1) 0 .zero) (clientConnects ++ clientPass pkt 2) := by
  decide +kernel

end SdrProxy
