import SdrProxy.Framing
import SdrProxy.Inhibition
import SdrProxy.SlotArray

/-!
# No use of slots that were freed

`RING_DEALLOC` and `RING_ALLOC` of the main loop are two steps, and the mutex of the data ring is
free in between.

* `Core.Retrieves` : the step calls `RING_RETR`, whether it finds a packet or not;
* `SlotsUnused` : between a `RING_DEALLOC` and the `RING_ALLOC` that follows, a step neither stores
  nor retrieves;
* `slotsUnused_always` : it holds in every run.  The flag `CHANCHANGE` keeps packets from being
  stored (`Core.Handshake`), and the server thread has ended (`Core.Stopped`);
* `freed_once` : a `RING_DEALLOC` frees each slot that is allocated once.
-/

namespace SdrProxy

/-- A service of the connection gets to `put_adc_data`. -/
def ReachesAdc (io : ServerIO) (c : ConnectionData) : Prop :=
  c.state ≠ .SRVR_STATE_INACTIVE ∧ (serviceIncoming io c).state = .SRVR_STATE_SENDADC

/-- The step calls `RING_RETR`, which only `put_adc_data` does. -/
def Core.Retrieves (s : Core) (l : Label) : Prop :=
  ∃ io t conn, l = .server io ∧ s.server = some t ∧ t.pc = .service conn ∧
    ReachesAdc io (t.connData conn)

/-- The step calls `RING_STORE`, which only a pass that is not inhibited does. -/
def Core.MayStore (s : Core) (l : Label) : Prop :=
  l.ofClient = true ∧ s.client.pc = .checking ∧ s.client.inhibitAdc = false

/-- Whether the slots are freed, after an event. -/
def freedSee (freed : Bool) : Event → Bool
  | .dealloc => true
  | .alloc _ => false
  | _ => freed

/-- While the slots are freed, the step stores no packet and retrieves none. -/
def SlotsUnused (sg : Core × Bool) (l : Label) (es : List Event) (_ : Core × Bool) : Prop :=
  sg.2 = true → (∀ e ∈ es, e.Stores = false) ∧ ¬ sg.1.MayStore l ∧ ¬ sg.1.Retrieves l

/-- The invariant. -/
structure FreedOk (freed : Bool) (s : Core) : Prop where
  handshake : s.Handshake
  stopped : s.Stopped
  /-- The slots are freed from one step of the main thread to its next. -/
  freed : freed = true → s.mainPc = .alloc

variable {freed : Bool} {s s' : Core} {l : Label} {es : List Event}

theorem freedOk_init (clientNo failtimer : ℤ) (mem : Memory) :
    FreedOk false (.init clientNo failtimer mem) :=
  ⟨Core.handshake_init _ _ _, Core.stopped_init _ _ _, fun h => by cases h⟩

theorem freedSee_rcv (freed : Bool) (events : List RcvEvent) :
    (events.map Event.rcv).foldl freedSee freed = freed := by
  apply Machine.foldl_see_of_ignored
  intro e he g
  obtain ⟨e, -, rfl⟩ := List.mem_map.1 he
  rfl

/-- The main thread is at the allocation when the slots are freed, and goes nowhere else from
there. -/
theorem freed_step (h : freed = true → s.mainPc = .alloc) (hm : s.Move l s' es)
    (hfreed : es.foldl freedSee freed = true) : s'.mainPc = .alloc := by
  cases hm with
  | fail msg _ => exact h hfreed
  | server _ _ hserver =>
    cases hserver <;> exact h hfreed
  | client hclient =>
    cases hclient with
    | check _ _ _ _ _ _ _ _ _ _ =>
      rw [freedSee_rcv] at hfreed
      exact h hfreed
    | _ => exact h hfreed
  | main hmain =>
    cases hmain with
    | dealloc _ => rfl
    | alloc _ _ => cases hfreed
    | _ => simp_all [freedSee]

theorem FreedOk.unused (h : FreedOk freed s) (hm : s.Move l s' es) (hfreed : freed = true) :
    (∀ e ∈ es, e.Stores = false) ∧ ¬ s.MayStore l ∧ ¬ s.Retrieves l := by
  have hpc := h.freed hfreed
  have hnot : ¬ s.Storing := h.handshake.not_storing (by rw [hpc]; rfl)
  refine ⟨?_, ?_, ?_⟩
  · intro e he
    by_contra hstores
    obtain ⟨element, pkt, ret, rfl⟩ := Event.exists_of_stores hstores
    obtain ⟨hcheck, hinh, -⟩ := hm.stored_cases he
    exact hnot ⟨.inl hcheck, hinh⟩
  · rintro ⟨-, hcheck, hinh⟩
    exact hnot ⟨.inl hcheck, hinh⟩
  · rintro ⟨io, t, conn, rfl, ht, htpc, -⟩
    refine h.stopped.not_off ht ?_ (.inl (by rw [hpc]; rfl))
    rw [htpc]
    simp

/-- **The slots are never used while they are freed**: in every run no packet is stored and none is
retrieved between a `RING_DEALLOC` of the main loop and the `RING_ALLOC` that follows. -/
theorem slotsUnused_always (clientNo failtimer : ℤ) (mem : Memory) (ls : List Label) :
    (proxy.watch freedSee).Always SlotsUnused (.init clientNo failtimer mem, false) ls := by
  refine Machine.always_of_inv (fun sg => FreedOk sg.2 sg.1) (freedOk_init _ _ _) ?_ ls
  rintro ⟨s, freed⟩ l ⟨s', freed'⟩ es h hstep
  obtain ⟨hstep, rfl⟩ := Machine.watch_step.1 hstep
  have hm := Core.step_cases hstep
  exact ⟨⟨h.handshake.step hm, h.stopped.step hm, freed_step h.freed hm⟩, h.unused hm⟩

/-! ### The calls of `free` -/

/-- What holds of the slots in every state. -/
structure Core.SlotsLive (s : Core) : Prop where
  ring_ok : s.dataRing.Ok
  /-- The pointers are those that `RING_ALLOC` made. -/
  lt : ∀ p < DATASIZE, s.dataRing.dataStore p < DATASIZE
  /-- The slots are allocated, but from one step of the main thread to its next. -/
  allocated : s.dataRing.slotSize.isSome = true ∨ s.mainPc = .alloc

/-- What a turn hands on only moves pointers. -/
theorem Handed.dataStore_lt {item : Option Item} {p p' : RcvPath} {events : List RcvEvent}
    (h : Handed item p p' events) (hok : p.dataRing.Ok)
    (hlt : ∀ i < DATASIZE, p.dataRing.dataStore i < DATASIZE) :
    ∀ i < DATASIZE, p'.dataRing.dataStore i < DATASIZE := by
  cases h with
  | none _ hsame => rwa [hsame]
  | chan _ _ hsame => rwa [hsame]
  | adc element pktImg pkt ret _ _ hstore =>
    intro i hi
    obtain ⟨j, hj, heq⟩ := DataRing.store_from hok hstore i hi
    rw [heq]
    exact hlt j hj

theorem Core.SlotsLive.step (h : s.SlotsLive) (hm : s.Move l s' es) : s'.SlotsLive := by
  refine ⟨hm.ring_ok h.ring_ok, ?_, ?_⟩
  · cases hm with
    | fail _ _ => exact h.lt
    | server _ _ _ => exact h.lt
    | main hmain =>
      cases hmain with
      | alloc _ _ => exact fun p hp => hp
      | _ => exact h.lt
    | client hclient =>
      cases hclient with
      | check _ _ _ _ _ _ _ _ hdata hhanded =>
        subst hdata
        exact hhanded.dataStore_lt h.ring_ok h.lt
      | _ => exact h.lt
  · cases hm with
    | fail _ _ => exact h.allocated
    | server _ _ _ => exact h.allocated
    | main hmain =>
      cases hmain with
      | dealloc _ => exact .inr rfl
      | alloc _ _ => exact .inl rfl
      | _ => exact .inl (h.allocated.resolve_right (by simp_all))
    | client hclient =>
      cases hclient with
      | check _ _ _ _ _ _ _ _ hdata hhanded =>
        subst hdata
        rcases h.allocated with hsize | hpc
        · exact .inl (by rw [hhanded.slotSize]; exact hsize)
        · exact .inr hpc
      | _ => exact h.allocated

theorem Core.Move.of_dealloc (hm : s.Move l s' es) (h : Event.dealloc ∈ es) :
    s.mainPc = .dealloc ∧ s'.dataRing = s.dataRing.dealloc := by
  cases hm with
  | fail _ _ => cases h
  | server _ _ hserver => cases hserver <;> simp at h
  | client hclient => cases hclient <;> simp at h
  | main hmain =>
    cases hmain with
    | dealloc hpc => exact ⟨hpc, rfl⟩
    | _ => simp at h

/-- **No slot is freed twice**: in every run a `RING_DEALLOC` of the main loop gets through its
calls of `free`. -/
theorem freed_once (clientNo failtimer : ℤ) (mem : Memory) (ls : List Label) :
    proxy.Always (fun s _ es s' => .dealloc ∈ es → s.dataRing.deallocE = .ok s'.dataRing)
      (.init clientNo failtimer mem) ls := by
  refine Machine.always_of_inv Core.SlotsLive ?_ ?_ ls
  · exact ⟨DataRing.ok_alloc _ _, fun p hp => hp, .inl rfl⟩
  · intro s l s' es h hstep
    have hm := Core.step_cases hstep
    refine ⟨h.step hm, fun hdealloc => ?_⟩
    obtain ⟨hpc, hdata⟩ := hm.of_dealloc hdealloc
    rw [hdata]
    exact (h.ring_ok.slotsOk h.lt).deallocE_eq (h.allocated.resolve_right (by simp [hpc]))

end SdrProxy
