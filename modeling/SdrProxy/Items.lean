import SdrProxy.Moves

/-!
# What a pass finds on the ring

The channel infos and packets that a pass which stores packets hands on, read off the bytes that the
ring holds when the pass starts (`items`), and conditions on all its packets (`EachPacket`).

* `checkData_items` : they are what `check_data` hands on;
* `items_eq` : the items of a pass are that of its first turn and those of the rest;
* `EachPacket.turn` : a condition on the packets of a pass holds of the packet of its first turn,
  and goes on holding for the rest;
* `Core.RestMeets.step` : a condition that is met when a pass starts is met by every packet that it
  stores, however the steps of the other threads fall;
* `Core.confValid_always` : what is served has been taken from a ring by a pass, and is valid.
-/

namespace SdrProxy

/-- What at most `fuel` turns hand on. -/
def itemsLoop : ℕ → List UInt8 → List Item
  | 0, _ => []
  | fuel + 1, s =>
    match turn false s with
    | none => []
    | some t => t.item.toList ++ if t.again then itemsLoop fuel t.rest else []

/-- What a pass that stores packets hands on. -/
def items (s : List UInt8) : List Item := itemsLoop (s.length + 1) s

theorem itemsLoop_stable {fuel : ℕ} {s : List UInt8} (h : s.length < fuel) :
    itemsLoop fuel s = items s := by
  have hstable : ∀ m n (s : List UInt8), s.length < m → s.length < n →
      itemsLoop m s = itemsLoop n s := by
    intro m
    induction m with
    | zero => intro n s hm _; omega
    | succ m ih =>
      intro n s hm hn
      obtain ⟨n, rfl⟩ : ∃ k, n = k + 1 := ⟨n - 1, by omega⟩
      simp only [itemsLoop]
      cases ht : turn false s with
      | none => rfl
      | some t =>
        dsimp only
        by_cases hagain : t.again = true
        · -- the turn has taken bytes, so both fuels still suffice
          have := turn_length ht hagain
          rw [if_pos hagain, if_pos hagain, ih n t.rest (by omega) (by omega)]
        · rw [if_neg hagain, if_neg hagain]
  exact hstable _ _ s h (Nat.lt_succ_self _)

/-- The items of a pass are that of its first turn and those of the rest. -/
theorem items_eq {s : List UInt8} {t : Turn} (h : turn false s = some t) :
    items s = t.item.toList ++ if t.again then items t.rest else [] := by
  rw [items, itemsLoop]
  simp only [h]
  congr 1
  split_ifs with hagain
  · have := turn_length h hagain
    exact itemsLoop_stable (by omega)
  · rfl

theorem checkDataLoop_items {junk : ℕ → Bfr} {fuel : ℕ} {p p' : RcvPath} {again : Bool}
    {events : List RcvEvent} (h : checkDataLoop false junk fuel p = .ok (again, p', events)) :
    events.map RcvEvent.item = itemsLoop fuel p.ring.contents := by
  induction fuel generalizing p events with
  | zero =>
    cases h
    rfl
  | succ fuel ih =>
    obtain ⟨t, p₁, events₁, ht, hagrees, hend⟩ := checkDataLoop_ok h
    simp only [itemsLoop, ht, ← hagrees.handed.map_item]
    rcases hend with ⟨hstop, -, -, rfl⟩ | ⟨hagain, events₂, hrest, rfl⟩
    · simp [hstop]
    · rw [if_pos hagain, List.map_append, ih hrest, hagrees.contents]

/-- **The items are what `check_data` hands on.** -/
theorem checkData_items {junk : ℕ → Bfr} {p p' : RcvPath} {events : List RcvEvent}
    (h : checkData false junk p = .ok (p', events)) :
    events.map RcvEvent.item = items p.ring.contents := by
  obtain ⟨again, p₁, hloop, -⟩ := checkData_ok h
  rw [checkDataLoop_items hloop, items, RingSet.length_contents]

theorem acceptedInfo_valid {text : List UInt8} {c : ChannelInfo} (h : acceptedInfo text = some c) :
    c.Valid := by
  unfold acceptedInfo at h
  split at h
  · split_ifs at h with hcheck
    obtain rfl := Option.some.inj h
    exact ChannelInfo.valid_of_check hcheck
  · cases h

theorem adcTurn_item_ne {s : List UInt8} {t : Turn} {c : ChannelInfo} (h : adcTurn s = some t) :
    t.item ≠ some (.chan c) := by
  unfold adcTurn at h
  dsimp only at h
  split_ifs at h <;> obtain rfl := Option.some.inj h <;> simp

theorem chanTurn_item {s : List UInt8} {c : ChannelInfo} (h : (chanTurn s).item = some (.chan c)) :
    c.Valid := by
  unfold chanTurn at h
  split_ifs at h
  cases hacc : acceptedInfo (s.take CHANINFOLEN) with
  | none => simp [hacc] at h
  | some c' =>
    obtain rfl : c' = c := by simpa [hacc] using h
    exact acceptedInfo_valid hacc

theorem item_valid {inhibitAdc : Bool} {s : List UInt8} {t : Turn} {c : ChannelInfo}
    (h : turn inhibitAdc s = some t) (hitem : t.item = some (.chan c)) : c.Valid := by
  rcases turn_cases inhibitAdc s with ⟨-, -, heq⟩ | ⟨i, -, -, heq⟩ | ⟨a, -, -, heq⟩
  · rw [heq] at h
    obtain rfl := Option.some.inj h
    cases hitem
  · rw [heq] at h
    obtain rfl := Option.some.inj h
    exact chanTurn_item hitem
  · rw [heq] at h
    exact absurd hitem (adcTurn_item_ne h)

theorem chanTurn_item_ne (s pkt : List UInt8) : (chanTurn s).item ≠ some (.adc pkt) := by
  unfold chanTurn
  split_ifs
  · cases acceptedInfo (s.take CHANINFOLEN) <;> simp
  · simp

/-- An inhibited pass stores no packet. -/
theorem item_ne_of_inhibited {s pkt : List UInt8} {t : Turn} (h : turn true s = some t) :
    t.item ≠ some (.adc pkt) := by
  rcases turn_cases true s with ⟨-, -, heq⟩ | ⟨c, -, -, heq⟩ | ⟨a, ha, -, -⟩
  · rw [heq] at h
    obtain rfl := Option.some.inj h
    simp
  · rw [heq] at h
    obtain rfl := Option.some.inj h
    exact chanTurn_item_ne _ _
  · cases ha

/-! ### Conditions on the packets of a pass -/

section EachPacket

variable {G : Type*} {note : G → ChannelInfo → G} {P : G → List UInt8 → Prop}

/-- Every packet among the items meets `P`, given a record that is updated with the channel infos
in front of it. -/
def EachPacket (note : G → ChannelInfo → G) (P : G → List UInt8 → Prop) : G → List Item → Prop
  | _, [] => True
  | g, .chan c :: l => EachPacket note P (note g c) l
  | g, .adc pkt :: l => P g pkt ∧ EachPacket note P g l

instance decidableEachPacket (note : G → ChannelInfo → G) (P : G → List UInt8 → Prop)
    [∀ g pkt, Decidable (P g pkt)] : (g : G) → (l : List Item) → Decidable (EachPacket note P g l)
  | _, [] => .isTrue trivial
  | g, .chan c :: l => decidableEachPacket note P (note g c) l
  | g, .adc pkt :: l =>
    have := decidableEachPacket note P g l
    inferInstanceAs (Decidable (P g pkt ∧ EachPacket note P g l))

theorem EachPacket.imp {P' : G → List UInt8 → Prop} {g : G} {l : List Item}
    (h : EachPacket note P g l) (hP : ∀ g pkt, P g pkt → P' g pkt) : EachPacket note P' g l := by
  induction l generalizing g with
  | nil => trivial
  | cons item l ih =>
    cases item with
    | chan c => exact ih h
    | adc pkt => exact ⟨hP g pkt h.1, ih h.2⟩

/-- The record after a turn. -/
def afterItem (note : G → ChannelInfo → G) (g : G) : Option Item → G
  | some (.chan c) => note g c
  | _ => g

/-- One turn of a pass whose packets meet a condition. -/
theorem EachPacket.turn {g : G} {s : List UInt8} {t : Turn} (h : EachPacket note P g (items s))
    (ht : SdrProxy.turn false s = some t) :
    (∀ pkt, t.item = some (.adc pkt) → P g pkt) ∧
      (t.again = true → EachPacket note P (afterItem note g t.item) (items t.rest)) := by
  rw [items_eq ht] at h
  cases hitem : t.item with
  | none =>
    rw [hitem] at h
    exact ⟨fun _ hp => (by cases hp), fun hagain => by simpa [hagain, afterItem] using h⟩
  | some item =>
    rw [hitem] at h
    cases item with
    | chan c =>
      exact ⟨fun _ hp => (by cases hp),
        fun hagain => by simpa [hagain, afterItem, EachPacket] using h⟩
    | adc pkt =>
      obtain ⟨hp, hrest⟩ : P g pkt ∧ EachPacket note P g (if t.again then items t.rest else []) := h
      refine ⟨fun pkt' hpkt' => ?_, fun hagain => by simpa [hagain, afterItem] using hrest⟩
      obtain rfl : pkt = pkt' := by simpa using hpkt'
      exact hp

/-! ### The packets a pass has still to store -/

/-- The record after an event. -/
def noteEvent (note : G → ChannelInfo → G) (g : G) : Event → G
  | .rcv (.accepted c) => note g c
  | _ => g

theorem Handed.stored {item : Option Item} {p p' : RcvPath} {events : List RcvEvent}
    {element : PacketInfo} {pkt : List UInt8} {ret : ℤ} (h : Handed item p p' events)
    (he : .stored element pkt ret ∈ events) :
    item = some (.adc pkt) ∧ element.packetLen = pkt.length := by
  cases h with
  | none _ _ => cases he
  | chan c _ _ => simp at he
  | adc element' pktImg pkt' ret' himg _ _ =>
    obtain ⟨rfl, rfl, rfl⟩ := by simpa using he
    exact ⟨rfl, by rw [← himg, Bfr.length_read]⟩

theorem Handed.foldl_note {item : Option Item} {p p' : RcvPath} {events : List RcvEvent} {g : G}
    (h : Handed item p p' events) :
    (events.map Event.rcv).foldl (noteEvent note) g = afterItem note g item := by
  cases h <;> rfl

namespace Core

variable {s s' : Core} {l : Label} {es : List Event} {g : G}

/-- The step starts a pass that stores packets. -/
def StartsPass (s : Core) (l : Label) : Prop :=
  l.ofClient = true ∧ s.client.pc = .sample ∧ s.comm.chanChange = false

instance (s : Core) (l : Label) : Decidable (s.StartsPass l) :=
  inferInstanceAs (Decidable (_ ∧ _ ∧ _))

/-- The packets that a pass has still to store meet a condition. -/
structure RestMeets (note : G → ChannelInfo → G) (P : G → List UInt8 → Prop) (g : G) (s : Core) :
    Prop where
  each : s.client.pc = .checking → s.client.inhibitAdc = false →
    EachPacket note P g (items s.client.rcvRing.contents)

theorem restMeets_of_pc (h : s.client.pc ≠ .checking) : RestMeets note P g s :=
  ⟨fun hpc => absurd hpc h⟩

theorem restMeets_of_not_storing (h : ¬ s.Storing) : RestMeets note P g s :=
  ⟨fun hpc hinh => absurd ⟨.inl hpc, hinh⟩ h⟩

theorem restMeets_init (clientNo failtimer : ℤ) (mem : Memory) :
    RestMeets note P g (init clientNo failtimer mem) :=
  restMeets_of_pc (show ClientPc.start ≠ .checking by decide)

theorem RestMeets.imp {P' : G → List UInt8 → Prop} (h : RestMeets note P g s)
    (hP : s.Storing → ∀ g pkt, P g pkt → P' g pkt) : RestMeets note P' g s :=
  ⟨fun hpc hinh => (h.each hpc hinh).imp (hP ⟨.inl hpc, hinh⟩)⟩

/-- A packet is stored by a pass that is not inhibited, and is the next one on its ring. -/
theorem Move.stored_cases {element : PacketInfo} {pkt : List UInt8} {ret : ℤ}
    (hm : s.Move l s' es) (he : .rcv (.stored element pkt ret) ∈ es) :
    s.client.pc = .checking ∧ s.client.inhibitAdc = false ∧ element.packetLen = pkt.length ∧
      ∃ t, turn false s.client.rcvRing.contents = some t ∧ t.item = some (.adc pkt) := by
  cases hm with
  | fail msg _ => cases he
  | server _ _ hserver => cases hserver <;> simp at he
  | main hmain => cases hmain <;> simp at he
  | client hclient =>
    cases hclient with
    | quiet _ _ _ _ _ => cases he
    | sample _ => simp at he
    | raise _ _ => simp at he
    | keep _ _ => simp at he
    | check t hpc ht _ _ _ _ _ _ hhanded =>
      obtain ⟨e, he, heq⟩ := List.mem_map.1 he
      cases heq
      obtain ⟨hitem, hlen⟩ := hhanded.stored he
      cases hinh : s.client.inhibitAdc with
      | true =>
        rw [hinh] at ht
        exact absurd hitem (item_ne_of_inhibited ht)
      | false =>
        rw [hinh] at ht
        exact ⟨hpc, rfl, hlen, t, ht, hitem⟩

/-- **The packets of a pass that starts well are stored well.** -/
theorem RestMeets.step (h : RestMeets note P g s) (hm : s.Move l s' es)
    (hstart : s.StartsPass l → EachPacket note P g (items s.client.rcvRing.contents)) :
    (∀ element pkt ret, .rcv (.stored element pkt ret) ∈ es →
      s.Storing ∧ element.packetLen = pkt.length ∧ P g pkt) ∧
      RestMeets note P (es.foldl (noteEvent note) g) s' := by
  constructor
  · intro element pkt ret he
    obtain ⟨hpc, hinh, hlen, t, ht, hitem⟩ := hm.stored_cases he
    exact ⟨⟨.inl hpc, hinh⟩, hlen, ((h.each hpc hinh).turn ht).1 pkt hitem⟩
  cases hm with
  | fail msg _ => exact ⟨h.each⟩
  | server _ _ hserver => cases hserver <;> exact ⟨h.each⟩
  | main hmain => cases hmain <;> exact ⟨h.each⟩
  | client hclient =>
    cases hclient with
    | quiet _ hpc' _ _ _ =>
      apply restMeets_of_pc
      rcases hpc' with hpc' | hpc' | hpc' <;> simp [hpc']
    | sample hpc => exact ⟨fun _ hinh => hstart ⟨rfl, hpc, hinh⟩⟩
    | raise _ _ => exact restMeets_of_pc (by simp)
    | keep _ _ => exact restMeets_of_pc (by simp)
    | check t hpc ht hpc' hcont' hinh' _ _ _ hhanded =>
      refine ⟨?_⟩
      intro hpc'' hinh
      rw [hinh'] at hinh
      rw [hinh] at ht
      -- the pass goes on only if the loop does
      have hagain : t.again = true := by
        by_contra hnot
        simp [hpc', hnot] at hpc''
      rw [hhanded.foldl_note, hcont', if_pos hagain]
      exact ((h.each hpc hinh).turn ht).2 hagain

end Core

end EachPacket

/-! ### The configuration that is served -/

namespace Core

variable {s s' : Core} {l : Label} {es : List Event}

/-- The configurations that are handed on have passed `check_channel_info`. -/
structure ConfValid (s : Core) : Prop where
  /-- A pass starts with the old configuration and takes others from the ring. -/
  pass : s.client.InPass →
    s.client.newChanInfo = s.client.oldChanInfo ∨ s.client.newChanInfo.Valid
  flag : s.comm.chanChange = true → s.comm.chanInfo.Valid
  handled : s.mainPc ≠ .poll → s.comm.chanInfo.Valid
  copied : s.mainPc ≠ .poll ∧ s.mainPc ≠ .copy ∨ s.server ≠ none → s.chanInfoG.Valid

theorem confValid_init (clientNo failtimer : ℤ) (mem : Memory) :
    (init clientNo failtimer mem).ConfValid where
  pass _ := .inl rfl
  flag h := by cases h
  handled h := absurd rfl h
  copied h := by
    rcases h with ⟨h, -⟩ | h
    · exact absurd rfl h
    · exact absurd rfl h

/-- What a pass takes from the ring is valid. -/
theorem valid_of_handed {inhibitAdc : Bool} {t : Turn} {bytes : List UInt8} {p p' : RcvPath}
    {events : List RcvEvent} (ht : turn inhibitAdc bytes = some t)
    (h : Handed t.item p p' events) : p'.newChanInfo = p.newChanInfo ∨ p'.newChanInfo.Valid := by
  generalize hitem : t.item = item at h
  cases h with
  | none hnew _ => exact .inl hnew
  | chan c hnew _ => exact .inr (hnew ▸ item_valid ht hitem)
  | adc _ _ _ _ _ hnew _ => exact .inl hnew

theorem ConfValid.client {c' : ClientThread} {comm' : ClientComm} {dataRing' : DataRing}
    (h : s.ConfValid) (hm : ClientMove s.client s.comm s.dataRing c' comm' dataRing' es) :
    ({ s with client := c', comm := comm', dataRing := dataRing' } : Core).ConfValid := by
  cases hm with
  | quiet _ hpc' _ _ _ =>
    exact { h with pass := fun hin => absurd hin (ClientThread.not_inPass (by tauto)) }
  | sample _ => exact { h with pass := fun _ => .inl rfl }
  | check t hpc ht _ _ _ hold hnew _ hhanded =>
    refine { h with pass := fun _ => ?_ }
    show c'.newChanInfo = c'.oldChanInfo ∨ c'.newChanInfo.Valid
    rw [hold, hnew]
    rcases valid_of_handed ht hhanded with hsame | hvalid
    · rw [hsame]
      exact h.pass (.inl hpc)
    · exact .inr hvalid
  | raise hpc hch =>
    -- only another configuration than the old one is published
    have hvalid : s.client.newChanInfo.Valid := by
      refine (h.pass (.inr hpc)).resolve_left ?_
      intro hsame
      rw [ClientThread.changed_iff, hsame] at hch
      exact hch ⟨rfl, rfl⟩
    exact ⟨fun hin => absurd hin (ClientThread.not_inPass (by simp)), fun _ => hvalid,
      fun _ => hvalid, h.copied⟩
  | keep _ _ => exact { h with pass := fun hin => absurd hin (ClientThread.not_inPass (by simp)) }

theorem ConfValid.main (h : s.ConfValid) (hm : MainMove s s' es) : s'.ConfValid := by
  cases hm with
  | idle _ _ => exact h
  | seen hpc hflag =>
    refine { h with handled := fun _ => h.flag hflag, copied := fun hor => h.copied (.inr ?_) }
    simpa using hor
  | copy hpc =>
    have hvalid := h.handled (by simp [hpc])
    exact { h with handled := fun _ => hvalid, copied := fun _ => hvalid }
  | finish hpc =>
    have hvalid := h.handled (by simp [hpc])
    exact { h with flag := fun hflag => (by cases hflag), handled := fun _ => hvalid,
                   copied := fun _ => hvalid }
  | spawn mem hpc =>
    exact { h with handled := fun hne => absurd rfl hne,
                   copied := fun _ => h.copied (.inl (by simp [hpc])) }
  | closeCmd hpc | join hpc _ | dealloc hpc | alloc mem hpc | clearSrv hpc =>
    exact { h with handled := fun _ => h.handled (by simp [hpc]),
                   copied := fun _ => h.copied (.inl (by simp [hpc])) }

theorem ConfValid.step (h : s.ConfValid) (hm : s.Move l s' es) : s'.ConfValid := by
  cases hm with
  | fail msg _ => exact { h with }
  | main hmain => exact h.main hmain
  | client hclient => exact h.client hclient
  | server hserver _ _ =>
    exact { h with copied := fun _ => h.copied (.inr (by simp [hserver])) }

/-- **The server thread always serves a valid configuration.** -/
theorem confValid_always (clientNo failtimer : ℤ) (mem : Memory) (ls : List Label) :
    proxy.Always (fun s _ _ _ => s.server ≠ none → s.chanInfoG.Valid)
      (init clientNo failtimer mem) ls := by
  refine Machine.always_of_inv ConfValid (confValid_init _ _ _) ?_ ls
  intro s l s' es h hstep
  exact ⟨h.step (step_cases hstep), fun hserver => h.copied (.inr hserver)⟩

end Core

end SdrProxy
