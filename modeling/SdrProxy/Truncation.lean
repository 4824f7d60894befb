import SdrProxy.Progress

/-!
# A truncated packet in front of a channel info

The comment in `check_data` says what to do when an incomplete packet is followed by a channel info:
drop the packet and take the text.  The branch waits for a result -2 of `get_adc_data`.

* `getAdcData_rv_ne` : there is no such result, so the branch is never taken;
* `Truncated` : the rings that the comment is about;
* `truncated_not_recovered` : on none of them does any number of passes take the text.
-/

namespace SdrProxy

open Relation

/-- **`get_adc_data` never returns -2.** -/
theorem getAdcData_rv_ne {index rv : ℤ} {junk : Bfr} {p p' : RcvPath} {events : List RcvEvent}
    (h : getAdcData index junk p = .ok (rv, p', events)) : rv ≠ -2 := by
  rcases (getAdcData_cases h).1 with rfl | rfl <;> decide

/-- What is on the ring: bytes `g` without a packet token, a packet `a` whose length field promises
more than there is, and a valid text at the first channel token, with the bytes `rest` behind it. -/
structure Truncated (s g a text rest : List UInt8) (c : ChannelInfo) : Prop where
  eq : s = g ++ (a ++ (text ++ rest))
  garbage : findSub ADCTOKEN g = none
  packet : ADCTOKEN <+: a
  promised : (a ++ (text ++ rest)).length < PREHDRLEN + datalen (a ++ (text ++ rest))
  first : findSub CHANTOKEN s = some (g.length + a.length)
  valid : ValidText text c

/-- The documented recovery: passes without new bytes discard what stands before the text, accept it
and leave what follows it. -/
def Recovered (p : RcvPath) (c : ChannelInfo) (rest : List UInt8) : Prop :=
  ∃ p', ReflTransGen Pass p p' ∧ p'.newChanInfo = c ∧ p'.ring.contents = rest

variable {s g a text rest : List UInt8} {c : ChannelInfo} {p p' : RcvPath}

theorem unbordered_adcToken : Unbordered ADCTOKEN := by decide

namespace Truncated

theorem adcAt_eq (h : Truncated s g a text rest c) : adcAt false s = some g.length := by
  rw [h.eq]
  exact unbordered_adcToken.findSub_append h.garbage (h.packet.trans (List.prefix_append _ _))

/-- The turn goes to the packet, although the text behind it is whole. -/
theorem turn_eq (h : Truncated s g a text rest c) :
    turn false s = none ∨ turn false s = some (idle (a ++ (text ++ rest))) := by
  have hc : ∀ i, chanAt s = some i → g.length ≤ i := by
    intro i hi
    have hfirst := h.first.symm.trans (chanAt_eq_some.1 hi).1
    have := Option.some.inj hfirst
    omega
  rw [turn_eq_adc h.adcAt_eq hc, h.eq, List.drop_left]
  have hpromised := h.promised
  have hhdr : PREHDRLEN < (a ++ (text ++ rest)).length := by
    have htok := h.packet.length_le
    have hlen := h.valid.length_eq
    have h4 : ADCTOKEN.length = 4 := rfl
    have h8 : PREHDRLEN = 8 := rfl
    have h25 : CHANINFOLEN = 25 := rfl
    rw [List.length_append, List.length_append]
    omega
  have hall : ¬ PREHDRLEN + datalen (a ++ (text ++ rest)) ≤ (a ++ (text ++ rest)).length := by
    omega
  by_cases hlow : (a ++ (text ++ rest)).getD 4 0 = 0
  · simp only [adcTurn, hhdr, hlow, ↓reduceIte, true_or]
  · simp only [adcTurn, hhdr, hlow, hall, ↓reduceIte]
    exact .inr rfl

/-- What a turn leaves is of the same kind, without the bytes in front. -/
theorem tail (h : Truncated s g a text rest c) :
    Truncated (a ++ (text ++ rest)) [] a text rest c where
  eq := rfl
  garbage := by decide
  packet := h.packet
  promised := h.promised
  first := by
    have hdrop : s.drop g.length = a ++ (text ++ rest) := by rw [h.eq, List.drop_left]
    have hfirst := findSub_drop h.first (Nat.le_add_right _ _)
    rw [hdrop, Nat.add_sub_cancel_left] at hfirst
    rw [hfirst, List.length_nil, Nat.zero_add]
  valid := h.valid

/-- **A pass throws away the bytes in front of the packet, and that is all.** -/
theorem pass (h : Truncated p.ring.contents g a text rest c) (hpass : Pass p p') :
    p'.newChanInfo = p.newChanInfo ∧ p'.dataRing = p.dataRing ∧
      Truncated p'.ring.contents [] a text rest c := by
  obtain ⟨junk, again, events, hloop⟩ := hpass.loop
  obtain ⟨t, p₁, events₁, ht, hagrees, hend⟩ := checkDataLoop_ok hloop
  obtain rfl : t = idle (a ++ (text ++ rest)) := by
    rcases h.turn_eq with hfail | hidle
    · rw [hfail] at ht
      cases ht
    · exact Option.some.inj (ht.symm.trans hidle)
  rcases hend with ⟨-, -, rfl, -⟩ | ⟨hagain, -⟩
  · have hcont : p'.ring.contents = a ++ (text ++ rest) := hagrees.contents
    rw [hcont]
    cases hagrees.handed with
    | none hinfo hring => exact ⟨hinfo, hring, h.tail⟩
  · cases hagain

theorem passes (h : Truncated p.ring.contents g a text rest c) (hrun : ReflTransGen Pass p p') :
    p'.newChanInfo = p.newChanInfo ∧ p'.dataRing = p.dataRing ∧
      ∃ g', Truncated p'.ring.contents g' a text rest c := by
  induction hrun with
  | refl => exact ⟨rfl, rfl, g, h⟩
  | tail _ hpass ih =>
    obtain ⟨hinfo, hring, g', h'⟩ := ih
    obtain ⟨hinfo', hring', h''⟩ := h'.pass hpass
    exact ⟨hinfo'.trans hinfo, hring'.trans hring, [], h''⟩

theorem length_lt (h : Truncated s g a text rest c) : rest.length < s.length := by
  have hlen := h.valid.length_eq
  have h25 : CHANINFOLEN = 25 := rfl
  rw [h.eq, List.length_append, List.length_append, List.length_append]
  omega

theorem not_recovered (h : Truncated p.ring.contents g a text rest c) : ¬ Recovered p c rest := by
  rintro ⟨p', hrun, -, hrest⟩
  obtain ⟨-, -, g', h'⟩ := h.passes hrun
  have := h'.length_lt
  rw [hrest] at this
  omega

end Truncated

/-- **A text behind a truncated packet is never taken.**  Whatever the packet promises and wherever
the text stands, no number of passes recovers it: `new_chan_info` and the data ring stay as they
are, and the text stays on the ring with what follows it. -/
theorem truncated_not_recovered (h : Truncated p.ring.contents g a text rest c) :
    ¬ Recovered p c rest ∧ ∀ p', ReflTransGen Pass p p' → p'.newChanInfo = p.newChanInfo ∧
      p'.dataRing = p.dataRing ∧ text ++ rest <:+ p'.ring.contents := by
  refine ⟨h.not_recovered, ?_⟩
  intro p' hrun
  obtain ⟨hinfo, hring, g', h'⟩ := h.passes hrun
  refine ⟨hinfo, hring, g' ++ a, ?_⟩
  rw [h'.eq, List.append_assoc]

/-- A byte, the header of a packet of 208 bytes, a text, and another byte. -/
def cutShort : RcvPath where
  ring := ((RingSet.alloc BFRSIZE fun _ => 0).store
    ([0] ++ ((ADCTOKEN ++ [200, 0, 3, 0]) ++ (chanInfoText ⟨100, 4, 1⟩ ++ [0x37])))).2
  newChanInfo := .zero
  dataRing := .alloc (sdrPktSize .zero) fun _ => ⟨⟨0, 0, 0, false⟩, fun _ => 0⟩

/-- It is a ring as the comment has it. -/
theorem truncated_cutShort : Truncated cutShort.ring.contents [0] (ADCTOKEN ++ [200, 0, 3, 0])
    (chanInfoText ⟨100, 4, 1⟩) [0x37] ⟨100, 4, 1⟩ where
  eq := by decide +kernel
  garbage := by decide
  packet := by decide
  promised := by decide +kernel
  first := by decide +kernel
  valid := ⟨by decide +kernel, by decide +kernel, by decide +kernel⟩

/-- The text on it is not taken. -/
theorem cutShort_not_recovered :
    Truncated cutShort.ring.contents [0] (ADCTOKEN ++ [200, 0, 3, 0]) (chanInfoText ⟨100, 4, 1⟩)
      [0x37] ⟨100, 4, 1⟩ ∧ ¬ Recovered cutShort ⟨100, 4, 1⟩ [0x37] :=
  ⟨truncated_cutShort, truncated_cutShort.not_recovered⟩

/-- It stays on the ring. -/
theorem cutShort_stays : ¬ Recovered cutShort ⟨100, 4, 1⟩ [0x37] ∧
    ∀ p', ReflTransGen Pass cutShort p' → p'.newChanInfo = cutShort.newChanInfo ∧
      p'.dataRing = cutShort.dataRing ∧
      chanInfoText ⟨100, 4, 1⟩ ++ [0x37] <:+ p'.ring.contents :=
  truncated_not_recovered truncated_cutShort

end SdrProxy
