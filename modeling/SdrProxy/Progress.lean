import SdrProxy.Scan
import Mathlib.Logic.Relation

/-!
# When the receive path wedges

`client_rcv_to_ring` asks for bytes only if the receive ring has room, so a full ring that
`check_data` leaves as it is stays full for good.

* `Pass`, `Stuck` : one run of `check_data` with `inhibit_adc` clear, and a ring it leaves alone;
* `exists_stuck` : run without new bytes, `check_data` comes to such a ring or to a `fail`;
* `neverWedged_iff` : which rings have room then: all but the full ones that hold no token, or an
  unparsable first `"SPS: "` and no packet token, or a packet at the front that is longer than the
  ring.
-/

namespace SdrProxy

open Relation

/-- `check_data` with `inhibit_adc` clear can take `p` to `p'`. -/
def Pass (p p' : RcvPath) : Prop := ∃ junk events, checkData false junk p = .ok (p', events)

/-- `check_data` makes no progress. -/
def Stuck (p : RcvPath) : Prop := ∃ p', Pass p p' ∧ p'.ring.contents = p.ring.contents

/-- Once `check_data` has been run until it stops making progress, the ring has a free byte. -/
def NeverWedged (p : RcvPath) : Prop :=
  ∀ p', ReflTransGen Pass p p' → Stuck p' → 0 < p'.ring.bytesFree

/-- A full ring on which nothing can be taken: there is neither a packet token nor a channel text
behind the first channel token, or a packet stands at the front that the ring cannot hold. -/
def Wedged (s : List UInt8) : Prop :=
  s.length = BFRSIZE ∧
    ((chanAt s = none ∧ findSub ADCTOKEN s = none) ∨
      (findSub ADCTOKEN s = some 0 ∧ s.getD 4 0 ≠ 0 ∧ BFRSIZE < PREHDRLEN + datalen s))

/-- The turn that takes nothing. -/
def idle (s : List UInt8) : Turn := ⟨false, s, none⟩

variable {s : List UInt8} {t : Turn} {p p' : RcvPath} {inhibitAdc : Bool}

/-- A text that is there is taken, whether it is accepted or not. -/
theorem chanTurn_length_lt (h : CHANINFOLEN ≤ s.length) :
    (chanTurn s).rest.length < s.length := by
  have hpos : 0 < CHANINFOLEN := by decide
  simp only [chanTurn, h, ↓reduceIte]
  cases acceptedInfo (s.take CHANINFOLEN) <;> simp only [List.length_drop] <;> omega

theorem adcTurn_eq_idle (h : adcTurn s = some t) :
    t = idle s ∨ t.rest.length < s.length := by
  have hpre : PREHDRLEN = 8 := rfl
  unfold adcTurn at h
  dsimp only at h
  split_ifs at h <;> obtain rfl := Option.some.inj h
  · exact .inr (by simp only [List.length_drop]; omega)
  · exact .inr (by simp only [List.length_drop]; omega)
  · exact .inl rfl
  · exact .inl rfl

theorem turn_eq_idle (h : turn inhibitAdc s = some t) :
    t = idle s ∨ t.rest.length < s.length := by
  rcases turn_cases inhibitAdc s with ⟨-, -, heq⟩ | ⟨c, hc, -, heq⟩ | ⟨a, -, -, heq⟩
  · exact .inl (Option.some.inj (h.symm.trans heq))
  · have htext := (chanAt_eq_some.1 hc).2.1
    have hpos : 0 < CHANINFOLEN := by decide
    obtain rfl := Option.some.inj (h.symm.trans heq)
    have hlt := chanTurn_length_lt (s := s.drop c) (by rw [List.length_drop]; omega)
    rw [List.length_drop] at hlt
    exact .inr (by omega)
  · rcases adcTurn_eq_idle (heq ▸ h) with rfl | hlt
    · -- a packet that is not whole is left, the bytes before it are gone
      rcases Nat.eq_zero_or_pos a with rfl | hpos
      · exact .inl (by rw [List.drop_zero])
      · rcases Nat.eq_zero_or_pos s.length with h0 | hs
        · rw [List.length_eq_zero_iff.1 h0, List.drop_nil]
          exact .inl rfl
        · exact .inr (by simp only [idle, List.length_drop]; omega)
    · rw [List.length_drop] at hlt
      exact .inr (by omega)

theorem checkDataLoop_contents {junk : ℕ → Bfr} {fuel : ℕ} {again : Bool} {events : List RcvEvent}
    (h : checkDataLoop inhibitAdc junk fuel p = .ok (again, p', events)) :
    p'.ring.bfrsize = p.ring.bfrsize ∧ (p'.ring.contents = p.ring.contents ∨
      p'.ring.contents.length < p.ring.contents.length) := by
  induction fuel generalizing p events with
  | zero =>
    cases h
    exact ⟨rfl, .inl rfl⟩
  | succ fuel ih =>
    obtain ⟨t, p₁, events₁, ht, hagrees, hend⟩ := checkDataLoop_ok h
    have hfirst : p₁.ring.contents = p.ring.contents ∨
        p₁.ring.contents.length < p.ring.contents.length := by
      rw [hagrees.contents]
      rcases turn_eq_idle ht with rfl | hlt
      · exact .inl rfl
      · exact .inr hlt
    rcases hend with ⟨-, -, rfl, -⟩ | ⟨-, events₂, hrest, -⟩
    · exact ⟨hagrees.bfrsize, hfirst⟩
    · obtain ⟨hsize, hlater⟩ := ih hrest
      refine ⟨hsize.trans hagrees.bfrsize, ?_⟩
      rcases hlater with heq | hlt
      · rwa [heq]
      · rcases hfirst with heq | hlt'
        · exact .inr (heq ▸ hlt)
        · exact .inr (hlt.trans hlt')

theorem checkDataLoop_turn {junk : ℕ → Bfr} {fuel : ℕ} {again : Bool} {events : List RcvEvent}
    (h : checkDataLoop inhibitAdc junk (fuel + 1) p = .ok (again, p', events)) :
    ∃ t, turn inhibitAdc p.ring.contents = some t ∧
      p'.ring.contents.length ≤ t.rest.length := by
  obtain ⟨t, p₁, events₁, ht, hagrees, hend⟩ := checkDataLoop_ok h
  refine ⟨t, ht, ?_⟩
  rw [← hagrees.contents]
  rcases hend with ⟨-, -, rfl, -⟩ | ⟨-, events₂, hrest, -⟩
  · exact le_rfl
  · rcases (checkDataLoop_contents hrest).2 with heq | hlt
    · rw [heq]
    · exact hlt.le

theorem purge_false (ring : RingSet) : purge false ring = ring := by
  simp only [purge, Bool.false_eq_true, false_and, ↓reduceIte]

theorem Pass.loop (h : Pass p p') : ∃ junk again events,
    checkDataLoop false junk (p.ring.bytesStored + 1) p = .ok (again, p', events) := by
  obtain ⟨junk, events, h⟩ := h
  obtain ⟨again, p₁, hloop, rfl⟩ := checkData_ok h
  rw [purge_false]
  exact ⟨junk, again, events, hloop⟩

theorem Pass.contents (h : Pass p p') : p'.ring.bfrsize = p.ring.bfrsize ∧
    (p'.ring.contents = p.ring.contents ∨
      p'.ring.contents.length < p.ring.contents.length) := by
  obtain ⟨junk, again, events, hloop⟩ := h.loop
  exact checkDataLoop_contents hloop

theorem stuck_of_turn (h : turn false p.ring.contents = some (idle p.ring.contents)) :
    Stuck p := by
  have hiter := checkDataIter_turn false (fun _ => 0) p
  rw [h] at hiter
  obtain ⟨p₁, events, heq, hagrees⟩ := hiter
  refine ⟨p₁, ⟨fun _ _ => 0, events, ?_⟩, hagrees.contents⟩
  simp only [checkData, checkDataLoop, heq, bind, Except.bind, pure, Except.pure, idle, purge,
    Bool.false_eq_true, false_and, ↓reduceIte]

theorem Stuck.turn (h : Stuck p) : turn false p.ring.contents = some (idle p.ring.contents) := by
  obtain ⟨p', hpass, hsame⟩ := h
  obtain ⟨junk, again, events, hloop⟩ := hpass.loop
  obtain ⟨t, ht, hle⟩ := checkDataLoop_turn hloop
  rw [hsame] at hle
  rcases turn_eq_idle ht with rfl | hlt
  · exact ht
  · omega

/-- **Run without new bytes, `check_data` comes to an end of its progress** or to a `fail`. -/
theorem exists_stuck (p : RcvPath) :
    ∃ p', ReflTransGen Pass p p' ∧
      (Stuck p' ∨ ∃ junk, checkData false junk p' = .error TOKENFAIL) := by
  induction hn : p.ring.contents.length using Nat.strong_induction_on generalizing p with
  | _ n ih =>
    cases hres : checkData false (fun _ _ => 0) p with
    | error msg =>
      obtain rfl := checkData_error hres
      exact ⟨p, .refl, .inr ⟨_, hres⟩⟩
    | ok result =>
      -- the pass left the ring alone, or fewer bytes on it
      obtain ⟨p₁, events⟩ := result
      have hpass : Pass p p₁ := ⟨_, _, hres⟩
      rcases hpass.contents.2 with heq | hlt
      · exact ⟨p, .refl, .inl ⟨p₁, hpass, heq⟩⟩
      · obtain ⟨p', hreach, hend⟩ := ih _ (hn ▸ hlt) p₁ rfl
        exact ⟨p', .head hpass hreach, hend⟩

/-- A turn takes nothing off a full ring exactly if it is wedged. -/
theorem wedged_iff (hlen : s.length = BFRSIZE) :
    Wedged s ↔ turn false s = some (idle s) := by
  have hpre : PREHDRLEN = 8 := rfl
  have hbfr : BFRSIZE = 5000 := rfl
  constructor
  · rintro ⟨-, ⟨hc, ha⟩ | ⟨ha, hlow, hbig⟩⟩
    · exact turn_eq_none hc ha
    · have h0 : adcAt false s = some 0 := ha
      have hhdr : PREHDRLEN < s.length := by omega
      have hnot : ¬ PREHDRLEN + datalen s ≤ s.length := by omega
      rw [turn_eq_adc h0 fun _ _ => Nat.zero_le _, List.drop_zero]
      simp only [adcTurn, hhdr, hlow, hnot, ↓reduceIte]
      rfl
  · intro h
    refine ⟨hlen, ?_⟩
    rcases turn_cases false s with ⟨hc, ha, -⟩ | ⟨c, hc, -, heq⟩ | ⟨a, ha, -, heq⟩
    · exact .inl ⟨hc, ha⟩
    · -- a text is taken off
      have htext := (chanAt_eq_some.1 hc).2.1
      have hlt := chanTurn_length_lt (s := s.drop c) (by rw [List.length_drop]; omega)
      rw [Option.some.inj (heq.symm.trans h), List.length_drop] at hlt
      simp only [idle] at hlt
      omega
    · rw [heq] at h
      have hlen' : (s.drop a).length = s.length - a := List.length_drop
      have ha0 : a = 0 := by
        rcases adcTurn_eq_idle h with heq' | hlt
        · have := congrArg (fun t => t.rest.length) heq'
          simp only [idle, hlen'] at this
          omega
        · simp only [idle] at hlt
          omega
      subst ha0
      rw [List.drop_zero] at h
      have hhdr : PREHDRLEN < s.length := by omega
      refine .inr ⟨ha, ?_, ?_⟩
      · intro hlow
        simp only [adcTurn, hhdr, hlow, ↓reduceIte, reduceCtorEq] at h
      · -- a packet that is whole is taken off
        by_contra hle
        have hfit : PREHDRLEN + datalen s ≤ s.length := by omega
        by_cases hlow : s.getD 4 0 = 0
        · simp only [adcTurn, hhdr, hlow, ↓reduceIte, reduceCtorEq] at h
        · simp only [adcTurn, hhdr, hlow, hfit, ↓reduceIte] at h
          split_ifs at h <;> simp [idle] at h

theorem passes_contents (h : ReflTransGen Pass p p') : p'.ring.bfrsize = p.ring.bfrsize ∧
    (p'.ring.contents = p.ring.contents ∨
      p'.ring.contents.length < p.ring.contents.length) := by
  induction h with
  | refl => exact ⟨rfl, .inl rfl⟩
  | tail _ hpass ih =>
    obtain ⟨hsize, hcont⟩ := hpass.contents
    refine ⟨hsize.trans ih.1, ?_⟩
    rcases hcont with heq | hlt
    · rw [heq]
      exact ih.2
    · rcases ih.2 with heq' | hlt'
      · rw [heq'] at hlt
        exact .inr hlt
      · exact .inr (by omega)

/-- A wedged ring stays full. -/
theorem Wedged.not_neverWedged (hsize : p.ring.bfrsize = BFRSIZE + 1)
    (h : Wedged p.ring.contents) : ¬ NeverWedged p := by
  intro hnever
  have hfree := hnever p .refl (stuck_of_turn ((wedged_iff h.1).1 h))
  have hsum := RingSet.bytesStored_add_bytesFree p.ring
  have hlen := h.1
  rw [RingSet.length_contents] at hlen
  omega

/-- **Which rings get a free byte.**  The receive path does not wedge exactly if the ring is not a
full one without a token that can be taken, or with a packet at the front that is too long. -/
theorem neverWedged_iff (p : RcvPath) (hsize : p.ring.bfrsize = BFRSIZE + 1) :
    NeverWedged p ↔ ¬ Wedged p.ring.contents := by
  refine ⟨fun hnever hw => hw.not_neverWedged hsize hnever, ?_⟩
  intro hnot p' hreach hstuck
  by_contra hfree
  obtain ⟨hsize', hcont⟩ := passes_contents hreach
  have hsum := RingSet.bytesStored_add_bytesFree p'.ring
  have hsum₀ := RingSet.bytesStored_add_bytesFree p.ring
  have hlen := RingSet.length_contents p'.ring
  have hlen₀ := RingSet.length_contents p.ring
  -- the ring was full from the start, so no pass took anything
  rcases hcont with heq | hlt
  · have hturn := hstuck.turn
    rw [heq] at hturn hlen
    exact hnot ((wedged_iff (by omega)).2 hturn)
  · omega

/-- A ring that received as many null bytes as it can hold. -/
def zeroFilled : RcvPath where
  ring := ((RingSet.alloc BFRSIZE fun _ => 0).store (List.replicate BFRSIZE 0)).2
  newChanInfo := .zero
  dataRing := .alloc (sdrPktSize .zero) fun _ => ⟨⟨0, 0, 0, false⟩, fun _ => 0⟩

theorem contents_zeroFilled : zeroFilled.ring.contents = List.replicate BFRSIZE 0 := by
  have hfree := RingSet.bytesStored_add_bytesFree (RingSet.alloc BFRSIZE fun _ => 0)
  rw [← RingSet.length_contents, RingSet.contents_alloc, List.length_nil, Nat.zero_add,
    RingSet.bfrsize_alloc, Nat.add_sub_cancel] at hfree
  have hstore : ∀ bfr : List UInt8, bfr.length = BFRSIZE →
      ((RingSet.alloc BFRSIZE fun _ => 0).store bfr).2.contents = bfr := by
    intro bfr hlen
    rw [RingSet.contents_store (by rw [hlen, hfree]), RingSet.contents_alloc, List.nil_append]
  rw [zeroFilled, hstore _ List.length_replicate]

/-- Bytes without any token fill the ring for good. -/
theorem zeroFilled_wedges : zeroFilled.ring.bfrsize = BFRSIZE + 1 ∧ ¬ NeverWedged zeroFilled := by
  have hsize : zeroFilled.ring.bfrsize = BFRSIZE + 1 := by
    rw [zeroFilled, RingSet.bfrsize_store, RingSet.bfrsize_alloc]
  have hno : ∀ {b : UInt8}, b ≠ 0 → b ∉ List.replicate BFRSIZE (0 : UInt8) := by
    intro b hb hmem
    exact hb (List.eq_of_mem_replicate hmem)
  refine ⟨hsize, Wedged.not_neverWedged hsize ?_⟩
  rw [contents_zeroFilled]
  refine ⟨List.length_replicate, .inl ⟨?_, ?_⟩⟩
  · have hfind : findSub CHANTOKEN (List.replicate BFRSIZE 0) = none :=
      findSub_eq_none_of_not_mem (b := 0x53) (by decide) (hno (by decide))
    rw [chanAt, hfind]
    rfl
  · exact findSub_eq_none_of_not_mem (b := 0xAA) (by decide) (hno (by decide))

/-- An empty receive ring does not wedge. -/
theorem neverWedged_empty :
    let p : RcvPath := ⟨RingSet.alloc BFRSIZE fun _ => 0, .zero,
      .alloc (sdrPktSize .zero) fun _ => ⟨⟨0, 0, 0, false⟩, fun _ => 0⟩⟩
    NeverWedged p ↔ ¬ Wedged p.ring.contents :=
  neverWedged_iff _ rfl

end SdrProxy
