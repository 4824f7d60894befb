import SdrProxy.Buffer
import SdrProxy.ChanText

/-!
# Searching a ring

`search_ring` and `find_chan_info` of `buffer.c`.  Both copy the ring out and search the copy; a
position is an index from the oldest byte, and -1 means that nothing was found.

* `searchRing_eq` : the result is the first occurrence of the token in the contents;
* `findChanInfo_eq` : the result is the first channel token, if a whole text stands there and
  scans to three numbers (`chanAt`);
* `findChanInfo_finds_iff` : so the first text is found exactly if the first token is its own.
-/

namespace SdrProxy

open Stdio

/-- A position as an `int`, absence as -1. -/
def idx : Option ℕ → ℤ
  | none => -1
  | some i => i

@[simp] theorem idx_none : idx none = -1 := rfl
@[simp] theorem idx_some (i : ℕ) : idx (some i) = i := rfl

/-- `search_ring`: the position of `target` on the ring. -/
def searchRing (target : List UInt8) (ring : RingSet) : ℤ :=
  let size := ring.bytesStored
  if size ≠ 0 ∧ target.length ≤ size then
    match ring.view size with
    | none => -1
    | some testbfr => idx (bytesInBytes ULONGSIZE testbfr target).join
  else -1

/-- `find_chan_info`: the position of a channel info text on the ring. -/
def findChanInfo (ring : RingSet) : ℤ :=
  let chanidx := searchRing CHANTOKEN ring
  if chanidx < 0 then chanidx
  else if (ring.bytesStored : ℤ) < chanidx + CHANINFOLEN then -1
  else
    match ring.view (chanidx.toNat + CHANINFOLEN) with
    | none => -1
    | some tempBfr =>
      if (sscanf CHANINFOSCANFMT (tempBfr.drop chanidx.toNat)).length < 3 then -1 else chanidx

/-! ### In terms of the contents -/

/-- The bytes at `i` are a whole channel info text as far as the scan can tell. -/
def ChanTextAt (s : List UInt8) (i : ℕ) : Prop :=
  i + CHANINFOLEN ≤ s.length ∧
    3 ≤ (sscanf CHANINFOSCANFMT ((s.drop i).take CHANINFOLEN)).length

instance (s : List UInt8) (i : ℕ) : Decidable (ChanTextAt s i) :=
  inferInstanceAs (Decidable (_ ∧ _))

/-- Where the first channel token of `s` stands, if a whole text stands there. -/
def chanAt (s : List UInt8) : Option ℕ :=
  (findSub CHANTOKEN s).filter fun i => ChanTextAt s i

/-- **`search_ring` finds the first occurrence.** -/
theorem searchRing_eq {target : List UInt8} (h : target ≠ []) (ring : RingSet) :
    searchRing target ring = idx (findSub target ring.contents) := by
  have hpos : 0 < target.length := List.length_pos_iff.2 h
  by_cases hsize : ring.bytesStored ≠ 0 ∧ target.length ≤ ring.bytesStored
  · have hview : ring.view ring.bytesStored = some ring.contents := by
      rw [RingSet.view_eq (Nat.le_refl _), List.take_of_length_le (by simp)]
    have hbib : bytesInBytes ULONGSIZE ring.contents target = some (findSub target ring.contents) :=
      bytesInBytes_eq (by decide) hpos (by simpa using hsize.2)
    simp only [searchRing, hsize, hview, hbib, ne_eq, not_false_eq_true, and_self, ↓reduceIte,
      Option.join_some]
  · have hnone : findSub target ring.contents = none := by
      refine findSub_eq_none_iff.2 fun j _ hp => hsize ?_
      have hlen := hp.length_le
      rw [List.length_drop, RingSet.length_contents] at hlen
      omega
    simp only [searchRing, hsize, hnone, ↓reduceIte, idx_none]

/-- **`find_chan_info` tests the first channel token, and only that one.** -/
theorem findChanInfo_eq (ring : RingSet) : findChanInfo ring = idx (chanAt ring.contents) := by
  simp only [findChanInfo, searchRing_eq (by decide : CHANTOKEN ≠ []), chanAt]
  cases hfind : findSub CHANTOKEN ring.contents with
  | none => simp
  | some i =>
    by_cases hlen : i + CHANINFOLEN ≤ ring.bytesStored
    · have hlt : ¬ ((ring.bytesStored : ℤ) < (i : ℤ) + CHANINFOLEN) := by omega
      have hneg : ¬ ((i : ℤ) < 0) := by omega
      have hdrop : (ring.contents.take (i + CHANINFOLEN)).drop i =
          (ring.contents.drop i).take CHANINFOLEN := by
        rw [List.drop_take, Nat.add_sub_cancel_left]
      simp only [idx_some, hneg, hlt, ↓reduceIte, Int.toNat_natCast, RingSet.view_eq hlen, hdrop,
        Option.filter_some, ChanTextAt, RingSet.length_contents, hlen, true_and]
      by_cases hscan : (sscanf CHANINFOSCANFMT ((ring.contents.drop i).take CHANINFOLEN)).length < 3
      · simp [hscan, Nat.not_le.2 hscan]
      · simp [hscan, Nat.not_lt.1 hscan]
    · have hlt : (ring.bytesStored : ℤ) < (i : ℤ) + CHANINFOLEN := by omega
      have hneg : ¬ ((i : ℤ) < 0) := by omega
      have hno : ¬ ChanTextAt ring.contents i := fun h => hlen (by simpa using h.1)
      simp [hneg, hlt, Option.filter_some, hno]

theorem chanAt_eq_some {s : List UInt8} {i : ℕ} :
    chanAt s = some i ↔ findSub CHANTOKEN s = some i ∧ ChanTextAt s i := by
  simp [chanAt, Option.filter_eq_some_iff]

/-! ### Which rings are searched right -/

/-- What `find_chan_info` is to return: the least position at which a whole text stands, and -1
exactly if there is none. -/
structure FindsText (s : List UInt8) (result : ℤ) : Prop where
  found : ∀ i : ℕ, result = i ↔ ChanTextAt s i ∧ ∀ j < i, ¬ ChanTextAt s j
  absent : result = -1 ↔ ∀ i, ¬ ChanTextAt s i

/-- The first channel token is not a false one: it starts the first text, if there is any. -/
def FirstTokenTells (s : List UInt8) : Prop :=
  (∀ i, ¬ ChanTextAt s i) ∨
    ∃ i, findSub CHANTOKEN s = some i ∧ ChanTextAt s i ∧ ∀ j < i, ¬ ChanTextAt s j

/-- **`find_chan_info` finds a text only if no false token stands in front of it.** -/
theorem findChanInfo_finds_iff (ring : RingSet) :
    FindsText ring.contents (findChanInfo ring) ↔ FirstTokenTells ring.contents := by
  rw [findChanInfo_eq]
  constructor
  · intro h
    cases hc : chanAt ring.contents with
    | none =>
      rw [hc] at h
      exact .inl (h.absent.1 rfl)
    | some i =>
      rw [hc] at h
      obtain ⟨htext, hleast⟩ := (h.found i).1 rfl
      exact .inr ⟨i, (chanAt_eq_some.1 hc).1, htext, hleast⟩
  · rintro (hno | ⟨i, hfirst, htext, hleast⟩)
    · have hc : chanAt ring.contents = none := by
        refine Option.eq_none_iff_forall_ne_some.2 ?_
        intro i hi
        exact hno i (chanAt_eq_some.1 hi).2
      rw [hc, idx_none]
      refine ⟨?_, by simpa using hno⟩
      intro i
      refine ⟨fun hi => by omega, fun ⟨htext, _⟩ => absurd htext (hno i)⟩
    · rw [chanAt_eq_some.2 ⟨hfirst, htext⟩, idx_some]
      refine ⟨?_, fun hi => by omega, fun hno => absurd htext (hno i)⟩
      intro j
      rw [Nat.cast_inj]
      constructor
      · rintro rfl
        exact ⟨htext, hleast⟩
      · rintro ⟨htext', hleast'⟩
        -- of two least positions neither is below the other
        rcases Nat.lt_trichotomy i j with hlt | heq | hgt
        · exact absurd htext (hleast' i hlt)
        · exact heq
        · exact absurd htext' (hleast j hgt)

/-- A ring with a channel token in front of a valid text. -/
def falseToken : RingSet :=
  ((RingSet.alloc BFRSIZE fun _ => 0).store (CHANTOKEN ++ chanInfoText ⟨100, 4, 1⟩)).2

/-- The text behind the false token is not found. -/
theorem findChanInfo_falseToken : ¬ FindsText falseToken.contents (findChanInfo falseToken) := by
  intro h
  have hmiss : findChanInfo falseToken = -1 := by decide +kernel
  exact h.absent.1 hmiss CHANTOKEN.length (by decide +kernel)

end SdrProxy
