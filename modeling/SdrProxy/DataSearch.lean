import SdrProxy.DataWalk

/-!
# The contract of the binary search

What the comment of `search_data_bfr` promises, result code by result code with the index that goes
with it, for a data ring whose indexes fit together and whose times increase from `datar_start` on.

* `SearchContract` : the five outcomes;
* `searchDataBfr_contract` : the search meets it, and its loop ends by its own test.
-/

namespace SdrProxy

namespace DataRing

open FinMap

/-- The index of the element at offset `j` from the first one. -/
def place (r : DataRing) (j : ℕ) : ℤ := ((r.datarStart + j) % DATASIZE : ℕ)

/-- The outcomes of `search_data_bfr`: the result code and the index in the pointer array. -/
structure SearchContract (r : DataRing) (target : PacketTime) (result : ℤ × ℤ) : Prop where
  /-- The ring contains no element. -/
  empty : r.datarCnt = 0 → result = (-2, -1)
  /-- The target is newer than the newest element. -/
  newer : r.datarCnt ≠ 0 → (∀ e ∈ r.entries, e.1 < target) → result = (-1, r.place (r.datarCnt - 1))
  /-- The target is older than the oldest element. -/
  older : r.datarCnt ≠ 0 → (∀ e ∈ r.entries, target < e.1) → result = (1, (r.datarStart : ℤ))
  /-- The element at offset `j` has the target time. -/
  present : ∀ j (h : j < r.entries.length), r.entries[j].1 = target →
    result = (0, r.place j)
  /-- The target lies between two elements; the one at offset `j` has the least time greater than
  it. -/
  between : ∀ j (h : j < r.entries.length), (∃ e ∈ r.entries, e.1 < target) →
    (∀ e ∈ r.entries, e.1 ≠ target) → target < r.entries[j].1 →
    (∀ e ∈ r.entries, target < e.1 → r.entries[j].1 ≤ e.1) →
    result = (2, r.place j)

variable {r : DataRing} {target : PacketTime}

/-- The index that goes with -1 is that of the newest element. -/
theorem searchDataBfr_newer (hinv : r.Inv) (hzero : r.datarCnt ≠ 0)
    (hnew : ∀ e ∈ r.entries, e.1 < target) :
    r.searchDataBfr target = (-1, r.place (r.datarCnt - 1)) := by
  have hlen := length_entries r
  have hlast : 0 < r.compareIndex target (datarNormalize (r.datarEnd - 1)) := by
    rw [hinv.last_eq hzero, compareIndex_pos (by omega)]
    exact hnew _ (List.getElem_mem _)
  unfold searchDataBfr
  rw [if_neg hzero, if_pos hlast, hinv.last_eq hzero, place]

theorem offset_eq_of_time (hinc : Increasing r.entries) {i j : ℕ} (hi : i < r.entries.length)
    (hj : j < r.entries.length) (h : r.entries[i].1 = r.entries[j].1) : i = j := by
  rcases Nat.lt_trichotomy i j with hlt | heq | hgt
  · exact absurd h (List.pairwise_iff_getElem.1 hinc i j hi hj hlt).ne
  · exact heq
  · exact absurd h (List.pairwise_iff_getElem.1 hinc j i hj hi hgt).ne'

theorem datarCnt_ne_zero {e : Entry} (h : e ∈ r.entries) : r.datarCnt ≠ 0 := by
  rw [← length_entries]
  exact (List.length_pos_of_mem h).ne'

/-- Elements before the target in front of offset `i`, and elements past it from there on. -/
theorem SearchContract.of_between (hinc : Increasing r.entries) {i : ℕ} (hpos : 0 < i)
    (hlt : i < r.entries.length) (hbefore : ∀ e ∈ r.entries.take i, e.1 < target)
    (hafter : ∀ e ∈ r.entries.drop i, target < e.1) : SearchContract r target (2, r.place i) := by
  have hlen := length_entries r
  have hfirst : r.entries[0] ∈ r.entries.take i :=
    List.mem_take_iff_getElem.2 ⟨0, by omega, rfl⟩
  have hnext : r.entries[i] ∈ r.entries.drop i :=
    List.mem_drop_iff_getElem.2 ⟨0, by omega, rfl⟩
  -- an element is in front of the place or behind it
  have hside : ∀ j (hj : j < r.entries.length),
      j < i ∧ r.entries[j].1 < target ∨ i ≤ j ∧ target < r.entries[j].1 := by
    intro j hj
    rcases Nat.lt_or_ge j i with hji | hij
    · exact .inl ⟨hji, hbefore _ (List.mem_take_iff_getElem.2 ⟨j, by omega, rfl⟩)⟩
    · refine .inr ⟨hij, hafter _ (List.mem_drop_iff_getElem.2 ⟨j - i, by omega, ?_⟩)⟩
      simp only [Nat.add_sub_cancel' hij]
  refine ⟨fun h0 => by omega, ?_, ?_, ?_, ?_⟩
  · intro _ hnew
    exact absurd (hnew _ (List.mem_of_mem_drop hnext)) (lt_asymm (hafter _ hnext))
  · intro _ hold
    exact absurd (hold _ (List.mem_of_mem_take hfirst)) (lt_asymm (hbefore _ hfirst))
  · intro j hj heq
    rcases hside j hj with ⟨-, hlt'⟩ | ⟨-, hgt⟩
    · exact absurd heq hlt'.ne
    · exact absurd heq hgt.ne'
  · -- the least element past the target is the first one behind the place
    intro j hj _ _ hgt hleast
    have hij : i ≤ j := by
      rcases hside j hj with ⟨-, hlt'⟩ | ⟨hij, -⟩
      · exact absurd hlt' (lt_asymm hgt)
      · exact hij
    have hle := hleast _ (List.mem_of_mem_drop hnext) (hafter _ hnext)
    rcases Nat.lt_or_ge i j with hlt' | hji
    · exact absurd hle (not_le.2 (List.pairwise_iff_getElem.1 hinc i j (by omega) hj hlt'))
    · rw [Nat.le_antisymm hij hji]

/-- What the search finds decides which outcome it is. -/
theorem Found.contract (hinv : r.Inv) (hinc : Increasing r.entries) {result : ℤ × ℤ}
    (h : Found r target result) (hresult : result = r.searchDataBfr target) :
    SearchContract r target result := by
  have hlen := length_entries r
  cases h with
  | empty hzero =>
    have hnil : r.entries = [] := List.length_eq_zero_iff.1 (hlen.trans hzero)
    refine ⟨fun _ => rfl, fun hne => absurd hzero hne, fun hne => absurd hzero hne, ?_, ?_⟩
    · intro j hj
      omega
    · intro j hj
      omega
  | newer index hzero hnew =>
    refine ⟨fun h0 => absurd h0 hzero, ?_, ?_, ?_, ?_⟩
    · intro _ _
      rw [hresult]
      exact searchDataBfr_newer hinv hzero hnew
    · intro _ hold
      have hmem := List.getElem_mem (l := r.entries) (n := 0) (by omega)
      exact absurd (hnew _ hmem) (lt_asymm (hold _ hmem))
    · intro j hj heq
      exact absurd heq (hnew _ (List.getElem_mem hj)).ne
    · intro j hj _ _ hlt
      exact absurd hlt (lt_asymm (hnew _ (List.getElem_mem hj)))
  | older hzero hold =>
    refine ⟨fun h0 => absurd h0 hzero, ?_, fun _ _ => rfl, ?_, ?_⟩
    · intro _ hnew
      have hmem := List.getElem_mem (l := r.entries) (n := 0) (by omega)
      exact absurd (hnew _ hmem) (lt_asymm (hold _ hmem))
    · intro j hj heq
      exact absurd heq (hold _ (List.getElem_mem hj)).ne'
    · rintro j hj ⟨e, he, hlt⟩
      exact absurd hlt (lt_asymm (hold e he))
  | exact i hi heq =>
    have hmem := List.getElem_mem hi
    refine ⟨fun h0 => absurd h0 (datarCnt_ne_zero hmem), ?_, ?_, ?_, ?_⟩
    · intro _ hnew
      exact absurd heq (hnew _ hmem).ne
    · intro _ hold
      exact absurd heq (hold _ hmem).ne'
    · intro j hj heq'
      rw [place, offset_eq_of_time hinc hi hj (heq.trans heq'.symm)]
    · intro j hj _ hne
      exact absurd heq (hne _ hmem)
  | between i hpos hlt hbefore hafter => exact .of_between hinc hpos (by omega) hbefore hafter

/-- `min` behind the loop of `search_data_bfr`. -/
def searchMin (r : DataRing) (target : PacketTime) : ℕ :=
  upperBound (r.past target) r.datarCnt 0 (r.datarCnt - 1)

/-- **The binary search meets its documented contract**, wherever the ring starts and however full
it is.  Its loop ends: from `datar_cnt` turns on, the interval it halves is the position `min`. -/
theorem searchDataBfr_contract (hinv : r.Inv) (hinc : Increasing r.entries)
    (target : PacketTime) :
    SearchContract r target (r.searchDataBfr target) ∧
      ∀ turns, r.datarCnt ≤ turns → (halve (r.past target))^[turns] (0, r.datarCnt - 1) =
        (r.searchMin target, r.searchMin target) := by
  refine ⟨(searchDataBfr_found hinv hinc target).contract hinv hinc rfl, ?_⟩
  intro turns hturns
  have hmin := halve_iterate_fst (r.past target) r.datarCnt (0, r.datarCnt - 1)
  have hdone := halve_iterate_done (r.past target) (i := (0, r.datarCnt - 1)) (Nat.zero_le _)
    (by simp : r.datarCnt - 1 - 0 ≤ r.datarCnt)
  rw [halve_iterate_stable (Nat.zero_le _) (by simp) hturns]
  exact Prod.ext hmin (hdone.symm.trans hmin)

/-- A ring of two packets that starts at the last place of the pointer array. -/
def wrapped : DataRing where
  dataStore := id
  heap i := ⟨⟨0, if i = 0 then 2 else 1, 0, true⟩, fun _ => 0⟩
  slotSize := some 31
  datarStart := DATASIZE - 1
  datarEnd := 1
  datarCnt := 2

/-- A time between the two packets is looked for. -/
theorem searchDataBfr_wrapped :
    SearchContract wrapped (3 / 2) (wrapped.searchDataBfr (3 / 2)) ∧
      ∀ turns, wrapped.datarCnt ≤ turns →
        (halve (wrapped.past (3 / 2)))^[turns] (0, wrapped.datarCnt - 1) =
          (wrapped.searchMin (3 / 2), wrapped.searchMin (3 / 2)) := by
  refine searchDataBfr_contract ⟨by decide, by decide, by decide, fun _ _ _ _ h => h⟩ ?_ (3 / 2)
  unfold Increasing
  decide +kernel

end DataRing

end SdrProxy
