import Mathlib.Data.List.Basic

/-!
# Occurrences of a list in another

`findSub n l` is the position of the first occurrence of `n` in `l`: the specification against
which search loops are proved.  `occurrences n l` are all of them.

* `findSub_eq_some_iff`, `findSub_eq_none_iff` say what a position and its absence mean;
* `findSub_of_isPrefixOf` and `findSub_le` are what a parser needs that looks for a token;
* `Unbordered n` : no end of `n` is a beginning of it, so its occurrences do not overlap; then
  `findSub_append` finds a token behind bytes that lack it, `occurrences_of_findSub` splits the
  occurrences after the first, and `occurrences_drop` says what may be thrown away in front.
-/

namespace SdrProxy

section FindSub

variable {α : Type*} [DecidableEq α]

/-- The position of the first occurrence of `n` in a list. -/
def findSub (n : List α) : List α → Option ℕ
  | [] => if n = [] then some 0 else none
  | a :: l => if n.isPrefixOf (a :: l) then some 0 else (findSub n l).map (· + 1)

variable {n l : List α} {i : ℕ}

theorem findSub_eq_some_iff : findSub n l = some i ↔
    i ≤ l.length ∧ n <+: l.drop i ∧ ∀ j < i, ¬ n <+: l.drop j := by
  induction l generalizing i with
  | nil =>
    simp only [findSub, List.length_nil, List.drop_nil, List.prefix_nil]
    split_ifs with h
    · simp only [Option.some.injEq, h, true_and, not_true_eq_false, imp_false]
      constructor
      · rintro rfl; exact ⟨Nat.le_refl _, fun j => Nat.not_lt_zero j⟩
      · rintro ⟨h0, -⟩; omega
    · simp [h]
  | cons a l ih =>
    simp only [findSub, List.isPrefixOf_iff_prefix]
    split_ifs with h
    · constructor
      · rintro ⟨rfl⟩
        exact ⟨Nat.zero_le _, h, fun j hj => absurd hj (Nat.not_lt_zero j)⟩
      · rintro ⟨-, -, hmin⟩
        cases i with
        | zero => rfl
        | succ i => exact absurd h (hmin 0 (Nat.succ_pos i))
    · simp only [Option.map_eq_some_iff]
      constructor
      · rintro ⟨k, hk, rfl⟩
        obtain ⟨hle, hpre, hmin⟩ := ih.1 hk
        refine ⟨by simpa using hle, hpre, fun j hj => ?_⟩
        cases j with
        | zero => exact h
        | succ j => exact hmin j (by omega)
      · rintro ⟨hle, hpre, hmin⟩
        cases i with
        | zero => exact absurd hpre h
        | succ i =>
          exact ⟨i, ih.2 ⟨by simpa using hle, hpre, fun j hj => hmin (j + 1) (by omega)⟩, rfl⟩

theorem findSub_eq_none_iff : findSub n l = none ↔ ∀ j ≤ l.length, ¬ n <+: l.drop j := by
  induction l with
  | nil =>
    simp only [findSub, List.length_nil, List.drop_nil, List.prefix_nil]
    split_ifs with h
    · simpa using h
    · simpa using h
  | cons a l ih =>
    simp only [findSub, List.isPrefixOf_iff_prefix]
    split_ifs with h
    · simp only [List.length_cons, false_iff, not_forall, not_not]
      exact ⟨0, Nat.zero_le _, h⟩
    · simp only [Option.map_eq_none_iff, ih, List.length_cons]
      constructor
      · intro hno j hj
        cases j with
        | zero => exact h
        | succ j => exact hno j (by omega)
      · exact fun hno j hj => hno (j + 1) (by omega)

/-- An occurrence at the front is the first. -/
theorem findSub_of_isPrefixOf (h : n <+: l) : findSub n l = some 0 :=
  findSub_eq_some_iff.2 ⟨Nat.zero_le _, h, fun j hj => absurd hj (Nat.not_lt_zero j)⟩

theorem findSub_le (h : findSub n l = some i) : i + n.length ≤ l.length := by
  obtain ⟨hle, hpre, -⟩ := findSub_eq_some_iff.1 h
  have := hpre.length_le
  rw [List.length_drop] at this
  omega

/-- What lies in front of the first occurrence does not matter. -/
theorem findSub_drop {m : ℕ} (h : findSub n l = some i) (hm : m ≤ i) :
    findSub n (l.drop m) = some (i - m) := by
  obtain ⟨hle, hpre, hfirst⟩ := findSub_eq_some_iff.1 h
  refine findSub_eq_some_iff.2 ⟨by rw [List.length_drop]; omega, ?_, ?_⟩
  · rwa [List.drop_drop, Nat.add_sub_cancel' hm]
  · intro j hj
    rw [List.drop_drop]
    exact hfirst (m + j) (by omega)

theorem findSub_eq_none_of_not_mem {b : α} (hb : b ∈ n) (hl : b ∉ l) : findSub n l = none :=
  findSub_eq_none_iff.2 fun _ _ hp => hl (List.mem_of_mem_drop (hp.subset hb))

end FindSub

/-! ### Occurrences that do not overlap -/

section Unbordered

variable {α : Type*} {n l l' : List α} {i j m : ℕ}

/-- No proper end of the list is a beginning of it. -/
def Unbordered (n : List α) : Prop := ∀ k < n.length, 0 < k → ¬ n.drop k <+: n

/-- Two occurrences of an unbordered list lie apart. -/
theorem Unbordered.add_length_le (h : Unbordered n) (hi : n <+: l.drop i) (hj : n <+: l.drop j)
    (hij : i < j) : i + n.length ≤ j := by
  by_contra hlt
  obtain ⟨k, rfl⟩ := Nat.exists_eq_add_of_lt hij
  -- what is left of the first one at `j` and the second one begin alike
  have hend : n.drop (k + 1) <+: l.drop (i + k + 1) := by
    obtain ⟨u, hu⟩ := hi
    refine ⟨u, ?_⟩
    rw [← List.drop_append_of_le_length (by omega), hu, List.drop_drop]
    rfl
  refine h (k + 1) (by omega) (Nat.succ_pos k) (List.prefix_of_prefix_length_le hend hj ?_)
  rw [List.length_drop]
  omega

theorem isPrefixOf_drop_append (h : i + n.length ≤ l.length) :
    n <+: (l ++ l').drop i ↔ n <+: l.drop i := by
  rw [List.drop_append_of_le_length (by omega)]
  constructor
  · intro hp
    refine List.prefix_of_prefix_length_le hp (List.prefix_append _ _) ?_
    rw [List.length_drop]
    omega
  · exact fun hp => hp.trans (List.prefix_append _ _)

/-- An occurrence that begins in the first part ends in it, or reaches into the second. -/
theorem drop_isPrefixOf_of_append (hp : n <+: (l ++ l').drop i) (hi : i ≤ l.length) :
    n.drop (l.length - i) <+: l' := by
  obtain ⟨u, hu⟩ := hp
  rcases Nat.lt_or_ge n.length (l.length - i) with hlt | hge
  · rw [List.drop_eq_nil_of_le (Nat.le_of_lt hlt)]
    exact List.nil_prefix
  · refine ⟨u, ?_⟩
    rw [← List.drop_append_of_le_length hge, hu, List.drop_drop, Nat.add_sub_cancel' hi,
      List.drop_left]

variable [DecidableEq α]

instance (n : List α) : Decidable (Unbordered n) :=
  inferInstanceAs (Decidable (∀ k < n.length, 0 < k → ¬ n.drop k <+: n))

/-- Behind a list without it, an unbordered list that stands there is found. -/
theorem Unbordered.findSub_append (h : Unbordered n) (hno : findSub n l = none)
    (hp : n <+: l') : findSub n (l ++ l') = some l.length := by
  refine findSub_eq_some_iff.2 ⟨by simp, by rwa [List.drop_left], ?_⟩
  intro j hj hjp
  have hle := h.add_length_le hjp (by rwa [List.drop_left]) hj
  exact findSub_eq_none_iff.1 hno j (by omega) ((isPrefixOf_drop_append hle).1 hjp)

theorem findSub_append_eq_none (hl : findSub n l = none) (hl' : findSub n l' = none)
    (hacross : ∀ k < n.length, 0 < k → ¬ n.drop k <+: l') : findSub n (l ++ l') = none := by
  refine findSub_eq_none_iff.2 ?_
  intro j hj hp
  rw [List.length_append] at hj
  rcases Nat.lt_or_ge j l.length with hlt | hge
  · rcases Nat.lt_or_ge l.length (j + n.length) with hover | hin
    · have hp' := drop_isPrefixOf_of_append hp (Nat.le_of_lt hlt)
      exact hacross (l.length - j) (by omega) (by omega) hp'
    · exact findSub_eq_none_iff.1 hl j (by omega) ((isPrefixOf_drop_append hin).1 hp)
  · obtain ⟨k, rfl⟩ := Nat.exists_eq_add_of_le hge
    rw [List.drop_length_add_append] at hp
    exact findSub_eq_none_iff.1 hl' k (by omega) hp

theorem findSub_append_left (h : findSub n l = some i) : findSub n (l ++ l') = some i := by
  have hle := findSub_le h
  obtain ⟨-, hp, hfirst⟩ := findSub_eq_some_iff.1 h
  refine findSub_eq_some_iff.2 ⟨?_, (isPrefixOf_drop_append hle).2 hp, ?_⟩
  · rw [List.length_append]
    omega
  · intro j hj hjp
    exact hfirst j hj ((isPrefixOf_drop_append (by omega)).1 hjp)

theorem findSub_drop_eq_none (h : findSub n l = none) (m : ℕ) : findSub n (l.drop m) = none := by
  refine findSub_eq_none_iff.2 ?_
  intro j hj hp
  rw [List.drop_drop] at hp
  rcases Nat.lt_or_ge l.length (m + j) with hlt | hge
  · -- behind the end there are no elements
    rw [List.drop_eq_nil_of_le (Nat.le_of_lt hlt), ← List.drop_length] at hp
    exact findSub_eq_none_iff.1 h l.length (Nat.le_refl _) hp
  · exact findSub_eq_none_iff.1 h (m + j) hge hp

/-- All positions at which `n` occurs, in order. -/
def occurrences (n l : List α) : List ℕ :=
  (List.range (l.length + 1)).filter fun i => n.isPrefixOf (l.drop i)

theorem mem_occurrences : i ∈ occurrences n l ↔ i ≤ l.length ∧ n <+: l.drop i := by
  rw [occurrences, List.mem_filter, List.mem_range, List.isPrefixOf_iff_prefix, Nat.lt_succ_iff]

theorem occurrences_eq_nil_iff : occurrences n l = [] ↔ findSub n l = none := by
  rw [findSub_eq_none_iff, List.eq_nil_iff_forall_not_mem]
  simp only [mem_occurrences, not_and]

/-- The occurrences from `m` on are those of what lies there. -/
theorem occurrences_eq_append (hm : m ≤ l.length) : occurrences n l =
    ((List.range m).filter fun i => n.isPrefixOf (l.drop i)) ++
      (occurrences n (l.drop m)).map (m + ·) := by
  have hlen : l.length + 1 = m + ((l.drop m).length + 1) := by
    rw [List.length_drop]
    omega
  rw [occurrences, hlen, List.range_add, List.filter_append, List.filter_map, occurrences]
  congr 2
  apply List.filter_congr
  intro i _
  rw [Function.comp_apply, List.drop_drop]

/-- Bytes that no occurrence begins in may be thrown away. -/
theorem occurrences_drop (hm : m ≤ l.length) (hno : ∀ i < m, ¬ n <+: l.drop i) :
    occurrences n l = (occurrences n (l.drop m)).map (m + ·) := by
  rw [occurrences_eq_append hm, List.filter_eq_nil_iff.2, List.nil_append]
  intro i hi
  rw [List.isPrefixOf_iff_prefix]
  exact hno i (List.mem_range.1 hi)

theorem Unbordered.occurrences_of_findSub (h : Unbordered n) (hpos : 0 < n.length)
    (hfind : findSub n l = some i) : occurrences n l =
      i :: (occurrences n (l.drop (i + n.length))).map (i + n.length + ·) := by
  obtain ⟨-, hi, hfirst⟩ := findSub_eq_some_iff.1 hfind
  have hfront : ((List.range (i + n.length)).filter fun j => n.isPrefixOf (l.drop j)) = [i] := by
    have hrange : List.range (i + n.length) =
        List.range i ++ (i :: (List.range (n.length - 1)).map (i + 1 + ·)) := by
      rw [show i + n.length = i + 1 + (n.length - 1) by omega, List.range_add, List.range_succ,
        List.append_assoc]
      rfl
    rw [hrange, List.filter_append, List.filter_eq_nil_iff.2, List.nil_append,
      List.filter_cons_of_pos (by rwa [List.isPrefixOf_iff_prefix]), List.filter_eq_nil_iff.2]
    · -- the next occurrence begins where this one has ended
      intro j hj
      obtain ⟨k, hk, rfl⟩ := List.mem_map.1 hj
      rw [List.mem_range] at hk
      rw [List.isPrefixOf_iff_prefix]
      intro hp
      have := h.add_length_le hi hp (by omega)
      omega
    · intro j hj
      rw [List.isPrefixOf_iff_prefix]
      exact hfirst j (List.mem_range.1 hj)
  rw [occurrences_eq_append (findSub_le hfind), hfront, List.singleton_append]

end Unbordered

end SdrProxy
