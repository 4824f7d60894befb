import Mathlib.Data.Finset.Max
import Mathlib.Data.List.Pairwise

/-!
# Bounded finite maps

A finite map with ordered keys and room for a fixed number of entries, as a cache needs it: when
it is full, a new entry pushes out the one of least key, unless it would be that one itself.

* `FinMap K V` is a partial function with a finite domain; `put`, `erase` and `next` (the entry of
  least key from a bound on) are its operations;
* `FinMap.offer cap k v` stores under a capacity and says whether the entry was taken;
* `FinMap.ofList` reads a list of entries as a map.  For lists strictly increasing in key
  (`Increasing`), `offer_ofList_insert`, `offer_ofList_evict`, `offer_ofList_reject` and
  `offer_ofList_replace` say which list represents the map after an `offer`, and `next_ofList` that
  `next` is the first entry that reaches the bound;
* `FinMap.offerAll` : entries offered one after the other.  If no key repeats, the entries of
  greatest key are left, whatever the order of the offers (`offerAll_eq`);
* `FinMap.putAll` : the same without a capacity, the last value of every key.  Offers under a
  capacity leave the entries of greatest key of it (`offerAll_putAll`).
-/

namespace SdrProxy

/-- A finite partial map. -/
structure FinMap (K V : Type*) where
  /-- The value at a key. -/
  get : K → Option V
  /-- The keys with a value. -/
  dom : Finset K
  mem_dom : ∀ k, k ∈ dom ↔ ∃ v, get k = some v

namespace FinMap

variable {K V : Type*}

theorem ext_get {m n : FinMap K V} (h : ∀ k, m.get k = n.get k) : m = n := by
  obtain ⟨g, d, hd⟩ := m
  obtain ⟨g', d', hd'⟩ := n
  obtain rfl : g = g' := funext h
  obtain rfl : d = d' := by
    ext k
    rw [hd, hd']
  rfl

/-- Two maps with the same entries are equal. -/
theorem ext_mem {m n : FinMap K V} (h : ∀ k v, m.get k = some v ↔ n.get k = some v) : m = n :=
  ext_get fun k => Option.ext fun v => h k v

variable [LinearOrder K]

/-- The map without entries. -/
def empty : FinMap K V where
  get _ := none
  dom := ∅
  mem_dom := by simp

/-- `m` with `v` at `k`. -/
def put (k : K) (v : V) (m : FinMap K V) : FinMap K V where
  get := Function.update m.get k (some v)
  dom := insert k m.dom
  mem_dom k' := by
    rw [Finset.mem_insert, m.mem_dom]
    rcases eq_or_ne k' k with rfl | h
    · simp
    · simp [h]

/-- `m` without its entry at `k`. -/
def erase (k : K) (m : FinMap K V) : FinMap K V where
  get := Function.update m.get k none
  dom := m.dom.erase k
  mem_dom k' := by
    rw [Finset.mem_erase, m.mem_dom]
    rcases eq_or_ne k' k with rfl | h
    · simp
    · simp [h]

theorem get_put {k : K} {v : V} {m : FinMap K V} {k' : K} {v' : V} :
    (m.put k v).get k' = some v' ↔ k' = k ∧ v' = v ∨ k' ≠ k ∧ m.get k' = some v' := by
  rcases eq_or_ne k' k with rfl | h
  · simp [put, eq_comm]
  · simp [put, h]

theorem get_erase {k : K} {m : FinMap K V} {k' : K} {v' : V} :
    (m.erase k).get k' = some v' ↔ k' ≠ k ∧ m.get k' = some v' := by
  rcases eq_or_ne k' k with rfl | h
  · simp [erase]
  · simp [erase, h]

/-- Store `v` at `k` in a map with room for `cap` entries, and whether it was stored.  An entry at
`k` is replaced.  A new entry is added; if there is no room, the entry of least key gives way, and
if the new one would be that entry, it is not stored. -/
def offer (cap : ℕ) (k : K) (v : V) (m : FinMap K V) : Bool × FinMap K V :=
  if k ∈ m.dom ∨ m.dom.card < cap then (true, m.put k v)
  else if h : m.dom.Nonempty then
    if k < m.dom.min' h then (false, m) else (true, (m.erase (m.dom.min' h)).put k v)
  else (false, m)

/-- After an `offer` an entry is the new one or an old one. -/
theorem get_offer {cap : ℕ} {k : K} {v : V} {m m' : FinMap K V} {taken : Bool} {k' : K} {v' : V}
    (h : m.offer cap k v = (taken, m')) (hget : m'.get k' = some v') :
    taken = true ∧ k' = k ∧ v' = v ∨ m.get k' = some v' := by
  unfold offer at h
  split_ifs at h <;> obtain ⟨rfl, rfl⟩ := Prod.mk.inj h
  · rcases get_put.1 hget with ⟨rfl, rfl⟩ | ⟨-, hold⟩
    · exact .inl ⟨rfl, rfl, rfl⟩
    · exact .inr hold
  · exact .inr hget
  · rcases get_put.1 hget with ⟨rfl, rfl⟩ | ⟨-, hold⟩
    · exact .inl ⟨rfl, rfl, rfl⟩
    · exact .inr (get_erase.1 hold).2
  · exact .inr hget

/-- The entry of least key at or after `k`. -/
def next (k : K) (m : FinMap K V) : Option (K × V) :=
  if h : (m.dom.filter (k ≤ ·)).Nonempty then
    let k' := (m.dom.filter (k ≤ ·)).min' h
    (m.get k').map fun v => (k', v)
  else none

/-- `next` is an entry of the map, the one of least key among those that reach the bound. -/
theorem isLeast_of_next {m : FinMap K V} {k j : K} {v : V} (h : m.next k = some (j, v)) :
    m.get j = some v ∧ IsLeast {i | i ∈ m.dom ∧ k ≤ i} j := by
  unfold next at h
  split_ifs at h with hne
  obtain ⟨w, hw, hpair⟩ := Option.map_eq_some_iff.1 h
  obtain ⟨rfl, rfl⟩ := Prod.mk.inj hpair
  refine ⟨hw, ?_⟩
  have hleast := Finset.isLeast_min' _ hne
  rwa [Finset.coe_filter] at hleast

/-! ### Maps as lists -/

/-- The keys of the entries are strictly increasing. -/
def Increasing (l : List (K × V)) : Prop := l.Pairwise fun a b => a.1 < b.1

/-- The map whose entries are those of the list, the first one where a key repeats. -/
def ofList (l : List (K × V)) : FinMap K V where
  get k := (l.find? fun e => e.1 = k).map Prod.snd
  dom := (l.map Prod.fst).toFinset
  mem_dom k := by
    simp only [List.mem_toFinset, List.mem_map, Option.map_eq_some_iff]
    constructor
    · rintro ⟨e, he, rfl⟩
      have hsome : (l.find? fun x => x.1 = e.1).isSome := by
        rw [List.find?_isSome]
        exact ⟨e, he, by simp⟩
      obtain ⟨x, hx⟩ := Option.isSome_iff_exists.1 hsome
      exact ⟨x.2, x, hx, rfl⟩
    · rintro ⟨v, e, he, rfl⟩
      exact ⟨e, List.mem_of_find?_eq_some he, by simpa using List.find?_some he⟩

variable {l pre post : List (K × V)} {k : K} {v w : V} {cap : ℕ}

@[simp] theorem ofList_nil : ofList ([] : List (K × V)) = empty :=
  ext_get fun _ => rfl

theorem mem_dom_ofList : k ∈ (ofList l).dom ↔ ∃ e ∈ l, e.1 = k := by
  simp [ofList]

/-- In an increasing list no key repeats. -/
theorem Increasing.eq_of_key (h : Increasing l) {a b : K × V} (ha : a ∈ l) (hb : b ∈ l)
    (hab : a.1 = b.1) : a = b := by
  by_contra hne
  have hsymm : Std.Symm fun a b : K × V => a.1 ≠ b.1 := ⟨fun _ _ hab => hab.symm⟩
  exact (h.imp fun hlt => ne_of_lt hlt).forall ha hb hne hab

theorem get_ofList (h : Increasing l) : (ofList l).get k = some v ↔ (k, v) ∈ l := by
  simp only [ofList, Option.map_eq_some_iff]
  constructor
  · rintro ⟨⟨k', v'⟩, he, rfl⟩
    have hk : k' = k := by simpa using List.find?_some he
    exact hk ▸ List.mem_of_find?_eq_some he
  · intro hmem
    have hsome : (l.find? fun x => x.1 = k).isSome := by
      rw [List.find?_isSome]
      exact ⟨(k, v), hmem, by simp⟩
    obtain ⟨e, he⟩ := Option.isSome_iff_exists.1 hsome
    have hek : e.1 = k := by simpa using List.find?_some he
    exact ⟨e, he, by rw [h.eq_of_key (List.mem_of_find?_eq_some he) hmem hek]⟩

theorem card_dom_ofList (h : Increasing l) : (ofList l).dom.card = l.length := by
  have hnd : (l.map Prod.fst).Nodup := List.pairwise_map.2 (h.imp fun hlt => ne_of_lt hlt)
  simp only [ofList, List.toFinset_card_of_nodup hnd, List.length_map]

theorem min_dom_ofList {e : K × V} (h : Increasing (e :: l))
    (hne : (ofList (e :: l)).dom.Nonempty) : (ofList (e :: l)).dom.min' hne = e.1 := by
  apply le_antisymm
  · exact Finset.min'_le _ _ (mem_dom_ofList.2 ⟨e, List.mem_cons_self, rfl⟩)
  · apply Finset.le_min'
    intro k hk
    obtain ⟨a, ha, rfl⟩ := mem_dom_ofList.1 hk
    rcases List.mem_cons.1 ha with rfl | ha
    · exact le_rfl
    · exact (List.rel_of_pairwise_cons h ha).le

theorem Increasing.replace (h : Increasing (pre ++ (k, w) :: post)) (v : V) :
    Increasing (pre ++ (k, v) :: post) := by
  have hkeys : (pre ++ (k, w) :: post).map Prod.fst = (pre ++ (k, v) :: post).map Prod.fst := by
    simp
  have hk : ((pre ++ (k, w) :: post).map Prod.fst).Pairwise (· < ·) := List.pairwise_map.2 h
  rw [hkeys] at hk
  exact List.pairwise_map.1 hk

/-- An entry between those before and those after it keeps a list increasing. -/
theorem Increasing.insert (h : Increasing (pre ++ post)) (hpre : ∀ e ∈ pre, e.1 < k)
    (hpost : ∀ e ∈ post, k < e.1) (v : V) : Increasing (pre ++ (k, v) :: post) := by
  obtain ⟨hl, hr, hcross⟩ := List.pairwise_append.1 h
  refine List.pairwise_append.2 ⟨hl, List.pairwise_cons.2 ⟨hpost, hr⟩, ?_⟩
  intro a ha b hb
  rcases List.mem_cons.1 hb with rfl | hb
  · exact hpre a ha
  · exact hcross a ha b hb

theorem Increasing.key_ne (h : Increasing (pre ++ (k, v) :: post)) {e : K × V}
    (he : e ∈ pre ++ post) : e.1 ≠ k := by
  obtain ⟨-, hpost, hcross⟩ := List.pairwise_append.1 h
  rcases List.mem_append.1 he with he | he
  · exact ne_of_lt (hcross e he (k, v) List.mem_cons_self)
  · exact ne_of_gt (List.rel_of_pairwise_cons hpost he)

theorem Increasing.remove (h : Increasing (pre ++ (k, v) :: post)) : Increasing (pre ++ post) :=
  h.sublist ((List.Sublist.refl pre).append (List.sublist_cons_self _ _))

theorem put_ofList (h : Increasing (pre ++ (k, v) :: post)) :
    (ofList (pre ++ post)).put k v = ofList (pre ++ (k, v) :: post) := by
  apply ext_mem
  intro k' v'
  rw [get_put, get_ofList h, get_ofList h.remove]
  constructor
  · rintro (⟨rfl, rfl⟩ | ⟨-, hmem⟩)
    · simp
    · rcases List.mem_append.1 hmem with hm | hm <;> simp [hm]
  · intro hmem
    rcases eq_or_ne (k', v') (k, v) with heq | hne
    · exact .inl (by simpa using heq)
    · have hm : (k', v') ∈ pre ++ post := by
        simp only [List.mem_append, List.mem_cons, hne, false_or] at hmem ⊢
        exact hmem
      exact .inr ⟨h.key_ne hm, hm⟩

theorem put_ofList_replace (h : Increasing (pre ++ (k, w) :: post)) :
    (ofList (pre ++ (k, w) :: post)).put k v = ofList (pre ++ (k, v) :: post) := by
  rw [← put_ofList (h.replace v), ← put_ofList h]
  apply ext_mem
  intro k' v'
  simp only [get_put]
  tauto

theorem erase_ofList_head {e : K × V} (h : Increasing (e :: l)) :
    (ofList (e :: l)).erase e.1 = ofList l := by
  apply ext_mem
  intro k' v'
  rw [get_erase, get_ofList h, get_ofList h.of_cons]
  constructor
  · rintro ⟨hne, hmem⟩
    rcases List.mem_cons.1 hmem with heq | hm
    · exact absurd (congrArg Prod.fst heq) hne
    · exact hm
  · intro hm
    exact ⟨ne_of_gt (List.rel_of_pairwise_cons h hm), List.mem_cons_of_mem _ hm⟩

/-! ### Offers to an increasing list -/

theorem offer_ofList_replace (h : Increasing (pre ++ (k, w) :: post)) :
    (ofList (pre ++ (k, w) :: post)).offer cap k v = (true, ofList (pre ++ (k, v) :: post)) := by
  have hmem : k ∈ (ofList (pre ++ (k, w) :: post)).dom := mem_dom_ofList.2 ⟨(k, w), by simp, rfl⟩
  simp only [offer, hmem, true_or, ↓reduceIte, put_ofList_replace h]

theorem offer_ofList_insert (h : Increasing (pre ++ (k, v) :: post))
    (hcap : (pre ++ post).length < cap) :
    (ofList (pre ++ post)).offer cap k v = (true, ofList (pre ++ (k, v) :: post)) := by
  have hcard : (ofList (pre ++ post)).dom.card < cap := by rwa [card_dom_ofList h.remove]
  simp only [offer, hcard, or_true, ↓reduceIte, put_ofList h]

theorem offer_ofList_reject {e : K × V} (h : Increasing ((k, v) :: e :: l))
    (hcap : cap ≤ (e :: l).length) :
    (ofList (e :: l)).offer cap k v = (false, ofList (e :: l)) := by
  have hmem : k ∉ (ofList (e :: l)).dom := by
    rintro hmem
    obtain ⟨a, ha, hak⟩ := mem_dom_ofList.1 hmem
    rw [← List.nil_append (e :: l)] at ha
    exact h.key_ne ha hak
  have hcard : ¬ (ofList (e :: l)).dom.card < cap := by
    rw [card_dom_ofList h.of_cons]
    omega
  have hne : (ofList (e :: l)).dom.Nonempty := ⟨e.1, mem_dom_ofList.2 ⟨e, by simp, rfl⟩⟩
  have hlt : k < e.1 := List.rel_of_pairwise_cons h List.mem_cons_self
  simp only [offer, hmem, hcard, or_self, ↓reduceIte, hne, ↓reduceDIte, min_dom_ofList h.of_cons,
    hlt]

/-- A new key and no room, not before all others: the entry is inserted and the first one goes. -/
theorem offer_ofList_evict {e : K × V} (h : Increasing (e :: pre ++ (k, v) :: post))
    (hcap : cap ≤ (e :: (pre ++ post)).length) :
    (ofList (e :: (pre ++ post))).offer cap k v = (true, ofList (pre ++ (k, v) :: post)) := by
  have hmem : k ∉ (ofList (e :: (pre ++ post))).dom := by
    rintro hmem
    obtain ⟨a, ha, hak⟩ := mem_dom_ofList.1 hmem
    exact h.key_ne ha hak
  have hinc : Increasing (e :: (pre ++ post)) := h.remove
  have hcard : ¬ (ofList (e :: (pre ++ post))).dom.card < cap := by
    rw [card_dom_ofList hinc]
    omega
  have hne : (ofList (e :: (pre ++ post))).dom.Nonempty :=
    ⟨e.1, mem_dom_ofList.2 ⟨e, by simp, rfl⟩⟩
  have hhead := List.pairwise_cons.1 h
  have hlt : ¬ k < e.1 := not_lt.2 (hhead.1 (k, v) (by simp)).le
  have htail : Increasing (pre ++ (k, v) :: post) := hhead.2
  simp only [offer, hmem, hcard, or_self, ↓reduceIte, hne, ↓reduceDIte, min_dom_ofList hinc, hlt,
    erase_ofList_head hinc, put_ofList htail]

/-- A new key that is not turned away: the entry is inserted, and the first one goes if there was no
room. -/
theorem offer_ofList_place {n : ℕ} (h : Increasing (pre ++ (k, v) :: post))
    (hn : n = if (pre ++ post).length = cap then 1 else 0) (hpre : n ≤ pre.length)
    (hcap : (pre ++ post).length ≤ cap) :
    (ofList (pre ++ post)).offer cap k v = (true, ofList (pre.drop n ++ (k, v) :: post)) := by
  split_ifs at hn with hfull
  · cases pre with
    | nil => rw [hn] at hpre; exact absurd hpre (by simp)
    | cons e pre =>
      rw [hn, List.drop_one, List.tail_cons]
      exact offer_ofList_evict h hfull.ge
  · rw [hn, List.drop_zero]
    exact offer_ofList_insert h (by omega)

/-! ### Offers in any order -/

/-- The entries of a list, offered one after the other. -/
def offerAll (cap : ℕ) (l : List (K × V)) (m : FinMap K V) : FinMap K V :=
  l.foldl (fun m e => (m.offer cap e.1 e.2).2) m

theorem offerAll_append_singleton (l : List (K × V)) (e : K × V) (m : FinMap K V) :
    offerAll cap (l ++ [e]) m = ((offerAll cap l m).offer cap e.1 e.2).2 := by
  rw [offerAll, List.foldl_append]
  rfl

/-- Two increasing lists of the same entries are the same. -/
theorem Increasing.eq_of_perm {l₁ l₂ : List (K × V)} (h₁ : Increasing l₁) (h₂ : Increasing l₂)
    (h : l₁.Perm l₂) : l₁ = l₂ := by
  refine h.eq_of_pairwise ?_ h₁ h₂
  intro a b _ _ hab hba
  exact absurd hab (lt_asymm hba)

theorem Increasing.nodup (h : Increasing l) : l.Nodup := by
  refine h.imp ?_
  rintro a _ hlt rfl
  exact lt_irrefl _ hlt

theorem Increasing.eq_of_ofList_eq {l₁ l₂ : List (K × V)} (h₁ : Increasing l₁)
    (h₂ : Increasing l₂) (h : ofList l₁ = ofList l₂) : l₁ = l₂ := by
  refine h₁.eq_of_perm h₂ ((List.perm_ext_iff_of_nodup h₁.nodup h₂.nodup).2 ?_)
  rintro ⟨k, v⟩
  rw [← get_ofList h₁, ← get_ofList h₂, h]

theorem Increasing.split (h : Increasing l) (hk : ∀ e ∈ l, e.1 ≠ k) :
    ∃ pre post, l = pre ++ post ∧ (∀ e ∈ pre, e.1 < k) ∧ ∀ e ∈ post, k < e.1 := by
  induction l with
  | nil => exact ⟨[], [], rfl, by simp, by simp⟩
  | cons a l ih =>
    rcases lt_or_gt_of_ne (hk a List.mem_cons_self) with hlt | hgt
    · obtain ⟨pre, post, rfl, hpre, hpost⟩ :=
        ih h.of_cons fun e he => hk e (List.mem_cons_of_mem a he)
      exact ⟨a :: pre, post, rfl, List.forall_mem_cons.2 ⟨hlt, hpre⟩, hpost⟩
    · refine ⟨[], a :: l, rfl, by simp, List.forall_mem_cons.2 ⟨hgt, ?_⟩⟩
      intro e he
      exact hgt.trans (List.rel_of_pairwise_cons h he)

/-- A new key offered to the last entries of an increasing list leaves the last entries of the list
with the new one. -/
theorem offer_ofList_drop (h : Increasing (pre ++ (k, v) :: post)) (hcap : 0 < cap) :
    ((ofList ((pre ++ post).drop ((pre ++ post).length - cap))).offer cap k v).2 =
      ofList ((pre ++ (k, v) :: post).drop ((pre ++ (k, v) :: post).length - cap)) := by
  have hlen : (pre ++ (k, v) :: post).length = (pre ++ post).length + 1 := by
    simp only [List.length_append, List.length_cons]
    omega
  rw [hlen, List.length_append]
  generalize hd : pre.length + post.length - cap = d
  rcases Nat.lt_or_ge (pre.length + post.length) cap with hroom | hfull
  · -- nothing has been pushed out so far
    have hd' : pre.length + post.length + 1 - cap = 0 := by omega
    obtain rfl : d = 0 := by omega
    rw [hd', List.drop_zero, List.drop_zero,
      offer_ofList_insert h (by rw [List.length_append]; exact hroom)]
  · have hd' : pre.length + post.length + 1 - cap = d + 1 := by omega
    rw [hd']
    rcases Nat.lt_or_ge d pre.length with hlt | hge
    · -- the first one left gives way
      obtain ⟨e, rest, hrest⟩ := List.exists_cons_of_length_pos
        (show 0 < (pre.drop d).length by rw [List.length_drop]; omega)
      have htail : pre.drop (d + 1) = rest := by
        rw [← List.drop_drop, hrest]
        rfl
      have hsub : Increasing (e :: rest ++ (k, v) :: post) := by
        rw [← hrest]
        exact h.sublist ((List.drop_sublist d pre).append_right _)
      have hlen' : cap ≤ (e :: (rest ++ post)).length := by
        have := congrArg List.length hrest
        simp only [List.length_drop, List.length_cons] at this
        simp only [List.length_cons, List.length_append]
        omega
      rw [List.drop_append_of_le_length hlt.le, List.drop_append_of_le_length hlt, hrest, htail,
        List.cons_append, offer_ofList_evict hsub hlen']
    · -- the new one lies before all that are left
      obtain ⟨j, rfl⟩ := Nat.exists_eq_add_of_le hge
      have hj : j < post.length := by omega
      obtain ⟨e, rest, hrest⟩ := List.exists_cons_of_length_pos
        (show 0 < (post.drop j).length by rw [List.length_drop]; omega)
      have hsub : Increasing ((k, v) :: e :: rest) := by
        rw [← hrest]
        refine (List.pairwise_append.1 h).2.1.sublist ?_
        exact (List.drop_sublist j post).cons_cons _
      have hlen' : cap ≤ (e :: rest).length := by
        rw [← hrest, List.length_drop]
        omega
      rw [Nat.add_assoc, List.drop_length_add_append, List.drop_length_add_append,
        List.drop_succ_cons, hrest, offer_ofList_reject hsub hlen']

/-- **The order of the offers does not matter**: if no key repeats, the last entries in the order of
keys are left. -/
theorem offerAll_eq (hcap : 0 < cap) (hl : (l.map Prod.fst).Nodup) :
    ∃ s, s.Perm l ∧ Increasing s ∧ offerAll cap l empty = ofList (s.drop (s.length - cap)) := by
  induction l using List.reverseRecOn with
  | nil =>
    refine ⟨[], .refl _, List.Pairwise.nil, ?_⟩
    rw [List.drop_nil, ofList_nil]
    rfl
  | append_singleton l e ih =>
    rw [List.map_append, List.nodup_append] at hl
    obtain ⟨hnodup, -, hnew⟩ := hl
    obtain ⟨s, hperm, hinc, heq⟩ := ih hnodup
    have hk : ∀ a ∈ s, a.1 ≠ e.1 := by
      intro a ha
      exact hnew a.1 (List.mem_map_of_mem (hperm.mem_iff.1 ha)) e.1 (by simp)
    obtain ⟨pre, post, rfl, hpre, hpost⟩ := hinc.split hk
    refine ⟨pre ++ e :: post, ?_, hinc.insert hpre hpost e.2, ?_⟩
    · have hmid : (pre ++ e :: post).Perm (e :: (pre ++ post)) := List.perm_middle
      exact hmid.trans ((hperm.cons e).trans (List.perm_append_singleton e l).symm)
    · rw [offerAll_append_singleton, heq]
      exact offer_ofList_drop (hinc.insert hpre hpost e.2) hcap

/-- As many keys of an increasing list are above a bound as there are entries from some place on
that are all above it. -/
theorem Increasing.le_length_filter (h : Increasing l) {n : ℕ} :
    n ≤ (l.filter fun e => k < e.1).length ↔
      n ≤ l.length ∧ ∀ e ∈ l.drop (l.length - n), k < e.1 := by
  constructor
  · intro hn
    refine ⟨hn.trans (List.length_filter_le _ _), ?_⟩
    induction l with
    | nil => simp
    | cons a l ih =>
      by_cases hk : k < a.1
      · -- all are above the bound
        intro e he
        rcases List.mem_cons.1 (List.mem_of_mem_drop he) with rfl | he
        · exact hk
        · exact hk.trans (List.rel_of_pairwise_cons h he)
      · rw [List.filter_cons_of_neg (by simpa using hk)] at hn
        have hle : n ≤ l.length := hn.trans (List.length_filter_le _ _)
        rw [List.length_cons, Nat.sub_add_comm hle, List.drop_succ_cons]
        exact ih h.of_cons hn
  · rintro ⟨hn, hall⟩
    have hself : (l.drop (l.length - n)).filter (fun e => k < e.1) = l.drop (l.length - n) :=
      List.filter_eq_self.2 fun e he => by simpa using hall e he
    have hsub := ((List.drop_sublist (l.length - n) l).filter fun e => k < e.1).length_le
    rw [hself, List.length_drop] at hsub
    omega

/-! ### Offers with repeated keys -/

/-- The entries of a list, put one after the other. -/
def putAll (l : List (K × V)) (m : FinMap K V) : FinMap K V :=
  l.foldl (fun m e => m.put e.1 e.2) m

theorem putAll_append_singleton (l : List (K × V)) (e : K × V) (m : FinMap K V) :
    putAll (l ++ [e]) m = (putAll l m).put e.1 e.2 := by
  rw [putAll, List.foldl_append]
  rfl

/-- At every key is the value that was last put there. -/
theorem get_putAll (l : List (K × V)) (k : K) (v : V) :
    (putAll l empty).get k = some v ↔ l.reverse.find? (fun e => e.1 = k) = some (k, v) := by
  induction l using List.reverseRecOn with
  | nil => simp [putAll, empty]
  | append_singleton l e ih =>
    obtain ⟨k', v'⟩ := e
    rw [putAll_append_singleton, get_put, List.reverse_append, List.reverse_singleton,
      List.singleton_append]
    by_cases hk : k' = k
    · subst hk
      rw [List.find?_cons_of_pos (by simp)]
      simp [eq_comm]
    · rw [List.find?_cons_of_neg (by simpa using hk), ← ih]
      constructor
      · rintro (⟨rfl, -⟩ | ⟨-, h⟩)
        · exact absurd rfl hk
        · exact h
      · exact fun h => .inr ⟨fun heq => hk heq.symm, h⟩

/-- A known key offered to the last entries of an increasing list: its entry is replaced if it is
among them, and else nothing happens. -/
theorem offer_ofList_drop_replace (h : Increasing (pre ++ (k, w) :: post)) (hcap : 0 < cap) :
    ((ofList ((pre ++ (k, w) :: post).drop
        ((pre ++ (k, w) :: post).length - cap))).offer cap k v).2 =
      ofList ((pre ++ (k, v) :: post).drop ((pre ++ (k, v) :: post).length - cap)) := by
  have hlen : (pre ++ (k, v) :: post).length = (pre ++ (k, w) :: post).length := by
    simp only [List.length_append, List.length_cons]
  rw [hlen]
  have hlen' : (pre ++ (k, w) :: post).length = pre.length + post.length + 1 := by
    simp only [List.length_append, List.length_cons]
    omega
  generalize hd : (pre ++ (k, w) :: post).length - cap = d
  rcases Nat.lt_or_ge pre.length d with hlt | hge
  · -- the entry has been pushed out, and all that are left lie behind it
    obtain ⟨j, rfl⟩ := Nat.exists_eq_add_of_le hlt
    obtain ⟨e, rest, hrest⟩ := List.exists_cons_of_length_pos
      (show 0 < (post.drop j).length by rw [List.length_drop]; omega)
    have hsub : Increasing ((k, v) :: e :: rest) := by
      rw [← hrest]
      refine (List.pairwise_append.1 (h.replace v)).2.1.sublist ?_
      exact (List.drop_sublist j post).cons_cons _
    have hfull : cap ≤ (e :: rest).length := by
      rw [← hrest, List.length_drop]
      omega
    have hdrop : ∀ u : V, (pre ++ (k, u) :: post).drop (pre.length + 1 + j) = e :: rest := by
      intro u
      rw [Nat.add_assoc, List.drop_length_add_append, Nat.add_comm, List.drop_succ_cons, hrest]
    rw [Nat.succ_eq_add_one, hdrop, hdrop, offer_ofList_reject hsub hfull]
  · have hsub : Increasing (pre.drop d ++ (k, w) :: post) :=
      h.sublist ((List.drop_sublist d pre).append_right _)
    rw [List.drop_append_of_le_length hge, List.drop_append_of_le_length hge,
      offer_ofList_replace hsub]

/-- **Offers keep the entries of greatest key of the last values.** -/
theorem offerAll_putAll (hcap : 0 < cap) (l : List (K × V)) :
    ∃ s, Increasing s ∧ ofList s = putAll l empty ∧
      offerAll cap l empty = ofList (s.drop (s.length - cap)) := by
  induction l using List.reverseRecOn with
  | nil =>
    refine ⟨[], List.Pairwise.nil, ofList_nil, ?_⟩
    rw [List.drop_nil, ofList_nil]
    rfl
  | append_singleton l e ih =>
    obtain ⟨s, hinc, hput, hoffer⟩ := ih
    obtain ⟨k, v⟩ := e
    rw [putAll_append_singleton, offerAll_append_singleton, ← hput, hoffer]
    by_cases hk : ∃ a ∈ s, a.1 = k
    · obtain ⟨⟨k', w⟩, hmem, rfl⟩ := hk
      obtain ⟨pre, post, rfl⟩ := List.append_of_mem hmem
      exact ⟨pre ++ (k', v) :: post, hinc.replace v, (put_ofList_replace hinc).symm,
        offer_ofList_drop_replace hinc hcap⟩
    · obtain ⟨pre, post, rfl, hpre, hpost⟩ := hinc.split (k := k) fun a ha heq => hk ⟨a, ha, heq⟩
      have hinc' := hinc.insert hpre hpost v
      exact ⟨pre ++ (k, v) :: post, hinc', (put_ofList hinc').symm, offer_ofList_drop hinc' hcap⟩

theorem next_ofList (h : Increasing l) (k : K) :
    (ofList l).next k = l.find? fun e => k ≤ e.1 := by
  cases hfind : l.find? fun e => k ≤ e.1 with
  | none =>
    have hno : ¬ ((ofList l).dom.filter (k ≤ ·)).Nonempty := by
      rintro ⟨k', hk'⟩
      obtain ⟨hdom, hle⟩ := Finset.mem_filter.1 hk'
      obtain ⟨a, ha, rfl⟩ := mem_dom_ofList.1 hdom
      exact absurd hle (by simpa using List.find?_eq_none.1 hfind a ha)
    simp only [next, hno, ↓reduceDIte]
  | some e =>
    -- the entries `as` before `e` lie below the bound, those behind it above `e`
    obtain ⟨hle, as, bs, rfl, has⟩ := List.find?_eq_some_iff_append.1 hfind
    have hke : k ≤ e.1 := by simpa using hle
    have hmem : e.1 ∈ (ofList (as ++ e :: bs)).dom.filter (k ≤ ·) :=
      Finset.mem_filter.2 ⟨mem_dom_ofList.2 ⟨e, by simp, rfl⟩, hke⟩
    have hmin : ((ofList (as ++ e :: bs)).dom.filter (k ≤ ·)).min' ⟨_, hmem⟩ = e.1 := by
      apply le_antisymm (Finset.min'_le _ _ hmem)
      apply Finset.le_min'
      intro k' hk'
      obtain ⟨hdom, hle'⟩ := Finset.mem_filter.1 hk'
      obtain ⟨a, ha, rfl⟩ := mem_dom_ofList.1 hdom
      rcases List.mem_append.1 ha with ha | ha
      · exact absurd hle' (by simpa using has a ha)
      · rcases List.mem_cons.1 ha with rfl | ha
        · exact le_rfl
        · exact (List.rel_of_pairwise_cons (List.pairwise_append.1 h).2.1 ha).le
    have hget : (ofList (as ++ e :: bs)).get e.1 = some e.2 := (get_ofList h).2 (by simp)
    have hne : ((ofList (as ++ e :: bs)).dom.filter (k ≤ ·)).Nonempty := ⟨_, hmem⟩
    simp only [next, hne, ↓reduceDIte, hmin, hget, Option.map_some]

end FinMap

end SdrProxy
