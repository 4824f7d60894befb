import SdrProxy.Lib.LinkedList
import SdrProxy.History

/-!
# The list of records

What `clhistory_lookup` does to a list of records in terms of the clients that it knows.

* `HistList` : the records of a list, one for each client;
* `HistHeap.book` : what the list says about a client;
* `HistList.book_update` : how the book changes with one record;
* `clhistoryLookup_retr`, `clhistoryLookup_add` : `ID_RETR` finds the record of a client, `ID_ADD`
  appends one for a client that has none.
-/

namespace SdrProxy

/-- A client, as the records know it: the IP address and the server port. -/
abbrev Address := List UInt8 × ℤ

/-- What a record says. -/
structure HistEntry where
  /-- Whose record it is. -/
  address : Address
  /-- Unix time of the last change. -/
  lastUpdate : ℤ
  /-- Time of the last packet sent to the client. -/
  lastPacketTime : PacketTime
  deriving DecidableEq

/-- What the record says. -/
def ConnHistData.entry (r : ConnHistData) : HistEntry :=
  ⟨(r.ip, r.serverPort), r.lastUpdate, r.lastPacketTime⟩

namespace HistHeap

/-- What the record behind a pointer says. -/
def entry (p : ℕ) (h : HistHeap) : Option HistEntry := (h.recs p).map ConnHistData.entry

/-- The record of the client among those at `l`. -/
def find (l : List ℕ) (a : Address) (h : HistHeap) : Option ℕ :=
  l.find? fun p => (h.entry p).any fun e => e.address = a

/-- What the records at `l` say about the client. -/
def book (l : List ℕ) (h : HistHeap) (a : Address) : Option HistEntry :=
  (h.find l a).bind fun p => h.entry p

end HistHeap

/-- The list at `head` has the records at `l`, one for each client. -/
structure HistList (h : HistHeap) (head : Option ℕ) (l : List ℕ) : Prop where
  linked : Linked ConnHistData.next h.recs head l
  lt_made : ∀ p ∈ l, p < h.made
  distinct : ∀ p ∈ l, ∀ q ∈ l, ∀ e e', h.entry p = some e → h.entry q = some e' →
    e.address = e'.address → p = q

variable {h h' : HistHeap} {head head' : Option ℕ} {l l' : List ℕ} {a : Address} {e : HistEntry}
variable {p q : ℕ} {r r' : ConnHistData}

namespace HistHeap

theorem entry_of_recs (hr : h.recs p = some r) : h.entry p = some r.entry := by
  rw [entry, hr]
  rfl

theorem entry_eq_some : h.entry p = some e ↔ ∃ r, h.recs p = some r ∧ r.entry = e := by
  rw [entry, Option.map_eq_some_iff]

theorem entry_modify_self (r : ConnHistData) : (h.modify p r).entry p = some r.entry :=
  entry_of_recs (Function.update_self _ _ _)

theorem entry_modify_of_ne (hq : q ≠ p) (r : ConnHistData) : (h.modify p r).entry q = h.entry q :=
  congrArg (Option.map ConnHistData.entry) (Function.update_of_ne hq _ _)

theorem find_eq_none : h.find l a = none ↔ ∀ p ∈ l, ∀ e, h.entry p = some e → e.address ≠ a := by
  rw [find, List.find?_eq_none]
  refine forall₂_congr fun p _ => ?_
  cases h.entry p <;> simp

theorem mem_of_find (hp : h.find l a = some p) : p ∈ l := List.mem_of_find?_eq_some hp

theorem address_of_find (hp : h.find l a = some p) : ∃ e, h.entry p = some e ∧ e.address = a := by
  have hany := List.find?_some hp
  cases hentry : h.entry p with
  | none => simp [hentry] at hany
  | some e => exact ⟨e, rfl, by simpa [hentry] using hany⟩

end HistHeap

namespace HistList

/-- The record of a client is found. -/
theorem find_eq_some (hl : HistList h head l) :
    h.find l a = some p ↔ p ∈ l ∧ ∃ e, h.entry p = some e ∧ e.address = a := by
  constructor
  · intro hp
    exact ⟨HistHeap.mem_of_find hp, HistHeap.address_of_find hp⟩
  · rintro ⟨hp, e, he, rfl⟩
    cases hfind : h.find l e.address with
    | none => exact absurd rfl (HistHeap.find_eq_none.1 hfind p hp e he)
    | some q =>
      obtain ⟨e', he', haddr⟩ := HistHeap.address_of_find hfind
      rw [hl.distinct q (HistHeap.mem_of_find hfind) p hp e' e he' he haddr]

theorem book_eq_some (hl : HistList h head l) :
    h.book l a = some e ↔ ∃ p ∈ l, h.entry p = some e ∧ e.address = a := by
  rw [HistHeap.book, Option.bind_eq_some_iff]
  constructor
  · rintro ⟨p, hp, he⟩
    obtain ⟨hmem, e', he', haddr⟩ := hl.find_eq_some.1 hp
    rw [he] at he'
    obtain rfl := Option.some.inj he'
    exact ⟨p, hmem, he, haddr⟩
  · rintro ⟨p, hp, he, haddr⟩
    exact ⟨p, hl.find_eq_some.2 ⟨hp, e, he, haddr⟩, he⟩

theorem book_eq_none : h.book l a = none ↔ h.find l a = none := by
  rw [HistHeap.book, Option.bind_eq_none_iff]
  constructor
  · intro hnone
    cases hfind : h.find l a with
    | none => rfl
    | some p =>
      obtain ⟨e, he, -⟩ := HistHeap.address_of_find hfind
      exact absurd he (by rw [hnone p hfind]; simp)
  · intro hnone p hp
    rw [hnone] at hp
    cases hp

theorem length_le (hl : HistList h head l) : l.length ≤ h.made :=
  hl.linked.length_le_of_lt hl.lt_made

theorem empty : HistList .empty none [] :=
  ⟨.nil, by simp, by simp⟩

theorem modify (hl : HistList h head l) (hr : h.recs p = some r) (hnext : r'.next = r.next)
    (haddr : r'.entry.address = r.entry.address) : HistList (h.modify p r') head l := by
  have hkeep : ∀ q e, (h.modify p r').entry q = some e →
      ∃ e', h.entry q = some e' ∧ e'.address = e.address := by
    intro q e he
    by_cases hq : q = p
    · subst hq
      rw [HistHeap.entry_modify_self] at he
      obtain rfl := Option.some.inj he
      exact ⟨r.entry, HistHeap.entry_of_recs hr, haddr.symm⟩
    · rw [HistHeap.entry_modify_of_ne hq] at he
      exact ⟨e, he, rfl⟩
  refine ⟨hl.linked.congr ?_, hl.lt_made, ?_⟩
  · intro q _ c hc
    by_cases hq : q = p
    · subst hq
      rw [hr] at hc
      obtain rfl := Option.some.inj hc
      exact ⟨r', Function.update_self _ _ _, hnext⟩
    · exact ⟨c, (Function.update_of_ne hq _ _).trans hc, rfl⟩
  · intro q hq s hs e e' he he' hsame
    obtain ⟨e₀, he₀, haddr₀⟩ := hkeep q e he
    obtain ⟨e₁, he₁, haddr₁⟩ := hkeep s e' he'
    exact hl.distinct q hq s hs e₀ e₁ he₀ he₁ (haddr₀.trans (hsame.trans haddr₁.symm))

/-- **How the book changes with one record**, new or of the same client as before. -/
theorem book_update (hl : HistList h head l) (hl' : HistList h' head' l') (hp : p ∈ l')
    (he : h'.entry p = some e) (hmem : ∀ q, q ≠ p → (q ∈ l' ↔ q ∈ l))
    (hrest : ∀ q ∈ l, q ≠ p → h'.entry q = h.entry q)
    (hold : p ∈ l → ∃ e₀, h.entry p = some e₀ ∧ e₀.address = e.address) :
    h'.book l' = Function.update (h.book l) e.address (some e) := by
  funext b
  by_cases hb : b = e.address
  · subst hb
    rw [Function.update_self]
    exact hl'.book_eq_some.2 ⟨p, hp, he, rfl⟩
  · rw [Function.update_of_ne hb]
    refine Option.ext fun e' => ?_
    rw [hl'.book_eq_some, hl.book_eq_some]
    constructor
    · rintro ⟨q, hq, he', rfl⟩
      have hne : q ≠ p := by
        rintro rfl
        rw [he] at he'
        obtain rfl := Option.some.inj he'
        exact hb rfl
      have hql := (hmem q hne).1 hq
      exact ⟨q, hql, (hrest q hql hne).symm.trans he', rfl⟩
    · rintro ⟨q, hq, he', rfl⟩
      have hne : q ≠ p := by
        rintro rfl
        obtain ⟨e₀, he₀, haddr⟩ := hold hq
        rw [he'] at he₀
        obtain rfl := Option.some.inj he₀
        exact hb haddr
      exact ⟨q, (hmem q hne).2 hq, (hrest q hq hne).trans he', rfl⟩

theorem find_modify (hl : HistList h head l) (hr : h.recs p = some r) (hnext : r'.next = r.next)
    (haddr : r'.entry.address = r.entry.address) (b : Address) :
    (h.modify p r').find l b = h.find l b := by
  refine Option.ext fun q => ?_
  rw [(hl.modify hr hnext haddr).find_eq_some, hl.find_eq_some]
  refine and_congr_right fun _ => ?_
  by_cases hq : q = p
  · subst hq
    rw [HistHeap.entry_modify_self, HistHeap.entry_of_recs hr]
    simp [haddr]
  · rw [HistHeap.entry_modify_of_ne hq]

theorem book_modify (hl : HistList h head l) (hp : p ∈ l) (hr : h.recs p = some r)
    (hnext : r'.next = r.next) (haddr : r'.entry.address = r.entry.address) :
    (h.modify p r').book l = Function.update (h.book l) r.entry.address (some r'.entry) := by
  rw [← haddr]
  refine hl.book_update (hl.modify hr hnext haddr) hp (HistHeap.entry_modify_self r')
    (fun q _ => Iff.rfl) ?_ ?_
  · intro q _ hq
    exact HistHeap.entry_modify_of_ne hq r'
  · intro _
    exact ⟨r.entry, HistHeap.entry_of_recs hr, haddr.symm⟩

theorem find_of_append (hl : HistList h head l) (hl' : HistList h' head' (l ++ [h.made]))
    (hold : ∀ q ∈ l, h'.entry q = h.entry q) {b : Address} (hp : h.find l b = some p) :
    h'.find (l ++ [h.made]) b = some p := by
  obtain ⟨hmem, e, he, haddr⟩ := hl.find_eq_some.1 hp
  exact hl'.find_eq_some.2 ⟨List.mem_append_left _ hmem, e, (hold p hmem).trans he, haddr⟩

theorem book_append (hl : HistList h head l) (hl' : HistList h' head' (l ++ [h.made]))
    (hnew : h'.entry h.made = some e) (hold : ∀ q ∈ l, h'.entry q = h.entry q) :
    h'.book (l ++ [h.made]) = Function.update (h.book l) e.address (some e) := by
  refine hl.book_update hl' (List.mem_append_right _ (List.mem_singleton_self _)) hnew ?_
    (fun q hq _ => hold q hq) ?_
  · intro q hq
    rw [List.mem_append, List.mem_singleton, or_iff_left hq]
  · intro hmem
    exact absurd (hl.lt_made _ hmem) (Nat.lt_irrefl _)

end HistList

/-! ### `clhistory_lookup` -/

namespace HistHeap

theorem entry_any_iff (hr : h.recs p = some r) :
    (h.entry p).any (fun e => decide (e.address = a)) = true ↔
      ¬ (r.ip ≠ a.1 ∨ r.serverPort ≠ a.2) := by
  rw [entry_of_recs hr, Option.any_some, decide_eq_true_eq, not_or, not_not, not_not]
  exact Prod.ext_iff

/-- The loop finds the record of the client, and ends behind the last record if there is none. -/
theorem findLoop_spec (a : Address) {fuel : ℕ} (prev : Option ℕ)
    (hl : Linked ConnHistData.next h.recs head l) (hfuel : l.length ≤ fuel) : ∃ prev',
    findLoop a.1 a.2 h fuel prev head = .ok (prev', h.find l a) ∧
      (h.find l a = none → prev' = l.getLast?.or prev) := by
  induction hl generalizing fuel prev with
  | nil =>
    refine ⟨prev, ?_, fun _ => rfl⟩
    cases fuel <;> rfl
  | @cons p r l hr hrest ih =>
    obtain ⟨fuel, rfl⟩ : ∃ k, fuel = k + 1 := ⟨fuel - 1, by rw [List.length_cons] at hfuel; omega⟩
    have hderef : h.deref (some p) = .ok r := deref_eq_ok.2 ⟨p, rfl, hr⟩
    by_cases hne : r.ip ≠ a.1 ∨ r.serverPort ≠ a.2
    · have hskip : h.find (p :: l) a = h.find l a :=
        List.find?_cons_of_neg fun hany => (entry_any_iff hr).1 hany hne
      obtain ⟨prev', heq, hprev⟩ := ih (some p) (Nat.le_of_succ_le_succ hfuel)
      refine ⟨prev', ?_, ?_⟩
      · rw [hskip, ← heq]
        simp only [findLoop, hderef, bind, Except.bind, hne, ↓reduceIte]
      · intro hnone
        rw [hprev (hskip.symm.trans hnone)]
        cases l with
        | nil => rfl
        | cons q l => simp [List.getLast?_cons]
    · have hfound : h.find (p :: l) a = some p :=
        List.find?_cons_of_pos ((entry_any_iff hr).2 hne)
      refine ⟨prev, ?_, fun hnone => ?_⟩
      · rw [hfound]
        simp only [findLoop, hderef, bind, Except.bind, hne, ↓reduceIte]
        rfl
      · rw [hfound] at hnone
        cases hnone

end HistHeap

namespace HistList

/-- **`ID_RETR` finds the record of the client.** -/
theorem clhistoryLookup_retr (hl : HistList h head l) (a : Address) (searchTime : ℤ) :
    h.clhistoryLookup head a.1 a.2 searchTime .ID_RETR = .ok (h.find l a, head, h) := by
  obtain ⟨prev, heq, -⟩ := HistHeap.findLoop_spec a none hl.linked
    (hl.length_le.trans (Nat.le_succ _))
  simp only [HistHeap.clhistoryLookup, heq, bind, Except.bind]
  rfl

theorem append (hl : HistList h head l) (hnone : h.find l e.address = none)
    (hlinked : Linked ConnHistData.next h'.recs head' (l ++ [h.made]))
    (hmade : h'.made = h.made + 1) (hnew : h'.entry h.made = some e)
    (hold : ∀ q ∈ l, h'.entry q = h.entry q) : HistList h' head' (l ++ [h.made]) := by
  have hno : ∀ q ∈ l, ∀ e', h'.entry q = some e' → e'.address ≠ e.address := by
    intro q hq e' he'
    rw [hold q hq] at he'
    exact HistHeap.find_eq_none.1 hnone q hq e' he'
  refine ⟨hlinked, ?_, ?_⟩
  · intro p hp
    rw [hmade]
    rcases List.mem_append.1 hp with hp | hp
    · exact Nat.lt_succ_of_lt (hl.lt_made p hp)
    · obtain rfl := List.mem_singleton.1 hp
      exact Nat.lt_succ_self _
  · intro p hp q hq e₀ e₁ he₀ he₁ haddr
    rcases List.mem_append.1 hp with hp | hp <;> rcases List.mem_append.1 hq with hq | hq
    · rw [hold p hp] at he₀
      rw [hold q hq] at he₁
      exact hl.distinct p hp q hq e₀ e₁ he₀ he₁ haddr
    · obtain rfl := List.mem_singleton.1 hq
      rw [hnew] at he₁
      obtain rfl := Option.some.inj he₁
      exact absurd haddr (hno p hp e₀ he₀)
    · obtain rfl := List.mem_singleton.1 hp
      rw [hnew] at he₀
      obtain rfl := Option.some.inj he₀
      exact absurd haddr.symm (hno q hq e₁ he₁)
    · rw [List.mem_singleton.1 hp, List.mem_singleton.1 hq]

theorem link_last (hl : HistList h head l) {new : ConnHistData} {z : ℕ}
    (hlast : l.getLast? = some z) (hnew : h'.recs h.made = some new) (hend : new.next = none)
    (hold : ∀ q ∈ l, h'.recs q = h.recs q) : ∃ rz, h'.recs z = some rz ∧
      Linked ConnHistData.next (h'.modify z { rz with next := some h.made }).recs head
        (l ++ [h.made]) ∧
      (h'.modify z { rz with next := some h.made }).recs h.made = some new ∧
      ∀ q ∈ l, (h'.modify z { rz with next := some h.made }).entry q = h.entry q := by
  have hz : z ∈ l := List.mem_of_getLast? hlast
  obtain ⟨rz, hrz⟩ := hl.linked.exists_of_mem hz
  have hne : h.made ≠ z := (Nat.ne_of_lt (hl.lt_made z hz)).symm
  have hnew' : (h'.modify z { rz with next := some h.made }).recs h.made = some new :=
    (Function.update_of_ne hne _ _).trans hnew
  refine ⟨rz, (hold z hz).trans hrz, ?_, hnew', ?_⟩
  · refine hl.linked.concat hlast ?_ (Function.update_self _ _ _) rfl hnew' hend
    intro q hq hqz c hc
    refine ⟨c, ?_, rfl⟩
    exact (Function.update_of_ne hqz _ _).trans ((hold q hq).trans hc)
  · intro q hq
    by_cases hqz : q = z
    · subst hqz
      rw [HistHeap.entry_modify_self, HistHeap.entry_of_recs hrz]
      rfl
    · rw [HistHeap.entry_modify_of_ne hqz]
      exact congrArg (Option.map ConnHistData.entry) (hold q hq)

/-- **`ID_ADD` appends a record for a client that has none.** -/
theorem clhistoryLookup_add (hl : HistList h head l) (a : Address) (searchTime : ℤ)
    (hnone : h.find l a = none) : ∃ head' h',
    h.clhistoryLookup head a.1 a.2 searchTime .ID_ADD = .ok (some h.made, head', h') ∧
      HistList h' head' (l ++ [h.made]) ∧ h'.entry h.made = some ⟨a, 0, 0⟩ ∧
      (∀ q ∈ l, h'.entry q = h.entry q) := by
  obtain ⟨prev, heq, hprev⟩ := HistHeap.findLoop_spec a none hl.linked
    (hl.length_le.trans (Nat.le_succ _))
  rw [hnone] at heq
  have hprev := hprev hnone
  let new : ConnHistData := ⟨0, 0, a.1, a.2, none⟩
  let h₁ : HistHeap := ⟨Function.update h.recs h.made (some new), h.made + 1⟩
  have hnew : h₁.recs h.made = some new := Function.update_self _ _ _
  cases hlast : l.getLast? with
  | none =>
    -- the first record of all
    obtain rfl := List.getLast?_eq_none_iff.1 hlast
    have hhead : head = none := by
      cases hl.linked
      rfl
    subst hhead
    have hlinked : Linked ConnHistData.next h₁.recs (some h.made) [h.made] := .cons hnew .nil
    refine ⟨some h.made, h₁, ?_, ?_, HistHeap.entry_of_recs hnew, by simp⟩
    · simp only [HistHeap.clhistoryLookup, heq, bind, Except.bind]
      rfl
    · exact hl.append (e := new.entry) hnone hlinked rfl (HistHeap.entry_of_recs hnew) (by simp)
  | some z =>
    obtain ⟨rz, hrz, hlinked, hnew', hentry⟩ := hl.link_last hlast hnew rfl
      fun q hq => Function.update_of_ne (Nat.ne_of_lt (hl.lt_made q hq)) _ _
    have hderef : h₁.deref (some z) = .ok rz := HistHeap.deref_eq_ok.2 ⟨z, rfl, hrz⟩
    obtain ⟨p₀, rfl⟩ : ∃ p₀, head = some p₀ := by
      cases hl.linked with
      | nil => cases hlast
      | cons _ _ => exact ⟨_, rfl⟩
    refine ⟨some p₀, h₁.modify z { rz with next := some h.made }, ?_, ?_,
      HistHeap.entry_of_recs hnew', hentry⟩
    · rw [hprev, hlast] at heq
      simp only [HistHeap.clhistoryLookup, heq, bind, Except.bind]
      show (h₁.deref (some z)).bind _ = _
      rw [hderef]
      rfl
    · exact hl.append (e := new.entry) hnone hlinked rfl (HistHeap.entry_of_recs hnew') hentry

end HistList

end SdrProxy
