import SdrProxy.Records

/-!
# Removal of records

The loop of `clhistory_lookup` that unlinks and frees records, for `ID_DELETE` and
`ID_REMOVE_OLD`.

* `HistHeap.removeLoop_found`, `HistHeap.removeLoop_kept` : one turn, at a record that passes the
  test and at one that does not;
* `HistHeap.removeLoop_spec` : the loop is a filter of the list;
* `HistHeap.removeLoop_fault` : with the report of each removal, it reads through the null pointer
  behind a last record that it removed;
* `HistHeap.clhistoryLookup_removeOld_iff` : so the lists that `ID_REMOVE_OLD` filters are those
  whose last record it keeps;
* `HistList.clhistoryLookup_delete` : `ID_DELETE` removes the records of a client.
-/

namespace SdrProxy

namespace HistHeap

/-- The record behind the pointer does not pass the test for removal. -/
def keeps (test : ConnHistData → Bool) (h : HistHeap) (p : ℕ) : Bool :=
  (h.recs p).any fun r => !test r

variable {test : ConnHistData → Bool} {report : Bool} {h h' : HistHeap} {head prev : Option ℕ}
variable {kept rest l : List ℕ} {p : ℕ} {r : ConnHistData}

theorem keeps_of_recs (hr : h.recs p = some r) : h.keeps test p = !test r := by
  rw [keeps, hr, Option.any_some]

/-- What one removal leaves: the list without the record `p`, which is freed. -/
structure Unlinked (h : HistHeap) (kept : List ℕ) (p : ℕ) (rest : List ℕ) (h' : HistHeap) :
    Prop where
  linked : Linked ConnHistData.next h'.recs (kept ++ rest).head? (kept ++ rest)
  recs_eq : ∀ q ∈ rest, h'.recs q = h.recs q
  entry_eq : ∀ q, q ≠ p → h'.entry q = h.entry q
  freed : h'.entry p = none
  made : h'.made = h.made

theorem entry_free_self (p : ℕ) (h : HistHeap) : (h.free p).entry p = none := by
  have hnone : (h.free p).recs p = none := Function.update_self _ _ _
  rw [entry, hnone]
  rfl

/-- The first record is removed. -/
theorem unlinked_first (hl : Linked ConnHistData.next h.recs (some p) (p :: rest)) :
    Unlinked h [] p rest (h.free p) := by
  have hnotin : p ∉ rest := (List.nodup_cons.1 hl.nodup).1
  have hrest : Linked ConnHistData.next h.recs rest.head? rest := hl.of_append (l := [p])
  have hsame : ∀ q, q ≠ p → (h.free p).recs q = h.recs q :=
    fun q hq => Function.update_of_ne hq _ _
  have hne : ∀ q ∈ rest, q ≠ p := by
    rintro q hq rfl
    exact hnotin hq
  refine ⟨hrest.congr ?_, fun q hq => hsame q (hne q hq), ?_, entry_free_self p h, rfl⟩
  · intro q hq c hc
    exact ⟨c, (hsame q (hne q hq)).trans hc, rfl⟩
  · intro q hq
    exact congrArg (Option.map ConnHistData.entry) (hsame q hq)

theorem next_eq (hl : Linked ConnHistData.next h.recs head (kept ++ p :: rest))
    (hr : h.recs p = some r) :
    r.next = rest.head? ∧ Linked ConnHistData.next h.recs r.next rest := by
  cases hl.of_append with
  | cons hc hrest =>
    rw [hr] at hc
    obtain rfl := Option.some.inj hc
    exact ⟨hrest.head_eq, hrest⟩

theorem unlinked_behind {z : ℕ} {rz : ConnHistData}
    (hl : Linked ConnHistData.next h.recs head (kept ++ p :: rest))
    (hz : kept.getLast? = some z) (hrz : h.recs z = some rz) (hr : h.recs p = some r) :
    Unlinked h kept p rest ((h.modify z { rz with next := r.next }).free p) := by
  have hzkept : z ∈ kept := List.mem_of_getLast? hz
  obtain ⟨-, hnodup, hdisj⟩ := List.nodup_append.1 hl.nodup
  have hpz : z ≠ p := hdisj z hzkept p List.mem_cons_self
  have hsame : ∀ q, q ≠ p → q ≠ z →
      ((h.modify z { rz with next := r.next }).free p).recs q = h.recs q := by
    intro q hqp hqz
    exact (Function.update_of_ne hqp _ _).trans (Function.update_of_ne hqz _ _)
  have hlast : ((h.modify z { rz with next := r.next }).free p).recs z =
      some { rz with next := r.next } :=
    (Function.update_of_ne hpz _ _).trans (Function.update_self _ _ _)
  have hsameRest : ∀ q ∈ rest,
      ((h.modify z { rz with next := r.next }).free p).recs q = h.recs q := by
    intro q hq
    refine hsame q ?_ ?_
    · rintro rfl
      exact (List.nodup_cons.1 hnodup).1 hq
    · rintro rfl
      exact hdisj q hzkept q (List.mem_cons_of_mem p hq) rfl
  have hlinked : Linked ConnHistData.next ((h.modify z { rz with next := r.next }).free p).recs
      head (kept ++ rest) := by
    refine hl.relink hz ?_ hlast ?_
    · intro q hq hqz c hc
      have hqp : q ≠ p := hdisj q hq p List.mem_cons_self
      exact ⟨c, (hsame q hqp hqz).trans hc, rfl⟩
    · exact (next_eq hl hr).2.congr fun q hq c hc => ⟨c, (hsameRest q hq).trans hc, rfl⟩
  refine ⟨hlinked.head_eq ▸ hlinked, hsameRest, ?_, entry_free_self p _, rfl⟩
  intro q hqp
  by_cases hqz : q = z
  · subst hqz
    rw [entry_of_recs hlast, entry_of_recs hrz]
    rfl
  · exact congrArg (Option.map ConnHistData.entry) (hsame q hqp hqz)

/-- The report of a removal reads the record behind the one removed, through the null pointer if
there is none. -/
theorem Unlinked.read_behind (hun : Unlinked h kept p rest h') {cur : Option ℕ}
    (hcur : cur = rest.head?) (report : Bool) :
    (report ∧ rest = []) ∧ report = true ∧ h'.deref cur = .error SEGV ∨
      ¬ (report ∧ rest = []) ∧ (report = false ∨ ∃ r, h'.deref cur = .ok r) := by
  subst hcur
  cases report with
  | false => exact .inr ⟨by simp, .inl rfl⟩
  | true =>
    cases rest with
    | nil => exact .inl ⟨⟨rfl, rfl⟩, rfl, rfl⟩
    | cons q rest =>
      obtain ⟨r, hr⟩ := hun.linked.exists_of_mem (List.mem_append_right _ List.mem_cons_self)
      exact .inr ⟨by simp, .inr ⟨r, deref_eq_ok.2 ⟨q, rfl, hr⟩⟩⟩

theorem removeLoop_kept (hr : h.recs p = some r) (ht : test r = false) (fuel : ℕ)
    (head prev : Option ℕ) : removeLoop test report (fuel + 1) head prev (some p) h =
      removeLoop test report fuel head (some p) r.next h := by
  have hderef : h.deref (some p) = .ok r := deref_eq_ok.2 ⟨p, rfl, hr⟩
  simp only [removeLoop, hderef, bind, Except.bind, ht, Bool.false_eq_true, ↓reduceIte]

theorem head?_behind (hl : Linked ConnHistData.next h.recs head (kept ++ p :: rest))
    (hne : kept ≠ []) : (kept ++ p :: rest).head? = (kept ++ rest).head? ∧
      (kept ++ p :: rest).head? ≠ some p := by
  cases kept with
  | nil => exact absurd rfl hne
  | cons q kept =>
    refine ⟨rfl, ?_⟩
    intro heq
    obtain rfl := Option.some.inj heq
    exact (List.nodup_cons.1 hl.nodup).1 (List.mem_append_right _ List.mem_cons_self)

theorem removeLoop_found
    (hl : Linked ConnHistData.next h.recs (kept ++ p :: rest).head? (kept ++ p :: rest))
    (hprev : ∀ z, kept.getLast? = some z → prev = some z) (hr : h.recs p = some r)
    (ht : test r = true) (report : Bool) : ∃ h', Unlinked h kept p rest h' ∧ ∀ fuel,
      removeLoop test report (fuel + 1) (kept ++ p :: rest).head? prev (some p) h =
        if report ∧ rest = [] then .error SEGV
        else removeLoop test report fuel (kept ++ rest).head? prev rest.head? h' := by
  have hderef : h.deref (some p) = .ok r := deref_eq_ok.2 ⟨p, rfl, hr⟩
  have hnext := (next_eq hl hr).1
  cases hlast : kept.getLast? with
  | none =>
    obtain rfl := List.getLast?_eq_none_iff.1 hlast
    have hun := unlinked_first hl
    refine ⟨h.free p, hun, fun fuel => ?_⟩
    rw [List.nil_append, List.nil_append, ← hnext]
    simp only [List.head?_cons, removeLoop, hderef, bind, Except.bind, ht, ↓reduceIte]
    rcases hun.read_behind hnext report with ⟨hfault, hreport, heq⟩ | ⟨hgo, hreport | ⟨r', heq⟩⟩
    · rw [if_pos hfault, if_pos hreport, heq]
    · rw [if_neg hgo, if_neg (by rw [hreport]; exact Bool.false_ne_true)]
    · rw [if_neg hgo, heq, ite_self]
  | some z =>
    have hzkept : z ∈ kept := List.mem_of_getLast? hlast
    obtain ⟨rz, hrz⟩ := hl.exists_of_mem (List.mem_append_left _ hzkept)
    have hun := unlinked_behind hl hlast hrz hr
    obtain rfl := hprev z hlast
    have hderefz : h.deref (some z) = .ok rz := deref_eq_ok.2 ⟨z, rfl, hrz⟩
    have hhead := head?_behind hl (List.ne_nil_of_mem hzkept)
    refine ⟨_, hun, fun fuel => ?_⟩
    simp only [removeLoop, hderef, hderefz, bind, Except.bind, ht, hhead.2, ↓reduceIte,
      Option.getD_some]
    rw [hhead.1, ← hnext]
    rcases hun.read_behind hnext report with ⟨hfault, hreport, heq⟩ | ⟨hgo, hreport | ⟨r', heq⟩⟩
    · rw [if_pos hfault, if_pos hreport, heq]
    · rw [if_neg hgo, if_neg (by rw [hreport]; exact Bool.false_ne_true)]
    · rw [if_neg hgo, heq, ite_self]

/-- What a removal of all records that pass the test leaves. -/
structure Filtered (test : ConnHistData → Bool) (h : HistHeap) (kept rest : List ℕ)
    (h' : HistHeap) : Prop where
  linked : Linked ConnHistData.next h'.recs (kept ++ rest.filter (h.keeps test)).head?
    (kept ++ rest.filter (h.keeps test))
  entry_eq : ∀ q, (q ∈ rest → h.keeps test q = true) → h'.entry q = h.entry q
  freed : ∀ q ∈ rest, h.keeps test q = false → h'.entry q = none
  made : h'.made = h.made

/-- A record that is kept stays before the ones that were not looked at yet. -/
theorem Filtered.cons_kept (hfil : Filtered test h (kept ++ [p]) rest h')
    (hkeeps : h.keeps test p = true) (hnotin : p ∉ rest) : Filtered test h kept (p :: rest) h' := by
  obtain ⟨hlinked, hentry, hfreed, hmade⟩ := hfil
  rw [← List.append_cons] at hlinked
  refine ⟨by rwa [List.filter_cons_of_pos hkeeps], ?_, ?_, hmade⟩
  · intro q hq
    exact hentry q fun hmem => hq (List.mem_cons_of_mem p hmem)
  · intro q hq hno
    rcases List.mem_cons.1 hq with rfl | hq
    · rw [hkeeps] at hno
      cases hno
    · exact hfreed q hq hno

theorem Unlinked.keeps_eq (hun : Unlinked h kept p rest h') :
    ∀ q ∈ rest, h'.keeps test q = h.keeps test q := by
  intro q hq
  rw [keeps, keeps, hun.recs_eq q hq]

theorem Unlinked.filter_eq (hun : Unlinked h kept p rest h') (hkeeps : h.keeps test p = false) :
    rest.filter (h'.keeps test) = (p :: rest).filter (h.keeps test) := by
  rw [List.filter_congr hun.keeps_eq, List.filter_cons_of_neg]
  rw [hkeeps]
  exact Bool.false_ne_true

theorem Filtered.cons_removed {h₁ : HistHeap} (hfil : Filtered test h₁ kept rest h')
    (hun : Unlinked h kept p rest h₁) (hkeeps : h.keeps test p = false) (hnotin : p ∉ rest) :
    Filtered test h kept (p :: rest) h' := by
  obtain ⟨hlinked, hentry, hfreed, hmade⟩ := hfil
  rw [hun.filter_eq hkeeps] at hlinked
  refine ⟨hlinked, ?_, ?_, hmade.trans hun.made⟩
  · intro q hq
    have hqp : q ≠ p := by
      rintro rfl
      have hkept := hq List.mem_cons_self
      rw [hkeeps] at hkept
      cases hkept
    rw [hentry q fun hmem => (hun.keeps_eq q hmem).trans (hq (List.mem_cons_of_mem p hmem))]
    exact hun.entry_eq q hqp
  · intro q hq hno
    rcases List.mem_cons.1 hq with rfl | hq
    · rw [hentry q fun hmem => absurd hmem hnotin]
      exact hun.freed
    · exact hfreed q hq ((hun.keeps_eq q hq).trans hno)

theorem getLast?_cons_of_some {q : ℕ} (hq : rest.getLast? = some q) :
    (p :: rest).getLast? = some q := by
  rw [List.getLast?_cons, hq]
  rfl

/-- **The loop is a filter of the list**, with the report if it keeps the last record. -/
theorem removeLoop_spec
    (hl : Linked ConnHistData.next h.recs (kept ++ rest).head? (kept ++ rest))
    (hprev : ∀ z, kept.getLast? = some z → prev = some z)
    (hlast : report = true → ∀ p, rest.getLast? = some p → h.keeps test p = true) :
    ∃ h', Filtered test h kept rest h' ∧ ∀ fuel, rest.length ≤ fuel →
      removeLoop test report fuel (kept ++ rest).head? prev rest.head? h =
        .ok ((kept ++ rest.filter (h.keeps test)).head?, h') := by
  induction rest generalizing kept prev h with
  | nil =>
    refine ⟨h, ⟨hl, fun _ _ => rfl, by simp, rfl⟩, fun fuel _ => ?_⟩
    cases fuel <;> rfl
  | cons p rest ih =>
    obtain ⟨r, hr⟩ := hl.exists_of_mem (List.mem_append_right _ List.mem_cons_self)
    have hnotin : p ∉ rest := (List.nodup_cons.1 (List.nodup_append.1 hl.nodup).2.1).1
    have hlast' : report = true → ∀ q, rest.getLast? = some q → h.keeps test q = true :=
      fun hreport q hq => hlast hreport q (getLast?_cons_of_some hq)
    have hkeeps : h.keeps test p = !test r := keeps_of_recs hr
    cases ht : test r with
    | true =>
      rw [ht] at hkeeps
      obtain ⟨h₁, hun, heq⟩ := removeLoop_found hl hprev hr ht report
      have hgo : ¬ (report = true ∧ rest = []) := by
        rintro ⟨hreport, rfl⟩
        have hkept := hlast hreport p rfl
        rw [hkeeps] at hkept
        cases hkept
      have hlast₁ : report = true → ∀ q, rest.getLast? = some q → h₁.keeps test q = true := by
        intro hreport q hq
        rw [hun.keeps_eq q (List.mem_of_getLast? hq)]
        exact hlast' hreport q hq
      obtain ⟨h', hfil, heq'⟩ := ih hun.linked hprev hlast₁
      refine ⟨h', hfil.cons_removed hun hkeeps hnotin, fun fuel hfuel => ?_⟩
      obtain ⟨fuel, rfl⟩ := Nat.exists_eq_succ_of_ne_zero (Nat.ne_zero_of_lt hfuel)
      rw [List.head?_cons, heq, if_neg hgo, heq' fuel (Nat.le_of_succ_le_succ hfuel),
        hun.filter_eq hkeeps]
    | false =>
      rw [ht] at hkeeps
      obtain ⟨hnext, -⟩ := next_eq hl hr
      have hprev' : ∀ z, (kept ++ [p]).getLast? = some z → some p = some z := by simp
      rw [List.append_cons] at hl
      obtain ⟨h', hfil, heq⟩ := ih hl hprev' hlast'
      refine ⟨h', hfil.cons_kept hkeeps hnotin, fun fuel hfuel => ?_⟩
      obtain ⟨fuel, rfl⟩ := Nat.exists_eq_succ_of_ne_zero (Nat.ne_zero_of_lt hfuel)
      rw [List.head?_cons, removeLoop_kept hr ht, hnext, List.append_cons,
        heq fuel (Nat.le_of_succ_le_succ hfuel), List.filter_cons_of_pos hkeeps,
        List.append_cons kept p (rest.filter _)]

/-- With the report, the removal of the last record ends in a read through the null pointer. -/
theorem removeLoop_fault {fuel : ℕ}
    (hl : Linked ConnHistData.next h.recs (kept ++ rest).head? (kept ++ rest))
    (hprev : ∀ z, kept.getLast? = some z → prev = some z) (hfuel : rest.length ≤ fuel)
    (hlast : ∃ p, rest.getLast? = some p ∧ h.keeps test p = false) :
    removeLoop test true fuel (kept ++ rest).head? prev rest.head? h = .error SEGV := by
  induction rest generalizing kept prev h fuel with
  | nil =>
    obtain ⟨p, hp, -⟩ := hlast
    cases hp
  | cons p rest ih =>
    obtain ⟨fuel, rfl⟩ := Nat.exists_eq_succ_of_ne_zero (Nat.ne_zero_of_lt hfuel)
    have hfuel' := Nat.le_of_succ_le_succ hfuel
    obtain ⟨r, hr⟩ := hl.exists_of_mem (List.mem_append_right _ List.mem_cons_self)
    have hlast' : rest ≠ [] → ∃ q, rest.getLast? = some q ∧ h.keeps test q = false := by
      intro hne
      obtain ⟨q, hq, hremoved⟩ := hlast
      refine ⟨q, ?_, hremoved⟩
      cases rest with
      | nil => exact absurd rfl hne
      | cons p' rest => rwa [List.getLast?_cons_cons] at hq
    cases ht : test r with
    | true =>
      obtain ⟨h₁, hun, heq⟩ := removeLoop_found hl hprev hr ht true
      rw [List.head?_cons, heq]
      by_cases hnil : rest = []
      · rw [if_pos ⟨rfl, hnil⟩]
      · rw [if_neg (by simp [hnil])]
        obtain ⟨q, hq, hremoved⟩ := hlast' hnil
        refine ih hun.linked hprev hfuel' ⟨q, hq, ?_⟩
        rw [hun.keeps_eq q (List.mem_of_getLast? hq)]
        exact hremoved
    | false =>
      obtain ⟨hnext, -⟩ := next_eq hl hr
      have hne : rest ≠ [] := by
        rintro rfl
        obtain ⟨q, hq, hremoved⟩ := hlast
        obtain rfl : p = q := Option.some.inj hq
        rw [keeps_of_recs hr, ht] at hremoved
        cases hremoved
      rw [List.append_cons] at hl
      rw [List.head?_cons, removeLoop_kept hr ht, hnext, List.append_cons]
      exact ih hl (by simp) hfuel' (hlast' hne)

/-- The loop from the start of a list, whatever the number of turns it may take. -/
theorem removeLoop_all (hl : Linked ConnHistData.next h.recs head l) (test : ConnHistData → Bool)
    (report : Bool)
    (hlast : report = true → ∀ p, l.getLast? = some p → h.keeps test p = true) : ∃ head' h',
    (∀ fuel, l.length ≤ fuel →
      removeLoop test report fuel head none head h = .ok (head', h')) ∧
    Linked ConnHistData.next h'.recs head' (l.filter (h.keeps test)) ∧
    (∀ p ∈ l.filter (h.keeps test), h'.entry p = h.entry p) ∧
    (∀ p ∈ l, p ∉ l.filter (h.keeps test) → h'.entry p = none) ∧ h'.made = h.made := by
  have hhead := hl.head_eq
  subst hhead
  obtain ⟨h', hfil, heq⟩ := @removeLoop_spec test report h none [] l hl (by simp) hlast
  obtain ⟨hlinked, hentry, hfreed, hmade⟩ := hfil
  refine ⟨_, h', heq, hlinked, ?_, ?_, hmade⟩
  · intro p hp
    exact hentry p fun _ => List.of_mem_filter hp
  · intro p hp hnot
    rw [List.mem_filter, not_and, Bool.not_eq_true] at hnot
    exact hfreed p hp (hnot hp)

theorem removeLoop_all_fault (hl : Linked ConnHistData.next h.recs head l) {fuel : ℕ}
    (hfuel : l.length ≤ fuel) (hp : l.getLast? = some p) (hremoved : h.keeps test p = false) :
    removeLoop test true fuel head none head h = .error SEGV := by
  have hhead := hl.head_eq
  subst hhead
  exact @removeLoop_fault test h none [] l fuel hl (by simp) hfuel ⟨p, hp, hremoved⟩

/-! ### `ID_REMOVE_OLD` -/

/-- The records at `l` that were updated at `searchTime` or later. -/
def recent (searchTime : ℤ) (l : List ℕ) (h : HistHeap) : List ℕ :=
  l.filter fun p => (h.entry p).any fun e => searchTime ≤ e.lastUpdate

/-- The test of `ID_REMOVE_OLD`. -/
def old (searchTime : ℤ) (r : ConnHistData) : Bool := r.lastUpdate < searchTime

theorem filter_keeps_old (searchTime : ℤ) (l : List ℕ) (h : HistHeap) :
    l.filter (h.keeps (old searchTime)) = h.recent searchTime l := by
  refine List.filter_congr fun p _ => ?_
  rw [keeps, entry]
  cases h.recs p with
  | none => rfl
  | some r =>
    show (!decide (r.lastUpdate < searchTime)) = decide (searchTime ≤ r.lastUpdate)
    rw [← decide_not]
    exact decide_eq_decide.2 not_lt

/-- `ID_REMOVE_OLD` on the list at `head` with the records at `l`: whatever the number of turns it
may take, it ends, the list has the records that were updated at `searchTime` or later, in their
order and as they were, and the others are freed. -/
def FiltersOld (h : HistHeap) (head : Option ℕ) (l : List ℕ) (claddr : List UInt8)
    (svrPort searchTime : ℤ) : Prop :=
  ∃ head' h',
    h.clhistoryLookup head claddr svrPort searchTime .ID_REMOVE_OLD = .ok (none, head', h') ∧
    (∀ fuel, l.length ≤ fuel →
      removeLoop (old searchTime) true fuel head none head h = .ok (head', h')) ∧
    Linked ConnHistData.next h'.recs head' (h.recent searchTime l) ∧
    (∀ p ∈ h.recent searchTime l, h'.entry p = h.entry p) ∧
    ∀ p ∈ l, p ∉ h.recent searchTime l → h'.recs p = none

theorem clhistoryLookup_removeOld (head : Option ℕ) (claddr : List UInt8) (svrPort searchTime : ℤ)
    (h : HistHeap) : h.clhistoryLookup head claddr svrPort searchTime .ID_REMOVE_OLD =
      (removeLoop (old searchTime) true (h.made + 1) head none head h).map
        fun s => (none, s.1, s.2) := by
  show (removeLoop (old searchTime) true (h.made + 1) head none head h).bind _ = _
  cases removeLoop (old searchTime) true (h.made + 1) head none head h <;> rfl

/-- **`ID_REMOVE_OLD` is a filter of exactly the lists whose last record it keeps.**  When it
removes the last one, the report reads the address through the null pointer behind it. -/
theorem clhistoryLookup_removeOld_iff (hl : Linked ConnHistData.next h.recs head l)
    (hmade : ∀ p ∈ l, p < h.made) (claddr : List UInt8) (svrPort searchTime : ℤ) :
    h.FiltersOld head l claddr svrPort searchTime ↔
      ∀ p r, l.getLast? = some p → h.recs p = some r → searchTime ≤ r.lastUpdate := by
  have hfuel : l.length ≤ h.made + 1 := (hl.length_le_of_lt hmade).trans (Nat.le_succ _)
  constructor
  · rintro ⟨head', h', heq, -⟩ p r hp hr
    by_contra hold
    have hremoved : h.keeps (old searchTime) p = false := by
      rw [keeps_of_recs hr, old]
      simpa using hold
    rw [clhistoryLookup_removeOld, removeLoop_all_fault hl hfuel hp hremoved] at heq
    cases heq
  · intro hlast
    have hkeep : ∀ p, l.getLast? = some p → h.keeps (old searchTime) p = true := by
      intro p hp
      obtain ⟨r, hr⟩ := hl.exists_of_mem (List.mem_of_getLast? hp)
      have hle := hlast p r hp hr
      rw [keeps_of_recs hr, old]
      simpa using hle
    obtain ⟨head', h', heq, hlinked, hold, hfreed, -⟩ :=
      removeLoop_all hl (old searchTime) true fun _ => hkeep
    rw [filter_keeps_old] at hlinked hold hfreed
    refine ⟨head', h', ?_, heq, hlinked, hold, ?_⟩
    · rw [clhistoryLookup_removeOld, heq _ hfuel]
      rfl
    · intro p hp hnot
      exact Option.map_eq_none_iff.1 (hfreed p hp hnot)

/-- A list of two clients, which were updated at the given times. -/
def twoClients (t₁ t₂ : ℤ) : HistHeap :=
  ⟨fun p => if p = 0 then some ⟨t₁, 0, [0x31], 16000, some 1⟩
    else if p = 1 then some ⟨t₂, 0, [0x32], 16000, none⟩ else none, 2⟩

theorem linked_twoClients (t₁ t₂ : ℤ) :
    Linked ConnHistData.next (twoClients t₁ t₂).recs (some 0) [0, 1] :=
  .cons rfl (.cons rfl .nil)

/-- The first of two records expires. -/
theorem removeOld_first : (twoClients 3 8).FiltersOld (some 0) [0, 1] [] 0 5 ∧
    (twoClients 3 8).recent 5 [0, 1] = [1] := by
  refine ⟨(clhistoryLookup_removeOld_iff (linked_twoClients 3 8) (by decide) [] 0 5).2 ?_, rfl⟩
  intro p r hp hr
  obtain rfl : 1 = p := Option.some.inj hp
  obtain rfl := Option.some.inj hr
  decide

/-- The last of two records expires: the report of its removal ends the program. -/
theorem removeOld_last_faults :
    Linked ConnHistData.next (twoClients 8 3).recs (some 0) [0, 1] ∧
    (twoClients 8 3).clhistoryLookup (some 0) [] 0 5 .ID_REMOVE_OLD = .error SEGV ∧
    ¬ (twoClients 8 3).FiltersOld (some 0) [0, 1] [] 0 5 := by
  have hfault : (twoClients 8 3).clhistoryLookup (some 0) [] 0 5 .ID_REMOVE_OLD = .error SEGV := rfl
  refine ⟨linked_twoClients 8 3, hfault, ?_⟩
  rintro ⟨head', h', heq, -⟩
  rw [hfault] at heq
  cases heq

/-! ### `ID_DELETE` -/

/-- The records at `l` of other clients. -/
def others (a : Address) (l : List ℕ) (h : HistHeap) : List ℕ :=
  l.filter fun p => (h.entry p).any fun e => e.address ≠ a

/-- The test of `ID_DELETE`. -/
def ofClient (a : Address) (r : ConnHistData) : Bool := r.ip = a.1 ∧ r.serverPort = a.2

theorem filter_keeps_ofClient (a : Address) (l : List ℕ) (h : HistHeap) :
    l.filter (h.keeps (ofClient a)) = h.others a l := by
  refine List.filter_congr fun p _ => ?_
  rw [keeps, entry]
  cases h.recs p with
  | none => rfl
  | some r =>
    show (!decide (r.ip = a.1 ∧ r.serverPort = a.2)) = decide ((r.ip, r.serverPort) ≠ a)
    have hclient : (r.ip, r.serverPort) = a ↔ r.ip = a.1 ∧ r.serverPort = a.2 := Prod.ext_iff
    rw [← decide_not]
    exact decide_eq_decide.2 (not_congr hclient.symm)

end HistHeap

namespace HistList

variable {h h' : HistHeap} {head : Option ℕ} {l : List ℕ}

/-- The records of some clients are a list of their own. -/
theorem sublist (hl : HistList h head l) {head' : Option ℕ} {l' : List ℕ} (hsub : l'.Sublist l)
    (hlinked : Linked ConnHistData.next h'.recs head' l') (hmade : h'.made = h.made)
    (hold : ∀ p ∈ l', h'.entry p = h.entry p) : HistList h' head' l' := by
  refine ⟨hlinked, ?_, ?_⟩
  · intro p hp
    rw [hmade]
    exact hl.lt_made p (hsub.subset hp)
  · intro p hp q hq e e' he he' haddr
    rw [hold p hp] at he
    rw [hold q hq] at he'
    exact hl.distinct p (hsub.subset hp) q (hsub.subset hq) e e' he he' haddr

/-- **`ID_DELETE` removes the records of the client.** -/
theorem clhistoryLookup_delete (hl : HistList h head l) (a : Address) (searchTime : ℤ) :
    ∃ head' h', h.clhistoryLookup head a.1 a.2 searchTime .ID_DELETE = .ok (none, head', h') ∧
      HistList h' head' (h.others a l) ∧ (∀ p ∈ h.others a l, h'.entry p = h.entry p) ∧
      ∀ p ∈ l, p ∉ h.others a l → h'.entry p = none := by
  obtain ⟨head', h', heq, hlinked, hold, hfreed, hmade⟩ :=
    HistHeap.removeLoop_all hl.linked (HistHeap.ofClient a) false (by simp)
  rw [HistHeap.filter_keeps_ofClient] at hlinked hold hfreed
  refine ⟨head', h', ?_, hl.sublist List.filter_sublist hlinked hmade hold, hold, hfreed⟩
  show (HistHeap.removeLoop (HistHeap.ofClient a) false (h.made + 1) _ none _ h).bind _ = _
  rw [heq _ (hl.length_le.trans (Nat.le_succ _))]
  rfl

end HistList

end SdrProxy
