import Mathlib.Data.List.Nodup
import SdrProxy.Removal

/-!
# The history as a map

`clhistory_lookup` from an empty list: any sequence of `ID_ADD`, `ID_RETR` and `ID_DELETE`, with
what the callers write to the records in between.

* `HistOp`, `histRun` : the calls and writes, and a sequence of them;
* `IsMap` : what a list is as a map from clients to records, with what each call does to it;
* `isMap_of_histList` : every list with one record for each client is one;
* `histRun_isMap` : and every sequence leaves such a list.
-/

namespace SdrProxy

/-- What a caller does to the history. -/
inductive HistOp where
  /-- `clhistory_lookup` with `ID_ADD`. -/
  | add (a : Address) (searchTime : ℤ)
  /-- `clhistory_lookup` with `ID_RETR`. -/
  | retr (a : Address) (searchTime : ℤ)
  /-- `clhistory_lookup` with `ID_DELETE`. -/
  | delete (a : Address) (searchTime : ℤ)
  /-- A write to the record at `p`, if it was not freed. -/
  | note (p : ℕ) (lastUpdate : ℤ) (lastPacketTime : PacketTime)

/-- A list of records: its head and the heap. -/
structure History where
  /-- The pointer to the first record. -/
  head : Option ℕ
  /-- The records. -/
  hist : HistHeap

namespace History

/-- No records. -/
def empty : History := ⟨none, .empty⟩

/-- `clhistory_lookup` with the pointer to the list: what it returns, and the list after it. -/
def lookup (action : LastIdDbCmd) (a : Address) (searchTime : ℤ) (s : History) :
    Except String (Option ℕ × History) :=
  (s.hist.clhistoryLookup s.head a.1 a.2 searchTime action).map
    fun reply => (reply.1, ⟨reply.2.1, reply.2.2⟩)

/-- One call or write. -/
def step (s : History) : HistOp → Except String History
  | .add a searchTime => (s.lookup .ID_ADD a searchTime).map Prod.snd
  | .retr a searchTime => (s.lookup .ID_RETR a searchTime).map Prod.snd
  | .delete a searchTime => (s.lookup .ID_DELETE a searchTime).map Prod.snd
  | .note p lastUpdate lastPacketTime => match s.hist.recs p with
    | some r =>
      let r' := { r with lastUpdate := lastUpdate, lastPacketTime := lastPacketTime }
      .ok { s with hist := s.hist.modify p r' }
    | none => .ok s

end History

/-- Calls and writes, one after the other. -/
def histRun (ops : List HistOp) (s : History) : Except String History := ops.foldlM History.step s

/-- Whose record is at `p`. -/
def HistHeap.client (p : ℕ) (h : HistHeap) : Option Address := (h.entry p).map HistEntry.address

/-- The list with the records at `l`, in this order, as a map from clients to records. -/
structure IsMap (s : History) (l : List ℕ) : Prop where
  /-- The records of the list are those at `l`. -/
  list : HistList s.hist s.head l
  /-- There is one record for each client at most. -/
  nodup : (l.map fun p => s.hist.client p).Nodup
  /-- `ID_ADD` returns the record of the client and changes nothing, or appends a fresh one and
  leaves the others as they are. -/
  add : ∀ a searchTime, ∃ p s' l', s.lookup .ID_ADD a searchTime = .ok (some p, s') ∧
    HistList s'.hist s'.head l' ∧ s'.hist.client p = some a ∧
    (p ∈ l ∧ s' = s ∧ l' = l ∨
      (∀ q ∈ l, s.hist.client q ≠ some a) ∧ p ∉ l ∧ l' = l ++ [p] ∧
        (s'.hist.entry p).map HistEntry.lastPacketTime = some 0 ∧
        ∀ q ∈ l, s'.hist.entry q = s.hist.entry q)
  /-- `ID_RETR` returns the record of the client, the null pointer exactly if there is none, and
  changes nothing. -/
  retr : ∀ a searchTime, ∃ reply, s.lookup .ID_RETR a searchTime = .ok (reply, s) ∧
    (∀ p, reply = some p ↔ p ∈ l ∧ s.hist.client p = some a) ∧
    (reply = none ↔ ∀ p ∈ l, s.hist.client p ≠ some a)
  /-- `ID_DELETE` removes and frees the record of the client, and leaves the others as they are. -/
  delete : ∀ a searchTime, ∃ s', s.lookup .ID_DELETE a searchTime = .ok (none, s') ∧
    HistList s'.hist s'.head (l.filter fun p => s.hist.client p ≠ some a) ∧
    ∀ p ∈ l, s'.hist.entry p =
      if s.hist.client p = some a then none else s.hist.entry p

variable {s : History} {l : List ℕ} {h : HistHeap} {head : Option ℕ} {p : ℕ} {a : Address}

theorem HistHeap.client_eq_some :
    h.client p = some a ↔ ∃ e, h.entry p = some e ∧ e.address = a := by
  rw [client, Option.map_eq_some_iff]

namespace HistList

theorem exists_client (hl : HistList h head l) (hp : p ∈ l) : ∃ a, h.client p = some a := by
  obtain ⟨r, hr⟩ := hl.linked.exists_of_mem hp
  exact ⟨r.entry.address, HistHeap.client_eq_some.2 ⟨r.entry, HistHeap.entry_of_recs hr, rfl⟩⟩

theorem find_eq_some_iff_client (hl : HistList h head l) :
    h.find l a = some p ↔ p ∈ l ∧ h.client p = some a := by
  rw [hl.find_eq_some, HistHeap.client_eq_some]

theorem find_eq_none_iff_client : h.find l a = none ↔ ∀ p ∈ l, h.client p ≠ some a := by
  rw [HistHeap.find_eq_none]
  refine forall₂_congr fun p _ => ?_
  rw [ne_eq, HistHeap.client_eq_some]
  exact ⟨fun h ⟨e, he, haddr⟩ => h e he haddr, fun h e he haddr => h ⟨e, he, haddr⟩⟩

theorem nodup_client (hl : HistList h head l) : (l.map fun p => h.client p).Nodup := by
  refine List.Nodup.map_on ?_ hl.linked.nodup
  intro p hp q hq heq
  obtain ⟨a, ha⟩ := hl.exists_client hp
  obtain ⟨e, he, haddr⟩ := HistHeap.client_eq_some.1 ha
  obtain ⟨e', he', haddr'⟩ := HistHeap.client_eq_some.1 (heq.symm.trans ha)
  exact hl.distinct p hp q hq e e' he he' (haddr.trans haddr'.symm)

/-- The records of the other clients. -/
theorem others_eq (hl : HistList h head l) (a : Address) :
    h.others a l = l.filter fun p => h.client p ≠ some a := by
  refine List.filter_congr fun p hp => ?_
  obtain ⟨b, hb⟩ := hl.exists_client hp
  obtain ⟨e, he, rfl⟩ := HistHeap.client_eq_some.1 hb
  rw [he, hb]
  simp

theorem clhistoryLookup_known (hl : HistList h head l) (searchTime : ℤ)
    (hp : h.find l a = some p) :
    h.clhistoryLookup head a.1 a.2 searchTime .ID_ADD = .ok (some p, head, h) := by
  obtain ⟨prev, heq, -⟩ := HistHeap.findLoop_spec a none hl.linked
    (hl.length_le.trans (Nat.le_succ _))
  rw [hp] at heq
  simp only [HistHeap.clhistoryLookup, heq, bind, Except.bind]
  rfl

end HistList

/-! ### Every sequence -/

/-- **A list with one record for each client is a map.** -/
theorem isMap_of_histList (hl : HistList s.hist s.head l) : IsMap s l := by
  refine ⟨hl, hl.nodup_client, ?_, ?_, ?_⟩
  · intro a searchTime
    cases hfind : s.hist.find l a with
    | some p =>
      obtain ⟨hp, hclient⟩ := hl.find_eq_some_iff_client.1 hfind
      refine ⟨p, s, l, ?_, hl, hclient, .inl ⟨hp, rfl, rfl⟩⟩
      rw [History.lookup, hl.clhistoryLookup_known searchTime hfind]
      rfl
    | none =>
      obtain ⟨head', h', heq, hl', hnew, hold⟩ := hl.clhistoryLookup_add a searchTime hfind
      refine ⟨s.hist.made, ⟨head', h'⟩, l ++ [s.hist.made], ?_, hl', ?_,
        .inr ⟨?_, ?_, rfl, ?_, hold⟩⟩
      · rw [History.lookup, heq]
        rfl
      · exact HistHeap.client_eq_some.2 ⟨_, hnew, rfl⟩
      · exact HistList.find_eq_none_iff_client.1 hfind
      · exact fun hmem => Nat.lt_irrefl _ (hl.lt_made _ hmem)
      · rw [hnew]
        rfl
  · intro a searchTime
    refine ⟨s.hist.find l a, ?_, fun p => hl.find_eq_some_iff_client,
      HistList.find_eq_none_iff_client⟩
    rw [History.lookup, hl.clhistoryLookup_retr a searchTime]
    rfl
  · intro a searchTime
    obtain ⟨head', h', heq, hl', hold, hfreed⟩ := hl.clhistoryLookup_delete a searchTime
    rw [hl.others_eq] at hl' hold hfreed
    refine ⟨⟨head', h'⟩, ?_, hl', ?_⟩
    · rw [History.lookup, heq]
      rfl
    · intro p hp
      by_cases hclient : s.hist.client p = some a
      · rw [if_pos hclient]
        exact hfreed p hp (by simp [hclient])
      · rw [if_neg hclient]
        exact hold p (by simp [hp, hclient])

/-- One call or write leaves a list with one record for each client. -/
theorem histList_step (hl : HistList s.hist s.head l) (op : HistOp) :
    ∃ s' l', s.step op = .ok s' ∧ HistList s'.hist s'.head l' := by
  have hmap := isMap_of_histList hl
  cases op with
  | add a searchTime =>
    obtain ⟨p, s', l', heq, hl', -⟩ := hmap.add a searchTime
    exact ⟨s', l', by rw [History.step, heq]; rfl, hl'⟩
  | retr a searchTime =>
    obtain ⟨reply, heq, -⟩ := hmap.retr a searchTime
    exact ⟨s, l, by rw [History.step, heq]; rfl, hl⟩
  | delete a searchTime =>
    obtain ⟨s', heq, hl', -⟩ := hmap.delete a searchTime
    exact ⟨s', _, by rw [History.step, heq]; rfl, hl'⟩
  | note p lastUpdate lastPacketTime =>
    cases hr : s.hist.recs p with
    | none => exact ⟨s, l, by rw [History.step, hr], hl⟩
    | some r =>
      refine ⟨_, l, by rw [History.step, hr], ?_⟩
      exact HistList.modify hl hr rfl rfl

/-- **Whatever the calls and writes, none fails and the list is a map from clients to records.** -/
theorem histRun_isMap (ops : List HistOp) :
    ∃ s l, histRun ops .empty = .ok s ∧ IsMap s l := by
  have hrun : ∀ s l, HistList s.hist s.head l →
      ∃ s' l', histRun ops s = .ok s' ∧ HistList s'.hist s'.head l' := by
    induction ops with
    | nil => exact fun s l hl => ⟨s, l, rfl, hl⟩
    | cons op ops ih =>
      intro s l hl
      obtain ⟨s₁, l₁, heq, hl₁⟩ := histList_step hl op
      obtain ⟨s₂, l₂, hrest, hl₂⟩ := ih s₁ l₁ hl₁
      refine ⟨s₂, l₂, ?_, hl₂⟩
      rw [histRun, List.foldlM_cons, heq]
      exact hrest
  obtain ⟨s, l, heq, hl⟩ := hrun .empty [] HistList.empty
  exact ⟨s, l, heq, isMap_of_histList hl⟩

end SdrProxy
