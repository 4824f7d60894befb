import SdrProxy.Basic

/-!
# Connection history

`clhistory_lookup` of `server.c`: the linked list of records about past connections, with the
records in a heap and the list as pointers through it.

* Reading a record that was freed, or through a null pointer, ends the program (`SEGV`).
* Every loop of the function goes at most once over each record ever made, which is its fuel.
-/

namespace SdrProxy

/-- `struct conn_hist_data`; a pointer is the number of a record, `NULL` is `none`. -/
structure ConnHistData where
  /-- Unix time of the last change. -/
  lastUpdate : ℤ
  /-- Time of the last packet sent to the client. -/
  lastPacketTime : PacketTime
  /-- IP address of the client, as a string. -/
  ip : List UInt8
  /-- Server port of the connection. -/
  serverPort : ℤ
  /-- The next record. -/
  next : Option ℕ
  deriving DecidableEq

/-- The records. -/
structure HistHeap where
  /-- The record with a number, if it exists and was not freed. -/
  recs : ℕ → Option ConnHistData
  /-- How many records were made. -/
  made : ℕ

/-- `enum lastiddbcmd_t`. -/
inductive LastIdDbCmd where
  | ID_ADD
  | ID_RETR
  | ID_DELETE
  | ID_REMOVE_OLD
  deriving DecidableEq, Repr

/-- The end of a program that reads through a bad pointer. -/
def SEGV : String := "Segmentation fault"

namespace HistHeap

/-- The heap without records. -/
def empty : HistHeap := ⟨fun _ => none, 0⟩

/-- The record behind a pointer. -/
def deref (p : Option ℕ) (h : HistHeap) : Except String ConnHistData :=
  match p.bind h.recs with
  | some r => .ok r
  | none => .error SEGV

/-- The record `p` changed. -/
def modify (p : ℕ) (r : ConnHistData) (h : HistHeap) : HistHeap :=
  { h with recs := Function.update h.recs p (some r) }

/-- The record `p` freed. -/
def free (p : ℕ) (h : HistHeap) : HistHeap := { h with recs := Function.update h.recs p none }

theorem deref_eq_ok {h : HistHeap} {p : Option ℕ} {r : ConnHistData} :
    h.deref p = .ok r ↔ ∃ q, p = some q ∧ h.recs q = some r := by
  cases p with
  | none => simp [deref]
  | some q => cases hq : h.recs q <;> simp [deref, hq]

/-- The record behind a pointer that was changed. -/
theorem deref_modify {h : HistHeap} {p : Option ℕ} {r : ConnHistData} (hr : h.deref p = .ok r)
    (r' : ConnHistData) : (h.modify (p.getD 0) r').deref p = .ok r' := by
  obtain ⟨q, rfl, -⟩ := deref_eq_ok.1 hr
  exact deref_eq_ok.2 ⟨q, rfl, Function.update_self _ _ _⟩

/-- The loop of `ID_ADD` and `ID_RETR`: `prev` and `cur` when it ends. -/
def findLoop (claddr : List UInt8) (svrPort : ℤ) (h : HistHeap) :
    ℕ → Option ℕ → Option ℕ → Except String (Option ℕ × Option ℕ)
  | 0, prev, cur => .ok (prev, cur)
  | _, prev, none => .ok (prev, none)
  | fuel + 1, prev, some cur => do
    let r ← h.deref (some cur)
    if r.ip ≠ claddr ∨ r.serverPort ≠ svrPort then findLoop claddr svrPort h fuel (some cur) r.next
    else return (prev, some cur)

/-- The loop of `ID_DELETE` and `ID_REMOVE_OLD`: the records that pass the test are unlinked and
freed.  The latter reports each removal with the address in `cur` (`report`), which by then is the
record behind the removed one. -/
def removeLoop (test : ConnHistData → Bool) (report : Bool) :
    ℕ → Option ℕ → Option ℕ → Option ℕ → HistHeap → Except String (Option ℕ × HistHeap)
  | 0, head, _, _, h => .ok (head, h)
  | _, head, _, none, h => .ok (head, h)
  | fuel + 1, head, prev, some cur, h => do
    let r ← h.deref (some cur)
    if test r then
      if head = some cur then
        let h := h.free cur
        if report then let _ ← h.deref r.next
        removeLoop test report fuel r.next prev r.next h
      else
        let p ← h.deref prev
        let h := (h.modify (prev.getD 0) { p with next := r.next }).free cur
        if report then let _ ← h.deref r.next
        removeLoop test report fuel head prev r.next h
    else removeLoop test report fuel head (some cur) r.next h

/-- `clhistory_lookup` on the list at `head`: the pointer it returns, the head of the list and the
heap. -/
def clhistoryLookup (head : Option ℕ) (claddr : List UInt8) (svrPort searchTime : ℤ)
    (action : LastIdDbCmd) (h : HistHeap) :
    Except String (Option ℕ × Option ℕ × HistHeap) :=
  match action with
  | .ID_ADD => do
    let (prev, cur) ← findLoop claddr svrPort h (h.made + 1) none head
    match cur with
    | some cur => return (some cur, head, h)
    | none =>
      -- last_update of the new record is set by the caller
      let new : ConnHistData := ⟨0, 0, claddr, svrPort, none⟩
      let h' : HistHeap := ⟨Function.update h.recs h.made (some new), h.made + 1⟩
      match head with
      | none => return (some h.made, some h.made, h')
      | some _ =>
        let p ← h'.deref prev
        return (some h.made, head, h'.modify (prev.getD 0) { p with next := some h.made })
  | .ID_RETR => do
    let (_, cur) ← findLoop claddr svrPort h (h.made + 1) none head
    return (cur, head, h)
  | .ID_DELETE => do
    let (head, h) ← removeLoop (fun r => r.ip = claddr ∧ r.serverPort = svrPort) false (h.made + 1)
      head none head h
    return (none, head, h)
  | .ID_REMOVE_OLD => do
    let (head, h) ← removeLoop (fun r => r.lastUpdate < searchTime) true (h.made + 1) head none
      head h
    return (none, head, h)

end HistHeap

end SdrProxy
