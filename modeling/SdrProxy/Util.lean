import SdrProxy.Basic
import SdrProxy.Lib.Search

/-!
# Helpers: check byte, packet size, byte search

The functions of `util.c` the proxy computes with.  `bytesInBytes` keeps the source's mixed-width
comparisons: every read of `w` bytes goes through `readAt`, which is `none` outside the array, so
a result other than `none` says that the search ended and read only inside its two arrays.
-/

namespace SdrProxy

/-- `do_crc`: the exclusive or of `cnt` bytes of `bfr` from offset `pos` on. -/
def doCrc (bfr : Bfr) (pos cnt : ℕ) : UInt8 :=
  (bfr.read pos cnt).foldl (fun crc b => crc ^^^ b) 0

/-- `data_bfr_size`: bytes of one second of A/D data. -/
def dataBfrSize (chanInfo : ChannelInfo) : ℕ :=
  let elementsize := if chanInfo.type = 4 then 4 else 2
  chanInfo.sps * chanInfo.numChannels * elementsize

/-- `sdr_pkt_size`: bytes of a packet with one second of A/D data. -/
def sdrPktSize (chanInfo : ChannelInfo) : ℕ :=
  PREHDRLEN + DATAHDRLEN + dataBfrSize chanInfo + CRCLEN

/-! ### Search for a byte string -/

/-- The `w` bytes at offset `pos`, if they lie inside the array. -/
def readAt (a : List UInt8) (pos w : ℕ) : Option (List UInt8) :=
  if pos + w ≤ a.length then some ((a.drop pos).take w) else none

/-- The number of bytes compared at once: `lsize` (an `unsigned long`), two or one, depending on
what is left of both arrays. -/
def compareWidth (lsize haysize nsize hay need : ℕ) : ℕ :=
  if hay + lsize ≤ haysize ∧ need + lsize ≤ nsize then lsize
  else if hay + 2 ≤ haysize ∧ need + 2 ≤ nsize then 2
  else 1

/-- The loop of `bytes_in_bytes`.  `hay` and `need` are the offsets of the two moving pointers;
`saved` is `savedhay` while `inmatch` is set.  `none` means that the fuel ran out or a read left
its array. -/
def bytesInBytesLoop (lsize : ℕ) (haystack needle : List UInt8) :
    ℕ → ℕ → ℕ → Option ℕ → Option (Option ℕ)
  | 0, _, _, _ => none
  | fuel + 1, hay, need, saved =>
    if hay < haystack.length ∧ need < needle.length then do
      let w := compareWidth lsize haystack.length needle.length hay need
      let val1 ← readAt haystack hay w
      let val2 ← readAt needle need w
      if val1 = val2 then
        bytesInBytesLoop lsize haystack needle fuel (hay + w) (need + w) (saved.or (some hay))
      else
        -- a broken match starts over one byte after the place where it began
        let hay' := (saved.getD hay) + 1
        let need' := if saved.isSome then 0 else need
        if haystack.length - hay' < needle.length then some none
        else bytesInBytesLoop lsize haystack needle fuel hay' need' none
    else some saved

/-- `bytes_in_bytes`: the position of `needle` in `haystack`, `NULL` being `none`. -/
def bytesInBytes (lsize : ℕ) (haystack needle : List UInt8) : Option (Option ℕ) :=
  bytesInBytesLoop lsize haystack needle ((haystack.length + 1) * (needle.length + 1) + 1) 0 0 none

/-- `sizeof(unsigned long)` in the `-m32` build. -/
def ULONGSIZE : ℕ := 4

variable {lsize : ℕ} {haystack needle : List UInt8}

theorem compareWidth_pos {haysize nsize hay need : ℕ} (hl : 0 < lsize) :
    0 < compareWidth lsize haysize nsize hay need := by
  unfold compareWidth
  split_ifs <;> omega

theorem compareWidth_le {haysize nsize hay need : ℕ} (hh : hay < haysize) (hn : need < nsize) :
    hay + compareWidth lsize haysize nsize hay need ≤ haysize ∧
      need + compareWidth lsize haysize nsize hay need ≤ nsize := by
  unfold compareWidth
  split_ifs <;> omega

theorem readAt_eq_some {a : List UInt8} {pos w : ℕ} (h : pos + w ≤ a.length) :
    readAt a pos w = some ((a.drop pos).take w) := by
  simp only [readAt, h, ↓reduceIte]

/-- What the loop knows when the two pointers are `base + t` and `t`: the needle is at no position
before `base`, has room at `base`, and agrees with the haystack there on its first `t` bytes. -/
structure SearchInv (haystack needle : List UInt8) (base t : ℕ) : Prop where
  room : base + needle.length ≤ haystack.length
  le : t ≤ needle.length
  agree : (haystack.drop base).take t = needle.take t
  before : ∀ j < base, ¬ needle <+: haystack.drop j

theorem SearchInv.extend {base t w : ℕ} (h : SearchInv haystack needle base t)
    (hw : t + w ≤ needle.length)
    (heq : (haystack.drop (base + t)).take w = (needle.drop t).take w) :
    SearchInv haystack needle base (t + w) where
  room := h.room
  le := hw
  agree := by
    rw [List.take_add, List.take_add, h.agree, List.drop_drop, heq]
  before := h.before

/-- Bytes that differ show that the needle is not at `base`. -/
theorem SearchInv.not_isPrefixOf {base t w : ℕ} (hw : t + w ≤ needle.length)
    (hne : (haystack.drop (base + t)).take w ≠ (needle.drop t).take w) :
    ¬ needle <+: haystack.drop base := by
  intro hp
  apply hne
  have hneed : needle = (haystack.drop base).take needle.length := List.prefix_iff_eq_take.1 hp
  have : (needle.drop t).take w = (((haystack.drop base).take needle.length).drop t).take w := by
    rw [← hneed]
  rw [this, List.drop_take, List.take_take, List.drop_drop]
  congr 1
  omega

theorem SearchInv.next {base t : ℕ} (h : SearchInv haystack needle base t)
    (hno : ¬ needle <+: haystack.drop base)
    (hroom : ¬ haystack.length - (base + 1) < needle.length) (hpos : 0 < needle.length) :
    SearchInv haystack needle (base + 1) 0 where
  room := by have := h.room; omega
  le := Nat.zero_le _
  agree := by simp
  before := by
    intro j hj
    rcases Nat.lt_succ_iff_lt_or_eq.1 hj with hj | rfl
    · exact h.before j hj
    · exact hno

theorem SearchInv.found {base : ℕ} (h : SearchInv haystack needle base needle.length) :
    findSub needle haystack = some base := by
  refine findSub_eq_some_iff.2 ⟨by have := h.room; omega, ?_, h.before⟩
  rw [List.prefix_iff_eq_take, h.agree, List.take_length]

theorem SearchInv.absent {base t : ℕ} (h : SearchInv haystack needle base t)
    (hno : ¬ needle <+: haystack.drop base)
    (hroom : haystack.length - (base + 1) < needle.length) :
    findSub needle haystack = none := by
  apply findSub_eq_none_iff.2
  intro j _ hp
  have hlen := hp.length_le
  rw [List.length_drop] at hlen
  have hroom' := h.room
  rcases Nat.lt_trichotomy j base with hj | rfl | hj
  · exact h.before j hj hp
  · exact hno hp
  · omega

/-- The loop finds the first occurrence.  `saved` is the base of a match in progress; without one
no byte has been matched.  The fuel is a bound of the steps left: a mismatch moves the base, a
match moves on in the needle. -/
theorem bytesInBytesLoop_eq (hl : 0 < lsize) (hpos : 0 < needle.length) :
    ∀ (fuel base t : ℕ) (saved : Option ℕ), SearchInv haystack needle base t →
      (saved = some base ∨ saved = none ∧ t = 0) →
      (haystack.length - base) * (needle.length + 1) + (needle.length - t) < fuel →
      bytesInBytesLoop lsize haystack needle fuel (base + t) t saved =
        some (findSub needle haystack) := by
  intro fuel
  induction fuel with
  | zero => intro base t saved _ _ hf; omega
  | succ fuel ih =>
    intro base t saved hinv hsaved hf
    have hroom := hinv.room
    by_cases ht : t < needle.length
    · have hcond : base + t < haystack.length ∧ t < needle.length := by omega
      set w := compareWidth lsize haystack.length needle.length (base + t) t with hw
      have hwpos : 0 < w := compareWidth_pos hl
      obtain ⟨hwh, hwn⟩ : base + t + w ≤ haystack.length ∧ t + w ≤ needle.length :=
        compareWidth_le hcond.1 hcond.2
      have hbase : saved.getD (base + t) = base := by
        rcases hsaved with rfl | ⟨rfl, rfl⟩ <;> simp
      have hneed : (if saved.isSome then 0 else t) = 0 := by
        rcases hsaved with rfl | ⟨rfl, rfl⟩ <;> simp
      simp only [bytesInBytesLoop, hcond, and_self, ↓reduceIte, ← hw, readAt_eq_some hwh,
        readAt_eq_some hwn, Option.bind_eq_bind, Option.bind_some, hbase, hneed]
      split_ifs with heq hend
      · -- the match goes on; its base is kept
        have hor : saved.or (some (base + t)) = some base := by
          rcases hsaved with rfl | ⟨rfl, rfl⟩ <;> simp
        rw [hor, Nat.add_assoc]
        exact ih base (t + w) (some base) (hinv.extend hwn heq) (.inl rfl) (by omega)
      · -- no room is left for the needle at the next base
        rw [hinv.absent (SearchInv.not_isPrefixOf hwn heq) hend]
      · -- the search starts over at the next base
        have hnext := hinv.next (SearchInv.not_isPrefixOf hwn heq) hend hpos
        have hmul : (haystack.length - base) * (needle.length + 1) =
            (haystack.length - (base + 1)) * (needle.length + 1) + (needle.length + 1) := by
          rw [← Nat.succ_mul]; congr 1; omega
        exact ih (base + 1) 0 none hnext (.inr ⟨rfl, rfl⟩) (by omega)
    · -- the whole needle has been matched
      have hlen : t = needle.length := by have := hinv.le; omega
      subst hlen
      have hcond : ¬ (base + needle.length < haystack.length ∧ needle.length < needle.length) := by
        omega
      simp only [bytesInBytesLoop, hcond, ↓reduceIte, hinv.found]
      rcases hsaved with rfl | ⟨rfl, h0⟩
      · rfl
      · omega

/-- **The mixed-width search is the plain one**: it ends, reads inside its arrays, and finds the
first occurrence. -/
theorem bytesInBytes_eq (hl : 0 < lsize) (hpos : 0 < needle.length)
    (hle : needle.length ≤ haystack.length) :
    bytesInBytes lsize haystack needle = some (findSub needle haystack) := by
  have hinv : SearchInv haystack needle 0 0 :=
    ⟨by omega, Nat.zero_le _, by simp, fun j hj => absurd hj (Nat.not_lt_zero j)⟩
  refine bytesInBytesLoop_eq hl hpos _ 0 0 none hinv (.inr ⟨rfl, rfl⟩) ?_
  have : (haystack.length + 1) * (needle.length + 1) =
      haystack.length * (needle.length + 1) + (needle.length + 1) := Nat.succ_mul _ _
  simp only [Nat.sub_zero]
  omega

theorem isPrefixOf_drop_iff {i : ℕ} : needle <+: haystack.drop i ↔
    (haystack.drop i).take needle.length = needle := by
  rw [List.prefix_iff_eq_take]
  exact eq_comm

/-- **The search is right for both sizes of an `unsigned long`.**  It ends without a read outside
its two arrays; a position it returns is the first one at which the needle stands, and it returns
`NULL` exactly if there is none. -/
theorem bytesInBytes_first (hl : lsize = 4 ∨ lsize = 8) (hpos : 1 ≤ needle.length)
    (hle : needle.length ≤ haystack.length) :
    ∃ found, bytesInBytes lsize haystack needle = some found ∧
      (∀ i, found = some i ↔ i + needle.length ≤ haystack.length ∧
        (haystack.drop i).take needle.length = needle ∧
        ∀ j < i, (haystack.drop j).take needle.length ≠ needle) ∧
      (found = none ↔ ∀ j, (haystack.drop j).take needle.length ≠ needle) := by
  have hlpos : 0 < lsize := by omega
  refine ⟨findSub needle haystack, bytesInBytes_eq hlpos hpos hle, ?_, ?_⟩
  · intro i
    simp only [findSub_eq_some_iff, isPrefixOf_drop_iff]
    constructor
    · rintro ⟨-, hat, hfirst⟩
      have hlen := congrArg List.length hat
      rw [List.length_take, List.length_drop] at hlen
      exact ⟨by omega, hat, hfirst⟩
    · rintro ⟨hroom, hat, hfirst⟩
      exact ⟨by omega, hat, hfirst⟩
  · rw [findSub_eq_none_iff]
    constructor
    · intro hno j hat
      have hlen := congrArg List.length hat
      rw [List.length_take, List.length_drop] at hlen
      exact hno j (by omega) (isPrefixOf_drop_iff.2 hat)
    · intro hno j _ hp
      exact hno j (isPrefixOf_drop_iff.1 hp)

/-- A needle that is found behind a broken match. -/
theorem bytesInBytes_first_eight :
    let haystack : List UInt8 := [1, 2, 1, 2, 3]
    let needle : List UInt8 := [1, 2, 3]
    ∃ found, bytesInBytes 8 haystack needle = some found ∧
      (∀ i, found = some i ↔ i + needle.length ≤ haystack.length ∧
        (haystack.drop i).take needle.length = needle ∧
        ∀ j < i, (haystack.drop j).take needle.length ≠ needle) ∧
      (found = none ↔ ∀ j, (haystack.drop j).take needle.length ≠ needle) :=
  bytesInBytes_first (.inr rfl) (by decide) (by decide)

end SdrProxy
