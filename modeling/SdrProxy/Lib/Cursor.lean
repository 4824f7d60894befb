import Mathlib.Data.List.Count
import Mathlib.Order.Bounds.Basic
import Mathlib.Order.Iterate

/-!
# Readers with a cursor

A store hands out what it holds in the order of the keys.  It keeps a cursor for a reader, the key
that it handed out last.  A reader may call again, and then the cursor goes back a little.

* `Visit` : what happens between the store and a reader; `cursor` is where the visits leave the
  reader, and `Extends` says how they go on, if the store holds the keys in `S` then;
* `Ascending` : what is handed out lies behind the cursor.  So no key is handed out more often than
  the reader calls (`Ascending.count_le`), and what is handed out again after `n` calls is not
  farther back than `n` times (`Ascending.resent`);
* `Complete` : after a call, nothing behind the cursor is left out (`Complete.extends`).
-/

namespace SdrProxy

/-- What happens between a store and a reader. -/
inductive Visit (K : Type*) where
  /-- The reader calls. -/
  | called
  /-- The key is handed out. -/
  | read (k : K)
  deriving DecidableEq

variable {K : Type*} [LinearOrder K] {start : K} {back : K → K}
variable {S : Set K} {vs vs' ws : List (Visit K)} {j k m : K}

/-- The cursor after these visits, the newest first: a reader starts at `start`, and is set back by
`back` at each further call. -/
def cursor (start : K) (back : K → K) : List (Visit K) → Option K
  | [] => none
  | .called :: vs => some ((cursor start back vs).elim start back)
  | .read k :: _ => some k

/-- The visits go on: the reader calls, or the next key that the store holds is handed out. -/
inductive Extends (start : K) (back : K → K) (S : Set K) :
    List (Visit K) → List (Visit K) → Prop where
  | called (vs : List (Visit K)) : Extends start back S vs (.called :: vs)
  | read {vs : List (Visit K)} {m k : K} : cursor start back vs = some m →
      IsLeast (S ∩ Set.Ioi m) k → Extends start back S vs (.read k :: vs)

/-! ### Nothing twice without a call -/

/-- Every key that was handed out lay behind the cursor. -/
def Ascending (start : K) (back : K → K) : List (Visit K) → Prop
  | [] => True
  | .called :: vs => Ascending start back vs
  | .read k :: vs => (∃ m, cursor start back vs = some m ∧ m < k) ∧ Ascending start back vs

theorem Ascending.extends (h : Ascending start back vs) (hext : Extends start back S vs vs') :
    Ascending start back vs' := by
  cases hext with
  | called => exact h
  | read hm hk => exact ⟨⟨_, hm, hk.1.2⟩, h⟩

theorem Ascending.of_suffix (h : Ascending start back vs) (hsuffix : ws <:+ vs) :
    Ascending start back ws := by
  induction vs with
  | nil => rwa [List.suffix_nil.1 hsuffix]
  | cons v vs ih =>
    rcases List.suffix_cons_iff.1 hsuffix with rfl | hrest
    · exact h
    · cases v with
      | called => exact ih h hrest
      | read k => exact ih h.2 hrest

/-- A key that is still to come can be handed out once without a call. -/
theorem Ascending.count_add (h : Ascending start back vs) (k : K) :
    vs.count (.read k) + (if (cursor start back vs).any (· < k) then 1 else 0) ≤
      vs.count .called := by
  induction vs with
  | nil => simp [cursor]
  | cons v vs ih =>
    cases v with
    | called =>
      have hrest := ih h
      rw [List.count_cons_self, List.count_cons_of_ne (by simp)]
      split_ifs at hrest ⊢ <;> omega
    | read j =>
      obtain ⟨⟨m, hm, hmj⟩, hasc⟩ := h
      have hrest := ih hasc
      rw [List.count_cons_of_ne (by simp : Visit.read j ≠ .called)]
      simp only [hm, Option.any_some, decide_eq_true_eq] at hrest
      simp only [cursor, Option.any_some, decide_eq_true_eq]
      by_cases hjk : j = k
      · subst hjk
        rw [List.count_cons_self, if_neg (lt_irrefl j)]
        rwa [if_pos hmj] at hrest
      · rw [List.count_cons_of_ne (by simpa using hjk)]
        -- what lies behind `j` lay behind the cursor
        by_cases hlt : j < k
        · rw [if_pos hlt]
          rwa [if_pos (hmj.trans hlt)] at hrest
        · rw [if_neg hlt]
          omega

/-- **No key is handed out more often than the reader calls.** -/
theorem Ascending.count_le (h : Ascending start back vs) (k : K) :
    vs.count (.read k) ≤ vs.count .called :=
  (Nat.le_add_right _ _).trans (h.count_add k)

omit [LinearOrder K] in
theorem cursor_calls (n : ℕ) (h : cursor start back vs = some m) :
    cursor start back (List.replicate n .called ++ vs) = some (back^[n] m) := by
  induction n with
  | zero => exact h
  | succ n ih =>
    rw [List.replicate_succ, List.cons_append, cursor, ih, Function.iterate_succ_apply']
    rfl

/-- **What is handed out after `n` calls is not farther back than these.** -/
theorem Ascending.resent {n : ℕ}
    (h : Ascending start back (.read k :: (List.replicate n .called ++ .read j :: ws))) :
    back^[n] j < k := by
  obtain ⟨⟨m, hm, hmk⟩, -⟩ := h
  rw [cursor_calls n rfl] at hm
  obtain rfl := Option.some.inj hm
  exact hmk

/-! ### Nothing is left out -/

/-- After each call behind which the key lies, it was handed out, or nothing at or after it was and
the cursor is still before it. -/
def Complete (start : K) (back : K → K) (k : K) (vs : List (Visit K)) : Prop :=
  ∀ recent old m, vs = recent ++ .called :: old → cursor start back (.called :: old) = some m →
    m < k → .read k ∈ recent ∨ ((∀ j, .read j ∈ recent → j < k) ∧
      ∃ m', cursor start back vs = some m' ∧ m' < k)

theorem complete_nil : Complete start back k [] := by
  intro recent old m hsplit
  simp at hsplit

/-- **Nothing is left out**, if the store holds the key as long as it holds anything as late. -/
theorem Complete.extends (h : Complete start back k vs) (hback : ∀ m, back m ≤ m)
    (hS : ∀ j ∈ S, k ≤ j → k ∈ S) (hext : Extends start back S vs vs') :
    Complete start back k vs' := by
  intro recent old m hsplit hm hmk
  cases hext with
  | called =>
    cases recent with
    | nil =>
      obtain ⟨-, rfl⟩ := List.cons.inj hsplit
      exact .inr ⟨fun j hj => absurd hj List.not_mem_nil, m, hm, hmk⟩
    | cons v recent =>
      obtain ⟨rfl, hvs⟩ := List.cons.inj hsplit
      rcases h recent old m hvs hm hmk with hread | ⟨hbefore, m', hm', hlt⟩
      · exact .inl (List.mem_cons_of_mem _ hread)
      · refine .inr ⟨?_, back m', ?_, (hback m').trans_lt hlt⟩
        · intro j hj
          exact hbefore j (by simpa using hj)
        · rw [cursor, hm']
          rfl
  | @read m₀ j hm₀ hj =>
    cases recent with
    | nil => cases hsplit
    | cons v recent =>
      obtain ⟨rfl, hvs⟩ := List.cons.inj hsplit
      rcases h recent old m hvs hm hmk with hread | ⟨hbefore, m', hm', hlt⟩
      · exact .inl (List.mem_cons_of_mem _ hread)
      · obtain rfl := Option.some.inj (hm₀.symm.trans hm')
        by_cases hkj : k ≤ j
        · -- the key is the next one
          have hjk : j ≤ k := hj.2 ⟨hS j hj.1.1 hkj, hlt⟩
          rw [le_antisymm hkj hjk]
          exact .inl List.mem_cons_self
        · refine .inr ⟨?_, j, rfl, lt_of_not_ge hkj⟩
          intro i hi
          rcases List.mem_cons.1 hi with hi | hi
          · cases hi
            exact lt_of_not_ge hkj
          · exact hbefore i hi

/-- If something as late was handed out since a call, then the key was. -/
theorem Complete.mem {recent old : List (Visit K)}
    (h : Complete start back k (recent ++ .called :: old))
    (hm : cursor start back (.called :: old) = some m) (hmk : m < k) (hj : .read j ∈ recent)
    (hkj : k ≤ j) : .read k ∈ recent := by
  rcases h recent old m rfl hm hmk with hread | ⟨hbefore, -⟩
  · exact hread
  · exact absurd (hbefore j hj) hkj.not_gt

end SdrProxy
