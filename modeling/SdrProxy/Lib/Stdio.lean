import Mathlib.Data.List.DropRight
import Mathlib.Data.Int.Basic
import Mathlib.Tactic.IntervalCases
import Mathlib.Tactic.Ring

/-!
# Formatted text of the C library

The part of `printf` and `scanf` that reads and writes decimal numbers in byte strings.

* `fmtNat w n` is what the conversion `%wd` prints for `n`;
* `scanInt s` is the conversion `%d` on `s`: white space, a sign, digits;
* `sscanf f s` runs a list of scan directives on the null-terminated string at `s` and returns the
  converted numbers.  The C function returns their count, or `EOF` when the input ends before the
  first conversion; a caller that compares with a positive number cannot tell `EOF` from 0.

`scanInt_fmtNat` reads a printed number back.  Numbers beyond the range of `int`, which the C
function leaves undefined, are not bounded here.
-/

namespace SdrProxy

namespace Stdio

/-! ### Printing -/

/-- The decimal digits of `n`, most significant first, at most `fuel + 1` of them. -/
def decDigits : ℕ → ℕ → List ℕ
  | 0, n => [n % 10]
  | fuel + 1, n => if n < 10 then [n] else decDigits fuel (n / 10) ++ [n % 10]

/-- The character of a decimal digit. -/
def digitChar (d : ℕ) : UInt8 := UInt8.ofNat (48 + d)

/-- `n` in decimal. -/
def dec (n : ℕ) : List UInt8 := (decDigits n n).map digitChar

/-- `n` in decimal, padded on the left with blanks to at least `w` characters. -/
def fmtNat (w n : ℕ) : List UInt8 := List.replicate (w - (dec n).length) 0x20 ++ dec n

/-! ### Scanning -/

/-- `isspace` in the C locale. -/
def isSpace (b : UInt8) : Bool := b == 0x20 || (9 ≤ b && b ≤ 13)

/-- `isdigit`. -/
def isDigit (b : UInt8) : Bool := 48 ≤ b && b ≤ 57

/-- The value of a digit character. -/
def digitVal (b : UInt8) : ℕ := b.toNat - 48

/-- The value of a string of digits, continuing a number that started with `acc`. -/
def digitsVal (acc : ℕ) (ds : List UInt8) : ℕ := ds.foldl (fun v d => v * 10 + digitVal d) acc

/-- An optional sign: whether it is a minus, and what follows. -/
def scanSign : List UInt8 → Bool × List UInt8
  | [] => (false, [])
  | b :: s => if b = 0x2D then (true, s) else if b = 0x2B then (false, s) else (false, b :: s)

/-- The conversion `%d`: the number and the rest of the string. -/
def scanInt (s : List UInt8) : Option (ℤ × List UInt8) :=
  let t := scanSign (s.dropWhile isSpace)
  let ds := t.2.takeWhile isDigit
  if ds = [] then none
  else
    let v : ℤ := digitsVal 0 ds
    some (if t.1 then -v else v, t.2.dropWhile isDigit)

/-- A directive of a scan format. -/
inductive Directive where
  /-- A blank: any amount of white space. -/
  | ws
  /-- Any other character: itself. -/
  | lit (c : UInt8)
  /-- The conversion `%d`. -/
  | int
  deriving DecidableEq, Repr

/-- Run the directives on `s`; the numbers converted before the first mismatch. -/
def scan : List Directive → List UInt8 → List ℤ
  | [], _ => []
  | .ws :: f, s => scan f (s.dropWhile isSpace)
  | .lit _ :: _, [] => []
  | .lit c :: f, b :: s => if b = c then scan f s else []
  | .int :: f, s => match scanInt s with
    | none => []
    | some (v, t) => v :: scan f t

/-- The string at a `char *`: the bytes before the first null. -/
def cstr (s : List UInt8) : List UInt8 := s.takeWhile (· ≠ 0)

/-- `sscanf`: the numbers converted from the null-terminated string `s`. -/
def sscanf (f : List Directive) (s : List UInt8) : List ℤ := scan f (cstr s)

/-! ### Reading back what was printed -/

theorem decDigits_lt (fuel n : ℕ) : ∀ d ∈ decDigits fuel n, d < 10 := by
  induction fuel generalizing n with
  | zero => intro d hd; simp only [decDigits, List.mem_singleton] at hd; omega
  | succ fuel ih =>
    intro d hd
    simp only [decDigits] at hd
    split_ifs at hd with h
    · simp only [List.mem_singleton] at hd; omega
    · rcases List.mem_append.1 hd with hd | hd
      · exact ih _ d hd
      · simp only [List.mem_singleton] at hd; omega

theorem decDigits_ne_nil (fuel n : ℕ) : decDigits fuel n ≠ [] := by
  cases fuel with
  | zero => simp [decDigits]
  | succ fuel => simp only [decDigits]; split_ifs <;> simp

theorem digitVal_digitChar {d : ℕ} (h : d < 10) : digitVal (digitChar d) = d := by
  interval_cases d <;> rfl

theorem isDigit_digitChar {d : ℕ} (h : d < 10) : isDigit (digitChar d) = true := by
  interval_cases d <;> rfl

theorem digitsVal_append (acc : ℕ) (a b : List UInt8) :
    digitsVal acc (a ++ b) = digitsVal (digitsVal acc a) b :=
  List.foldl_append

theorem digitsVal_decDigits (fuel n : ℕ) (h : n < 10 ^ (fuel + 1)) :
    digitsVal 0 ((decDigits fuel n).map digitChar) = n := by
  induction fuel generalizing n with
  | zero =>
    have hn : n % 10 = n := Nat.mod_eq_of_lt (by simpa using h)
    simp only [decDigits, hn, List.map_cons, List.map_nil, digitsVal, List.foldl_cons,
      List.foldl_nil, digitVal_digitChar (by simpa using h : n < 10)]
    omega
  | succ fuel ih =>
    simp only [decDigits]
    split_ifs with hn
    · simp [digitsVal, digitVal_digitChar hn]
    · have hdiv : n / 10 < 10 ^ (fuel + 1) := by
        rw [Nat.div_lt_iff_lt_mul (by omega)]
        calc n < 10 ^ (fuel + 1 + 1) := h
          _ = 10 ^ (fuel + 1) * 10 := by ring
      rw [List.map_append, digitsVal_append, ih _ hdiv]
      simp only [List.map_cons, List.map_nil, digitsVal, List.foldl_cons, List.foldl_nil,
        digitVal_digitChar (Nat.mod_lt n (by omega : 10 > 0))]
      omega

theorem digitsVal_dec (n : ℕ) : digitsVal 0 (dec n) = n :=
  digitsVal_decDigits n n (Nat.lt_of_lt_of_le (Nat.lt_pow_self (by omega : 1 < 10))
    (Nat.pow_le_pow_right (by omega) (Nat.le_succ n)))

theorem dec_ne_nil (n : ℕ) : dec n ≠ [] := by
  simp [dec, decDigits_ne_nil]

theorem isDigit_of_mem_dec {n : ℕ} {b : UInt8} (h : b ∈ dec n) : isDigit b = true := by
  obtain ⟨d, hd, rfl⟩ := List.mem_map.1 h
  exact isDigit_digitChar (decDigits_lt n n d hd)

theorem not_isSpace_of_isDigit {b : UInt8} (h : isDigit b = true) : isSpace b = false := by
  simp only [isDigit, isSpace, Bool.and_eq_true, decide_eq_true_eq, Bool.or_eq_false_iff,
    beq_eq_false_iff_ne, UInt8.le_iff_toNat_le, Bool.and_eq_false_iff, decide_eq_false_iff_not,
    ne_eq, ← UInt8.toNat_inj] at h ⊢
  simp at h ⊢
  omega

theorem scanSign_of_isDigit {b : UInt8} {s : List UInt8} (h : isDigit b = true) :
    scanSign (b :: s) = (false, b :: s) := by
  have h₁ : b ≠ 0x2D := by rintro rfl; exact absurd h (by decide)
  have h₂ : b ≠ 0x2B := by rintro rfl; exact absurd h (by decide)
  simp [scanSign, h₁, h₂]

/-- `%d` skips white space itself. -/
theorem scanInt_dropWhile (s : List UInt8) : scanInt (s.dropWhile isSpace) = scanInt s := by
  have h : (s.dropWhile isSpace).dropWhile isSpace = s.dropWhile isSpace :=
    List.dropWhile_idempotent isSpace s
  rw [scanInt, h, scanInt]

theorem le_length_fmtNat (w n : ℕ) : w ≤ (fmtNat w n).length := by
  rw [fmtNat, List.length_append, List.length_replicate]
  omega

theorem dropWhile_fmtNat (w n : ℕ) (rest : List UInt8) :
    (fmtNat w n ++ rest).dropWhile isSpace = dec n ++ rest := by
  obtain ⟨b, ds, hds⟩ := List.exists_cons_of_ne_nil (dec_ne_nil n)
  have hb : isSpace b = false :=
    not_isSpace_of_isDigit (isDigit_of_mem_dec (hds ▸ List.mem_cons_self))
  have hrep : ∀ k, (List.replicate k (0x20 : UInt8) ++ (b :: ds ++ rest)).dropWhile isSpace =
      b :: ds ++ rest := by
    intro k
    induction k with
    | zero => simp [hb]
    | succ k ih =>
      rw [List.replicate_succ, List.cons_append, List.dropWhile_cons_of_pos (by decide)]
      exact ih
  rw [fmtNat, hds, List.append_assoc]
  exact hrep _

/-- **A printed number is read back**: `%d` on what `%wd` printed, followed by anything that does
not go on with a digit. -/
theorem scanInt_fmtNat (w n : ℕ) {rest : List UInt8}
    (h : rest.takeWhile isDigit = []) : scanInt (fmtNat w n ++ rest) = some ((n : ℤ), rest) := by
  obtain ⟨b, ds, hds⟩ := List.exists_cons_of_ne_nil (dec_ne_nil n)
  have hb : isDigit b = true := isDigit_of_mem_dec (hds ▸ List.mem_cons_self)
  have hsign : scanSign (dec n ++ rest) = (false, dec n ++ rest) := by
    rw [hds, List.cons_append, scanSign_of_isDigit hb]
  have hall : ∀ x ∈ dec n, isDigit x = true := fun x => isDigit_of_mem_dec
  have htake : (dec n ++ rest).takeWhile isDigit = dec n := by
    rw [List.takeWhile_append_of_pos hall, h, List.append_nil]
  have hdrop : (dec n ++ rest).dropWhile isDigit = rest := by
    rw [List.dropWhile_append_of_pos hall]
    have hsplit := List.takeWhile_append_dropWhile (p := isDigit) (l := rest)
    rwa [h, List.nil_append] at hsplit
  simp only [scanInt, dropWhile_fmtNat, hsign, htake, dec_ne_nil, ↓reduceIte, digitsVal_dec, hdrop,
    Bool.false_eq_true]

/-- A blank in front of `%d` changes nothing. -/
theorem scan_ws_int (f : List Directive) (s : List UInt8) :
    scan (.ws :: .int :: f) s = scan (.int :: f) s := by
  rw [scan, scan, scan, scanInt_dropWhile]

theorem scan_int_fmtNat (w n : ℕ) (f : List Directive) {rest : List UInt8}
    (h : rest.takeWhile isDigit = []) :
    scan (.int :: f) (fmtNat w n ++ rest) = (n : ℤ) :: scan f rest := by
  rw [scan, scanInt_fmtNat w n h]

theorem scan_int_space (f : List Directive) (s : List UInt8) :
    scan (.int :: f) (0x20 :: s) = scan (.int :: f) s := by
  have h : scanInt (0x20 :: s) = scanInt s := by
    rw [← scanInt_dropWhile, List.dropWhile_cons_of_pos (by decide), scanInt_dropWhile]
  rw [scan, scan, h]

end Stdio

end SdrProxy
