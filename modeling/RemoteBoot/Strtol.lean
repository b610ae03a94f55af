import Mathlib.Algebra.Order.Ring.Int
import Mathlib.Data.List.Basic

/-! `strtol` of the C library on NUL-free text, for the bases 10 and 16 and a
`long` of 32 bits. White space and one sign are skipped, base 16 allows a `0x`,
the scan stops at the first character that is no digit, and a value out of range
is clamped. -/
namespace RemoteBoot.Strtol

/-- `isspace` in the C locale. -/
def isSpace (c : UInt8) : Bool := c == 32 || (9 ≤ c && c ≤ 13)

def digitValue (c : UInt8) : Option Nat :=
  if 48 ≤ c ∧ c ≤ 57 then some (c.toNat - 48)
  else if 65 ≤ c ∧ c ≤ 90 then some (c.toNat - 55)
  else if 97 ≤ c ∧ c ≤ 122 then some (c.toNat - 87)
  else none

def digit? (base : Nat) (c : UInt8) : Option Nat := (digitValue c).filter (· < base)

def magnitude (base acc : Nat) : List UInt8 → Nat
  | [] => acc
  | c :: s =>
    match digit? base c with
    | some d => magnitude base (acc * base + d) s
    | none => acc

/-- One optional sign: whether it is a minus, and what follows. -/
def sign : List UInt8 → Bool × List UInt8
  | [] => (false, [])
  | c :: s => if c = 45 then (true, s) else if c = 43 then (false, s) else (false, c :: s)

def hexPrefix : List UInt8 → List UInt8
  | zero :: x :: s => if zero = 48 ∧ (x = 120 ∨ x = 88) then s else zero :: x :: s
  | s => s

def strtol (base : Nat) (s : List UInt8) : Int :=
  let (negative, s) := sign (s.dropWhile isSpace)
  let m := magnitude base 0 (if base = 16 then hexPrefix s else s)
  if negative then max (-2 ^ 31) (-m) else min (2 ^ 31 - 1) m

/-- The value of a digit string, most significant digit first. -/
def value (base acc : Nat) (s : List UInt8) : Nat :=
  s.foldl (fun acc c => acc * base + (digit? base c).getD 0) acc

def IsDigit (base : Nat) (c : UInt8) : Prop := (digit? base c).isSome

instance (base : Nat) (c : UInt8) : Decidable (IsDigit base c) :=
  inferInstanceAs (Decidable ((digit? base c).isSome = true))

theorem magnitude_digits {base acc : Nat} {s rest : List UInt8} (digits : ∀ c ∈ s, IsDigit base c)
    (stops : ∀ c ∈ rest.head?, ¬ IsDigit base c) :
    magnitude base acc (s ++ rest) = value base acc s := by
  induction s generalizing acc with
  | nil =>
    cases rest with
    | nil => rfl
    | cons c rest =>
      have none : digit? base c = none := by
        simpa [IsDigit] using stops c (by simp)
      simp [magnitude, none, value]
  | cons c s ih =>
    obtain ⟨d, found⟩ := Option.isSome_iff_exists.mp (digits c List.mem_cons_self)
    have tail := @ih (acc * base + d) (fun c member => digits c (List.mem_cons_of_mem _ member))
    simp only [List.cons_append, magnitude, found, tail, value, List.foldl_cons, Option.getD_some]

/-- The digits of a base, by the three ranges of characters. -/
theorem isDigit_iff (base : Nat) (c : UInt8) : IsDigit base c ↔
    (48 ≤ c.toNat ∧ c.toNat ≤ 57 ∧ c.toNat - 48 < base) ∨
    (65 ≤ c.toNat ∧ c.toNat ≤ 90 ∧ c.toNat - 55 < base) ∨
    (97 ≤ c.toNat ∧ c.toNat ≤ 122 ∧ c.toNat - 87 < base) := by
  simp only [IsDigit, digit?, digitValue, UInt8.le_iff_toNat_le, UInt8.reduceToNat]
  split
  · simp only [Option.filter_some, decide_eq_true_eq, Option.isSome_ite]
    omega
  · split
    · simp only [Option.filter_some, decide_eq_true_eq, Option.isSome_ite]
      omega
    · split
      · simp only [Option.filter_some, decide_eq_true_eq, Option.isSome_ite]
        omega
      · simp only [Option.filter_none, Option.isSome_none, Bool.false_eq_true, false_iff]
        omega

theorem isDigit_hex (c : UInt8) : IsDigit 16 c ↔
    (48 ≤ c ∧ c ≤ 57) ∨ (65 ≤ c ∧ c ≤ 70) ∨ (97 ≤ c ∧ c ≤ 102) := by
  simp only [isDigit_iff, UInt8.le_iff_toNat_le, UInt8.reduceToNat]
  omega

theorem digit?_lt (base : Nat) (positive : 0 < base) (c : UInt8) : (digit? base c).getD 0 < base := by
  cases found : digit? base c with
  | none => exact positive
  | some d => simpa [digit?] using (Option.filter_eq_some_iff.mp found).2

/-- A digit is no white space, no sign and no NUL. -/
theorem isDigit_visible {c : UInt8} (isDigit : IsDigit base c) :
    isSpace c = false ∧ c ≠ 45 ∧ c ≠ 43 ∧ c ≠ 0 := by
  have range := (isDigit_iff base c).mp isDigit
  refine ⟨?_, ?_, ?_, ?_⟩
  · simp only [isSpace, Bool.or_eq_false_iff, Bool.and_eq_false_iff, decide_eq_false_iff_not,
      beq_eq_false_iff_ne, ne_eq, ← UInt8.toNat_inj, UInt8.le_iff_toNat_le, UInt8.reduceToNat]
    omega
  all_goals
    simp only [ne_eq, ← UInt8.toNat_inj, UInt8.reduceToNat]
    omega

/-- Text that begins with neither white space nor a sign is scanned as it is. -/
theorem scan_plain {c : UInt8} (visible : isSpace c = false) (noMinus : c ≠ 45) (noPlus : c ≠ 43)
    (rest : List UInt8) :
    (c :: rest).dropWhile isSpace = c :: rest ∧ sign (c :: rest) = (false, c :: rest) := by
  constructor
  · rw [List.dropWhile_cons, visible, if_neg Bool.false_ne_true]
  · rw [sign, if_neg noMinus, if_neg noPlus]

/-- Two hexadecimal digits that no third follows are read as one byte. -/
theorem strtol_hex_pair {high low : UInt8} {rest : List UInt8} (highDigit : IsDigit 16 high)
    (lowDigit : IsDigit 16 low) (stops : ∀ c ∈ rest.head?, ¬ IsDigit 16 c) :
    strtol 16 (high :: low :: rest) =
      (16 * (digit? 16 high).getD 0 + (digit? 16 low).getD 0 : Nat) := by
  have lowRange := (isDigit_hex low).mp lowDigit
  simp only [UInt8.le_iff_toNat_le, UInt8.reduceToNat] at lowRange
  obtain ⟨visible, noMinus, noPlus, _⟩ := isDigit_visible highDigit
  obtain ⟨noSpace, noSign⟩ := scan_plain visible noMinus noPlus (low :: rest)
  have noPrefix : hexPrefix (high :: low :: rest) = high :: low :: rest := by
    have noX : low ≠ 120 ∧ low ≠ 88 := by
      simp only [ne_eq, ← UInt8.toNat_inj, UInt8.reduceToNat]
      omega
    rw [hexPrefix, if_neg (by simp only [noX, or_self, and_false, not_false_eq_true])]
  have digits : ∀ c ∈ [high, low], IsDigit 16 c := by
    simp [highDigit, lowDigit]
  have scanned : magnitude 16 0 ([high, low] ++ rest) = value 16 0 [high, low] :=
    magnitude_digits digits stops
  have small := digit?_lt 16 (Nat.succ_pos 15) high
  have small' := digit?_lt 16 (Nat.succ_pos 15) low
  simp only [List.cons_append, List.nil_append, value, List.foldl_cons, List.foldl_nil] at scanned
  simp only [strtol, noSpace, noSign, if_true, noPrefix, scanned]
  simp
  omega

end RemoteBoot.Strtol
