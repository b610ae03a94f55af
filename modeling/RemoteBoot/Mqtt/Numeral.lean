import Mathlib.Algebra.Order.Field.Rat
import Mathlib.Algebra.Order.Field.Power
import Mathlib.Data.Int.CharZero
import RemoteBoot.Decimal
import RemoteBoot.Mqtt.Callback

/-! The numerals of JSON, what they denote, and what `atoi` makes of their text:
it reads no further than the integer a numeral begins with. -/
namespace RemoteBoot.Mqtt
open Bytes Strtol Decimal

structure Numeral where
  negative : Bool
  whole : Nat
  fraction : List (Fin 10)
  exponent : Option Int
  deriving DecidableEq

namespace Numeral

def integer (n : Int) : Numeral := ⟨n < 0, n.natAbs, [], none⟩

def fractionText : List (Fin 10) → List UInt8
  | [] => []
  | digits => 46 :: digits.map fun d : Fin 10 => digit d.val

def exponentText : Option Int → List UInt8
  | none => []
  | some e => 101 :: (if e < 0 then 45 else 43) :: padded e.natAbs

/-- The text behind the integer. -/
def tail (n : Numeral) : List UInt8 := fractionText n.fraction ++ exponentText n.exponent

def text (n : Numeral) : List UInt8 :=
  (if n.negative then [45] else []) ++ (decimal n.whole ++ n.tail)

def magnitude (n : Numeral) : ℚ :=
  (n.whole + (n.fraction.foldl (fun acc d => acc * 10 + d.val) 0 : Nat) / 10 ^ n.fraction.length) *
    10 ^ n.exponent.getD 0

def value (n : Numeral) : ℚ := if n.negative then -n.magnitude else n.magnitude

/-- The integer at its beginning, cut off to an `int`. -/
def leading (n : Numeral) : Int :=
  if n.negative then max (-2 ^ 31) (-(n.whole : Int)) else min (2 ^ 31 - 1) (n.whole : Int)

theorem tail_stops (n : Numeral) : ∀ c ∈ n.tail.head?, ¬ IsDigit 10 c := by
  have dot : ¬ IsDigit 10 46 := by decide
  have letter : ¬ IsDigit 10 101 := by decide
  intro c head
  unfold tail at head
  cases fraction : n.fraction with
  | nil =>
    cases exponent : n.exponent with
    | none => simp [fraction, exponent, fractionText, exponentText] at head
    | some e =>
      simp only [fraction, exponent, fractionText, exponentText, List.nil_append, List.head?_cons,
        Option.mem_def, Option.some.injEq] at head
      rwa [← head]
  | cons d digits =>
    simp only [fraction, fractionText, List.cons_append, List.head?_cons, Option.mem_def,
      Option.some.injEq] at head
    rwa [← head]

theorem decimal_nonzero (n : Nat) : (0 : UInt8) ∉ decimal n := by
  intro member
  exact (isDigit_visible (isDigit_decimal n 0 member)).2.2.2 rfl

theorem digit_nonzero : ∀ d : Fin 10, digit d.val ≠ 0 := by
  decide

theorem tail_nonzero (n : Numeral) : (0 : UInt8) ∉ n.tail := by
  unfold tail
  rw [List.mem_append]
  rintro (member | member)
  · cases fraction : n.fraction with
    | nil => simp [fraction, fractionText] at member
    | cons d digits =>
      rw [fraction] at member
      simp only [fractionText, List.mem_cons, List.mem_map] at member
      rcases member with zero | ⟨e, _, zero⟩
      · exact absurd zero (by decide)
      · exact digit_nonzero e zero
  · cases exponent : n.exponent with
    | none => simp [exponent, exponentText] at member
    | some e =>
      rw [exponent] at member
      simp only [exponentText, List.mem_cons, padded, List.mem_append, List.mem_replicate] at member
      rcases member with zero | zero | ⟨_, zero⟩ | zero
      · exact absurd zero (by decide)
      · split at zero <;> exact absurd zero (by decide)
      · exact absurd zero (by decide)
      · exact decimal_nonzero _ zero

theorem atoi_text (n : Numeral) : atoi n.text = n.leading := by
  have noNul : (0 : UInt8) ∉ n.text := by
    simp only [text, List.mem_append, not_or]
    refine ⟨?_, decimal_nonzero n.whole, n.tail_nonzero⟩
    split <;> decide
  rw [atoi, cstring_of_not_mem noNul, text, leading]
  split
  · exact strtol_minus n.whole n.tail_stops
  · exact strtol_decimal n.whole n.tail_stops

theorem magnitude_nonneg (n : Numeral) : 0 ≤ n.magnitude := by
  unfold magnitude
  refine mul_nonneg (add_nonneg (Nat.cast_nonneg _) (div_nonneg (Nat.cast_nonneg _) ?_)) ?_
  · exact pow_nonneg (by decide) _
  · exact zpow_nonneg (by decide) _

theorem positive_of_value {n : Numeral} (positive : 0 < n.value) : n.negative = false := by
  cases negative : n.negative with
  | false => rfl
  | true =>
    rw [value, if_pos negative] at positive
    exact absurd (n.magnitude_nonneg) (not_le.mpr (neg_pos.mp positive))

/-- A plain integer begins with itself. -/
theorem leading_of_plain {n : Numeral} {i : Int} (noFraction : n.fraction = [])
    (noExponent : n.exponent = none) (denotes : n.value = i) (low : -2 ^ 31 ≤ i) (high : i < 2 ^ 31) :
    n.leading = i := by
  have whole : n.magnitude = (n.whole : ℚ) := by
    simp [magnitude, noFraction, noExponent]
  cases negative : n.negative with
  | false =>
    simp only [value, negative, Bool.false_eq_true, if_false, whole] at denotes
    have same : (n.whole : Int) = i := by exact_mod_cast denotes
    simp only [leading, negative, Bool.false_eq_true, if_false, same]
    omega
  | true =>
    simp only [value, negative, if_true, whole] at denotes
    rw [← Int.cast_natCast, ← Int.cast_neg, Int.cast_inj] at denotes
    simp only [leading, negative, if_true, denotes]
    omega

theorem leading_range (n : Numeral) : -2 ^ 31 ≤ n.leading ∧ n.leading < 2 ^ 31 := by
  unfold leading
  split <;> omega

end Numeral
end RemoteBoot.Mqtt
