import RemoteBoot.Strtol

/-! Decimal text as the C library writes it, most significant digit first, and
how `strtol` reads it back. -/
namespace RemoteBoot.Decimal
open Strtol

def digit (d : Nat) : UInt8 := UInt8.ofNat (48 + d)

def decimal (n : Nat) : List UInt8 := (Nat.toDigits 10 n).map fun c => UInt8.ofNat c.toNat

/-- `%d` -/
def signed (n : Int) : List UInt8 := if n < 0 then 45 :: decimal n.natAbs else decimal n.natAbs

/-- `%02d` of a number without a sign. -/
def padded (n : Nat) : List UInt8 := List.replicate (2 - (decimal n).length) 48 ++ decimal n

theorem digitChar_byte : ∀ {d : Nat}, d < 10 → UInt8.ofNat (Nat.digitChar d).toNat = digit d := by
  decide

theorem digit?_digit : ∀ {d : Nat}, d < 10 → digit? 10 (digit d) = some d := by
  decide

theorem decimal_eq (n : Nat) :
    decimal n = if n < 10 then [digit n] else decimal (n / 10) ++ [digit (n % 10)] := by
  rw [decimal, Nat.toDigits_eq_if (by decide)]
  split
  · rename_i small
    rw [List.map_singleton, digitChar_byte small]
  · rw [List.map_append, List.map_singleton, digitChar_byte (Nat.mod_lt n (by decide)), decimal]

theorem length_decimal_pos (n : Nat) : 0 < (decimal n).length := by
  rw [decimal, List.length_map]
  exact Nat.length_toDigits_pos

theorem length_decimal_le_iff {k : Nat} (positive : 0 < k) (n : Nat) :
    (decimal n).length ≤ k ↔ n < 10 ^ k := by
  rw [decimal, List.length_map]
  exact Nat.length_toDigits_le_iff (by decide) positive

theorem isDigit_decimal (n : Nat) : ∀ c ∈ decimal n, IsDigit 10 c := by
  induction n using Nat.strong_induction_on with
  | _ n ih =>
    rw [decimal_eq]
    split
    · rename_i small
      simp only [List.mem_singleton, forall_eq, IsDigit, digit?_digit small, Option.isSome_some]
    · intro c member
      rcases List.mem_append.mp member with leading | last
      · exact ih (n / 10) (by omega) c leading
      · rw [List.mem_singleton.mp last, IsDigit, digit?_digit (Nat.mod_lt n (by decide))]
        rfl

theorem value_decimal (n : Nat) : value 10 0 (decimal n) = n := by
  induction n using Nat.strong_induction_on with
  | _ n ih =>
    rw [decimal_eq]
    split
    · rename_i small
      simp only [value, List.foldl_cons, List.foldl_nil, digit?_digit small, Option.getD_some]
      omega
    · have leading := ih (n / 10) (by omega)
      simp only [value] at leading
      simp only [value, List.foldl_append, List.foldl_cons, List.foldl_nil, leading,
        digit?_digit (Nat.mod_lt n (by decide : 0 < 10)), Option.getD_some]
      omega

theorem decimal_head (n : Nat) : ∃ c s, decimal n = c :: s ∧ IsDigit 10 c := by
  cases text : decimal n with
  | nil => exact absurd (length_decimal_pos n) (by simp [text])
  | cons c s => exact ⟨c, s, rfl, isDigit_decimal n c (by simp [text])⟩

theorem scan_decimal (n : Nat) (rest : List UInt8) :
    (decimal n ++ rest).dropWhile isSpace = decimal n ++ rest ∧
      sign (decimal n ++ rest) = (false, decimal n ++ rest) := by
  obtain ⟨c, s, text, isDigit⟩ := decimal_head n
  obtain ⟨visible, noMinus, noPlus, _⟩ := isDigit_visible isDigit
  rw [text, List.cons_append]
  exact scan_plain visible noMinus noPlus (s ++ rest)

theorem magnitude_decimal (n : Nat) {rest : List UInt8} (stops : ∀ c ∈ rest.head?, ¬ IsDigit 10 c) :
    magnitude 10 0 (decimal n ++ rest) = n := by
  rw [magnitude_digits (isDigit_decimal n) stops, value_decimal]

theorem strtol_decimal (n : Nat) {rest : List UInt8} (stops : ∀ c ∈ rest.head?, ¬ IsDigit 10 c) :
    strtol 10 (decimal n ++ rest) = min (2 ^ 31 - 1) (n : Int) := by
  obtain ⟨noSpace, noSign⟩ := scan_decimal n rest
  simp only [strtol, noSpace, noSign, magnitude_decimal n stops, Nat.reduceEqDiff, if_false,
    Bool.false_eq_true]

theorem strtol_minus (n : Nat) {rest : List UInt8} (stops : ∀ c ∈ rest.head?, ¬ IsDigit 10 c) :
    strtol 10 (45 :: (decimal n ++ rest)) = max (-2 ^ 31) (-(n : Int)) := by
  have noSpace : (45 :: (decimal n ++ rest)).dropWhile isSpace = 45 :: (decimal n ++ rest) := rfl
  have minus : sign (45 :: (decimal n ++ rest)) = (true, decimal n ++ rest) := rfl
  simp only [strtol, noSpace, minus, magnitude_decimal n stops, Nat.reduceEqDiff, if_false, if_true]

/-- Text that does not begin with a number, white space or a sign. -/
theorem strtol_other {c : UInt8} {rest : List UInt8} (visible : isSpace c = false)
    (noMinus : c ≠ 45) (noPlus : c ≠ 43) (noDigit : ¬ IsDigit 10 c) : strtol 10 (c :: rest) = 0 := by
  obtain ⟨noSpace, noSign⟩ := scan_plain visible noMinus noPlus rest
  have none : digit? 10 c = none := by
    simpa [IsDigit] using noDigit
  simp [strtol, noSpace, noSign, magnitude, none]

end RemoteBoot.Decimal
