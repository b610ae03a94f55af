import Mathlib.Data.BitVec

/-! Words under a mask: the masked part and the free part of a word determine
it, and can be chosen independently. -/
namespace RemoteBoot.Masks
variable {w : Nat}

theorem and_or_and_not (a mask : BitVec w) : (a &&& mask) ||| (a &&& ~~~mask) = a := by
  ext i inside
  simp only [BitVec.getElem_or, BitVec.getElem_and, BitVec.getElem_not]
  cases a[i] <;> cases mask[i] <;> decide

theorem or_and {base x mask : BitVec w} (fixed : base &&& mask = base) (free : x &&& mask = 0#w) :
    (base ||| x) &&& mask = base := by
  ext i inside
  have fixedBit := congrArg (·[i]) fixed
  have freeBit := congrArg (·[i]) free
  simp only [BitVec.getElem_and, BitVec.getElem_or, BitVec.getElem_zero] at fixedBit freeBit ⊢
  revert fixedBit freeBit
  cases base[i] <;> cases x[i] <;> cases mask[i] <;> decide

theorem or_and_not {base x mask : BitVec w} (fixed : base &&& mask = base)
    (free : x &&& mask = 0#w) : (base ||| x) &&& ~~~mask = x := by
  ext i inside
  have fixedBit := congrArg (·[i]) fixed
  have freeBit := congrArg (·[i]) free
  simp only [BitVec.getElem_and, BitVec.getElem_or, BitVec.getElem_not, BitVec.getElem_zero]
    at fixedBit freeBit ⊢
  revert fixedBit freeBit
  cases base[i] <;> cases x[i] <;> cases mask[i] <;> decide

theorem eq_or_iff {a base x mask : BitVec w} (fixed : base &&& mask = base)
    (free : x &&& mask = 0#w) :
    a = base ||| x ↔ a &&& mask = base ∧ a &&& ~~~mask = x := by
  constructor
  · rintro rfl
    exact ⟨or_and fixed free, or_and_not fixed free⟩
  · rintro ⟨rfl, rfl⟩
    exact (and_or_and_not a mask).symm

end RemoteBoot.Masks
