import Mathlib.Data.List.Basic

/-! Terminated lines over any alphabet. A text splits in exactly one way into
complete lines and an unterminated rest, so a reader that consumes characters is
determined by what it does on whole lines. -/
namespace RemoteBoot.Lines
variable {α : Type}

/-- Every line followed by its terminator. -/
def unlines (nl : α) (ls : List (List α)) : List α := ls.flatMap (· ++ [nl])

theorem unlines_cons (nl : α) (l : List α) (ls : List (List α)) :
    unlines nl (l :: ls) = l ++ nl :: unlines nl ls := by
  simp [unlines]

variable [DecidableEq α]

/-- The complete lines of a text, and what follows the last terminator. -/
def split (nl : α) : List α → List (List α) × List α
  | [] => ([], [])
  | c :: cs =>
    if c = nl then ([] :: (split nl cs).1, (split nl cs).2)
    else match split nl cs with
      | ([], rest) => ([], c :: rest)
      | (l :: ls, rest) => ((c :: l) :: ls, rest)

/-- Splitting loses nothing, and no piece contains the terminator. -/
theorem split_spec (nl : α) (cs : List α) :
    unlines nl (split nl cs).1 ++ (split nl cs).2 = cs ∧
      (∀ l ∈ (split nl cs).1, nl ∉ l) ∧ nl ∉ (split nl cs).2 := by
  induction cs with
  | nil => simp [split, unlines]
  | cons c cs ih =>
    obtain ⟨joined, clean, restClean⟩ := ih
    by_cases ends : c = nl
    · subst c
      simp only [split, if_true]
      refine ⟨by rw [unlines_cons, List.nil_append, List.cons_append, joined], ?_, restClean⟩
      intro l member
      rcases List.mem_cons.mp member with rfl | later
      · simp
      · exact clean l later
    · have other : nl ≠ c := fun same => ends same.symm
      rw [split, if_neg ends]
      cases parts : split nl cs with
      | mk ls rest =>
        rw [parts] at joined clean restClean
        cases ls with
        | nil =>
          refine ⟨?_, by simp, by simp [other, restClean]⟩
          simp only [unlines, List.flatMap_nil, List.nil_append] at joined ⊢
          rw [joined]
        | cons l ls =>
          refine ⟨?_, ?_, restClean⟩
          · simp only [unlines_cons, List.cons_append] at joined ⊢
            rw [joined]
          · intro line member
            rcases List.mem_cons.mp member with rfl | later
            · simp [other, clean l List.mem_cons_self]
            · exact clean line (List.mem_cons_of_mem _ later)

theorem split_append {nl : α} {l : List α} (clean : nl ∉ l) (cs : List α) :
    split nl (l ++ nl :: cs) = (l :: (split nl cs).1, (split nl cs).2) := by
  induction l with
  | nil => simp [split]
  | cons c l ih =>
    simp only [List.mem_cons, not_or] at clean
    rw [List.cons_append, split, if_neg (Ne.symm clean.1), ih clean.2]

theorem split_rest {nl : α} {rest : List α} (clean : nl ∉ rest) : split nl rest = ([], rest) := by
  induction rest with
  | nil => rfl
  | cons c rest ih =>
    simp only [List.mem_cons, not_or] at clean
    rw [split, if_neg (Ne.symm clean.1), ih clean.2]

/-- The splitting is the only one. -/
theorem split_unlines {nl : α} {ls : List (List α)} {rest : List α}
    (clean : ∀ l ∈ ls, nl ∉ l) (restClean : nl ∉ rest) :
    split nl (unlines nl ls ++ rest) = (ls, rest) := by
  induction ls with
  | nil => exact split_rest restClean
  | cons l ls ih =>
    have tail := ih (fun m member => clean m (List.mem_cons_of_mem _ member))
    rw [unlines_cons, List.append_assoc, List.cons_append,
      split_append (clean l List.mem_cons_self), tail]

/-- One more character ends the rest or makes it longer. -/
theorem split_concat (nl : α) (cs : List α) (c : α) : split nl (cs ++ [c]) =
    if c = nl then ((split nl cs).1 ++ [(split nl cs).2], [])
    else ((split nl cs).1, (split nl cs).2 ++ [c]) := by
  obtain ⟨joined, clean, restClean⟩ := split_spec nl cs
  split
  · rename_i ends
    have whole : unlines nl ((split nl cs).1 ++ [(split nl cs).2]) ++ [] = cs ++ [c] := by
      conv => rhs; rw [← joined, ends]
      simp [unlines]
    rw [← whole]
    refine split_unlines (fun l member => ?_) List.not_mem_nil
    rcases List.mem_append.mp member with earlier | last
    · exact clean l earlier
    · exact List.mem_singleton.mp last ▸ restClean
  · rename_i other
    have whole : unlines nl (split nl cs).1 ++ ((split nl cs).2 ++ [c]) = cs ++ [c] := by
      rw [← List.append_assoc, joined]
    rw [← whole]
    refine split_unlines clean ?_
    simpa [restClean] using Ne.symm other

end RemoteBoot.Lines
