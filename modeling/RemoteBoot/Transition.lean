import Mathlib.Logic.Basic

/-! Guarded runs of a partial step function. A label resolves every choice of a
step, so a schedule is a list of labels. The guard restricts the steps a run may
take and is what a conditional guarantee quantifies over. -/
namespace RemoteBoot.Transition
variable {S L : Type}

def Free : S → L → Prop := fun _ _ => True

inductive Run (step : S → L → Option S) (ok : S → L → Prop) : S → List L → S → Prop where
  | refl (s) : Run step ok s [] s
  | next : ok s l → step s l = some t → Run step ok t ls u → Run step ok s (l :: ls) u

/-- `P` in every state the schedule visits, the first one included. -/
def Always (step : S → L → Option S) (P : S → Prop) : S → List L → Prop
  | s, [] => P s
  | s, l :: ls => P s ∧ ∀ t, step s l = some t → Always step P t ls

theorem Always.head {step : S → L → Option S} {P : S → Prop} (always : Always step P s ls) : P s := by
  cases ls with
  | nil => exact always
  | cons => exact always.1

theorem Always.of_some {step : S → L → Option S} {P : S → Prop} (stepped : step s l = some t) :
    Always step P s (l :: ls) ↔ P s ∧ Always step P t ls := by
  simp only [Always, stepped, Option.some.injEq, forall_eq']

instance Always.decidable {step : S → L → Option S} {P : S → Prop} [DecidablePred P] (s : S) :
    (ls : List L) → Decidable (Always step P s ls)
  | [] => inferInstanceAs (Decidable (P s))
  | l :: ls =>
    match stepped : step s l with
    | none => decidable_of_iff (P s) (by simp only [Always, stepped, reduceCtorEq, false_implies,
        implies_true, and_true])
    | some t =>
      have : Decidable (Always step P t ls) := Always.decidable t ls
      decidable_of_iff (P s ∧ Always step P t ls) (Always.of_some stepped).symm

namespace Run
variable {step : S → L → Option S} {ok : S → L → Prop}

theorem invariant {P : S → Prop} (run : Run step ok s ls t)
    (preserves : ∀ {s l t}, P s → ok s l → step s l = some t → P t) (initial : P s) : P t := by
  induction run with
  | refl => exact initial
  | next admitted head _ ih => exact ih (preserves initial admitted head)

/-- An invariant may rely on what is given to hold all along the run. -/
theorem invariant_always {P Given : S → Prop} (run : Run step ok s ls t)
    (given : Always step Given s ls)
    (preserves : ∀ {s l t}, P s → Given t → step s l = some t → P t) (initial : P s) : P t := by
  induction run with
  | refl => exact initial
  | next _ head _ ih =>
    have later := given.2 _ head
    exact ih later (preserves initial later.head head)

theorem always_last {P : S → Prop} (run : Run step ok s ls t) (always : Always step P s ls) : P t :=
  run.invariant_always always (fun _ here _ => here) always.head

theorem free (run : Run step ok s ls t) : Run step Free s ls t := by
  induction run with
  | refl => exact .refl _
  | next _ head _ ih => exact .next trivial head ih

/-- A guard that implies another one wherever an invariant holds. -/
theorem weaken {ok' : S → L → Prop} (Inv : S → Prop) (run : Run step ok s ls t)
    (preserves : ∀ {s l t}, Inv s → ok s l → step s l = some t → Inv t)
    (implies : ∀ {s l}, Inv s → ok s l → ok' s l) (initial : Inv s) : Run step ok' s ls t := by
  induction run with
  | refl => exact .refl _
  | next admitted head _ ih =>
    exact .next (implies initial admitted) head (ih (preserves initial admitted head))

/-- Steps that a second system answers, related states to related states. -/
theorem simulation {T M : Type} {a : T} {step' : T → M → Option T} {R : S → T → Prop} (move : L → M)
    (run : Run step ok s ls t)
    (answers : ∀ {s l t a}, R s a → ok s l → step s l = some t → ∃ b, step' a (move l) = some b ∧ R t b)
    (related : R s a) : ∃ b, Run step' Free a (ls.map move) b ∧ R t b := by
  induction run generalizing a with
  | refl => exact ⟨a, .refl _, related⟩
  | next admitted head _ ih =>
    obtain ⟨b, answer, still⟩ := answers related admitted head
    obtain ⟨c, rest, last⟩ := ih still
    exact ⟨c, .next trivial answer rest, last⟩

theorem of_foldlM (executed : ls.foldlM step s = some t) : Run step Free s ls t := by
  induction ls generalizing s with
  | nil => cases executed; exact .refl _
  | cons l ls ih =>
    simp only [List.foldlM_cons, Option.bind_eq_bind, Option.bind_eq_some_iff] at executed
    obtain ⟨middle, head, rest⟩ := executed
    exact .next trivial head (ih rest)

/-- A schedule that was executed and tested is a run to a state of that kind. -/
theorem of_any {p : S → Bool} (executed : (ls.foldlM step s).any p = true) :
    ∃ t, Run step Free s ls t ∧ p t = true := by
  cases final : ls.foldlM step s with
  | none => simp [final] at executed
  | some t => exact ⟨t, of_foldlM final, by simpa [final] using executed⟩

/-- As `of_any`, for a guard that is tested on the way. -/
theorem of_checked [∀ s l, Decidable (ok s l)] {p : S → Bool}
    (executed : (ls.foldlM (fun s l => if ok s l then step s l else none) s).any p = true) :
    ∃ t, Run step ok s ls t ∧ p t = true := by
  induction ls generalizing s with
  | nil => exact ⟨s, .refl s, executed⟩
  | cons l ls ih =>
    rw [List.foldlM_cons] at executed
    by_cases admitted : ok s l
    · rw [if_pos admitted] at executed
      cases head : step s l with
      | none =>
        rw [head] at executed
        cases executed
      | some middle =>
        rw [head] at executed
        obtain ⟨t, rest, tested⟩ := ih executed
        exact ⟨t, .next admitted head rest, tested⟩
    · rw [if_neg admitted] at executed
      cases executed

theorem good_back {Inv Good : S → Prop} (run : Run step Free s ls t)
    (preserves : ∀ {s l t}, Inv s → step s l = some t → Inv t)
    (kept : ∀ {s l t}, Inv s → step s l = some t → Good t → Good s)
    (inv : Inv s) (last : Good t) : Good s := by
  induction run with
  | refl => exact last
  | next _ head _ ih => exact kept inv head (ih (preserves inv head) last)

/-- A log that stays good exactly on admitted steps is good at the end of a run
exactly when the guard admitted every step of it. -/
theorem good_iff (Inv Good : S → Prop) (run : Run step Free s ls t)
    (preserves : ∀ {s l t}, Inv s → step s l = some t → Inv t)
    (exact_step : ∀ {s l t}, Inv s → step s l = some t → (Good t ↔ Good s ∧ ok s l))
    (inv : Inv s) (good : Good s) : Good t ↔ Run step ok s ls t := by
  constructor
  · intro last
    induction run with
    | refl => exact .refl _
    | next _ head rest ih =>
      have middle := rest.good_back preserves
        (fun inv head good => ((exact_step inv head).mp good).1) (preserves inv head) last
      exact .next ((exact_step inv head).mp middle).2 head (ih (preserves inv head) middle last)
  · intro admitted
    have both := admitted.invariant (P := fun s => Inv s ∧ Good s)
      (fun both okay head =>
        ⟨preserves both.1 head, (exact_step both.1 head).mpr ⟨both.2, okay⟩⟩) ⟨inv, good⟩
    exact both.2

/-- The same for a property of single states: it holds all along a run exactly
when the guard admits each step, if every step keeps it exactly when admitted. -/
theorem always_iff (Inv : S → Prop) {P : S → Prop} (run : Run step Free s ls t)
    (preserves : ∀ {s l t}, Inv s → P s → step s l = some t → P t → Inv t)
    (exact_step : ∀ {s l t}, Inv s → P s → step s l = some t → (P t ↔ ok s l))
    (inv : Inv s) (holds : P s) : Always step P s ls ↔ Run step ok s ls t := by
  induction run with
  | refl => exact ⟨fun _ => .refl _, fun _ => holds⟩
  | @next s l middle ls u _ head rest ih =>
    constructor
    · rintro ⟨_, later⟩
      have tail := later _ head
      exact .next ((exact_step inv holds head).mp tail.head) head
        ((ih (preserves inv holds head tail.head) tail.head).mp tail)
    · intro admitted
      cases admitted with
      | next okay other path =>
        cases Option.some.inj (head.symm.trans other)
        have middleHolds := (exact_step inv holds head).mpr okay
        refine ⟨holds, fun t stepped => ?_⟩
        cases Option.some.inj (head.symm.trans stepped)
        exact (ih (preserves inv holds head middleHolds) middleHolds).mpr path

end Run
end RemoteBoot.Transition
