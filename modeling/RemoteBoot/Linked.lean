import Mathlib.Data.List.Basic

/-! Doubly linked circles in a store. A store is read through two functions, the cell
behind and the cell in front of an address; a list says in which order a circle visits
its cells. The changes are stated for any second store that differs from the first in the
pointers a change has to touch. -/
namespace RemoteBoot.Linked
variable {α : Type*} {next prev next' prev' : α → α} {a b p q x y head : α} {l u v : List α}

/-- A way from `a` over the cells of a list to `b`, linked in both directions. -/
def Way (next prev : α → α) (a : α) : List α → α → Prop
  | [], b => next a = b ∧ prev b = a
  | x :: l, b => (next a = x ∧ prev x = a) ∧ Way next prev x l b

/-- A circle through `head` and then the cells of a list, each of them once. -/
def Circuit (next prev : α → α) (head : α) (l : List α) : Prop :=
  (head :: l).Nodup ∧ Way next prev head l head

/-- The cells from `p` on, up to `last`. -/
def cells [DecidableEq α] (next : α → α) (last : α) : Nat → α → List α
  | 0, _ => []
  | fuel + 1, p => if p = last then [] else p :: cells next last fuel (next p)

theorem mem_middle : y ∈ u ++ x :: v ↔ y = x ∨ y ∈ u ++ v := by
  simp only [List.mem_append, List.mem_cons]
  tauto

theorem path_append : Way next prev a (u ++ x :: v) b ↔ Way next prev a u x ∧ Way next prev x v b := by
  induction u generalizing a with
  | nil => exact Iff.rfl
  | cons y u ih =>
    simp only [List.cons_append, Way, ih]
    exact and_assoc.symm

theorem Way.congr (path : Way next prev a l b) (forward : ∀ y ∈ a :: l, next' y = next y)
    (backward : ∀ y ∈ l ++ [b], prev' y = prev y) : Way next' prev' a l b := by
  induction l generalizing a with
  | nil => exact ⟨(forward a (by simp)).trans path.1, (backward b (by simp)).trans path.2⟩
  | cons x l ih =>
    obtain ⟨⟨there, back⟩, rest⟩ := path
    refine ⟨⟨(forward a (by simp)).trans there, (backward x (by simp)).trans back⟩, ?_⟩
    exact ih rest (fun y inside => forward y (by simp [List.mem_cons.mp inside]))
      (fun y inside => backward y (List.mem_cons_of_mem _ inside))

theorem Way.cells_eq [DecidableEq α] {fuel : Nat} (path : Way next prev a l b) (apart : b ∉ l)
    (enough : l.length ≤ fuel) : cells next b fuel (next a) = l := by
  induction l generalizing a fuel with
  | nil =>
    cases fuel with
    | zero => rfl
    | succ fuel => exact if_pos path.1
  | cons x l ih =>
    cases fuel with
    | zero => cases enough
    | succ fuel =>
      have other : x ≠ b := fun same => apart (same ▸ List.mem_cons_self)
      rw [path.1.1, cells, if_neg other]
      congr 1
      exact ih path.2 (fun inside => apart (List.mem_cons_of_mem _ inside)) (Nat.le_of_succ_le_succ enough)

/-- Where a way goes first. -/
theorem Way.next_mem (path : Way next prev a l b) : next a ∈ l ++ [b] ∧ prev (next a) = a := by
  cases l with
  | nil => exact ⟨by simp [path.1], path.1.symm ▸ path.2⟩
  | cons x l => exact ⟨by simp [path.1.1], path.1.1.symm ▸ path.1.2⟩

/-- Where a way comes from last. -/
theorem Way.prev_mem (path : Way next prev a l b) : prev b ∈ a :: l ∧ next (prev b) = b := by
  induction l generalizing a with
  | nil => exact ⟨by simp [path.2], path.2.symm ▸ path.1⟩
  | cons x l ih =>
    obtain ⟨inside, back⟩ := ih path.2
    exact ⟨List.mem_cons_of_mem _ inside, back⟩

/-- A cell is put between the first one and the one behind it. -/
theorem Way.insert (path : Way next prev a l b) (distinct : (a :: l).Nodup) (apart : b ∉ l)
    (fresh : x ∉ a :: l) (there : next' a = x) (back : prev' x = a) (on : next' x = next a)
    (home : prev' (next a) = x) (forward : ∀ y ∈ l, next' y = next y)
    (backward : ∀ y ∈ l ++ [b], y ≠ next a → prev' y = prev y) : Way next' prev' a (x :: l) b := by
  refine ⟨⟨there, back⟩, ?_⟩
  cases l with
  | nil =>
    rw [path.1] at on home
    exact ⟨on, home⟩
  | cons y l =>
    obtain ⟨⟨first, _⟩, rest⟩ := path
    rw [first] at on home backward
    refine ⟨⟨on, home⟩, rest.congr forward fun z inside => backward z (List.mem_cons_of_mem _ inside) ?_⟩
    rintro rfl
    rcases List.mem_append.mp inside with later | last
    · exact (List.nodup_cons.mp (List.nodup_cons.mp distinct).2).1 later
    · exact apart (by simp [List.mem_singleton.mp last])

/-- The cell behind the first one is taken out. -/
theorem Way.remove (path : Way next prev a (x :: l) b) (distinct : (x :: l).Nodup) (apart : b ∉ l)
    (there : next' a = next x) (back : prev' (next x) = a) (forward : ∀ y ∈ l, next' y = next y)
    (backward : ∀ y ∈ l ++ [b], y ≠ next x → prev' y = prev y) : Way next' prev' a l b := by
  obtain ⟨_, path⟩ := path
  cases l with
  | nil =>
    rw [path.1] at there back
    exact ⟨there, back⟩
  | cons y l =>
    obtain ⟨⟨first, _⟩, rest⟩ := path
    rw [first] at there back backward
    refine ⟨⟨there, back⟩, rest.congr forward fun z inside => backward z (List.mem_cons_of_mem _ inside) ?_⟩
    rintro rfl
    rcases List.mem_append.mp inside with later | last
    · exact (List.nodup_cons.mp (List.nodup_cons.mp distinct).2).1 later
    · exact apart (by simp [List.mem_singleton.mp last])

namespace Circuit

theorem nodup (circle : Circuit next prev head l) : l.Nodup := (List.nodup_cons.mp circle.1).2

theorem head_notMem (circle : Circuit next prev head l) : head ∉ l := (List.nodup_cons.mp circle.1).1

theorem congr (circle : Circuit next prev head l) (forward : ∀ y ∈ head :: l, next' y = next y)
    (backward : ∀ y ∈ head :: l, prev' y = prev y) : Circuit next' prev' head l :=
  ⟨circle.1, circle.2.congr forward fun y inside => backward y (by simpa [or_comm] using inside)⟩

theorem next_mem (circle : Circuit next prev head l) (inside : a ∈ head :: l) :
    next a ∈ head :: l ∧ prev (next a) = a := by
  rcases List.mem_cons.mp inside with rfl | inside
  · obtain ⟨there, back⟩ := circle.2.next_mem
    exact ⟨by simpa [or_comm] using there, back⟩
  · obtain ⟨u, v, rfl⟩ := List.append_of_mem inside
    obtain ⟨there, back⟩ := (path_append.mp circle.2).2.next_mem
    refine ⟨?_, back⟩
    simp only [List.mem_append, List.mem_cons] at there ⊢
    tauto

theorem prev_mem (circle : Circuit next prev head l) (inside : a ∈ head :: l) :
    prev a ∈ head :: l ∧ next (prev a) = a := by
  rcases List.mem_cons.mp inside with rfl | inside
  · exact circle.2.prev_mem
  · obtain ⟨u, v, rfl⟩ := List.append_of_mem inside
    obtain ⟨there, back⟩ := (path_append.mp circle.2).1.prev_mem
    refine ⟨?_, back⟩
    simp only [List.mem_append, List.mem_cons] at there ⊢
    tauto

/-- A cell is put in behind the head. -/
theorem insert_first (circle : Circuit next prev head l) (fresh : x ∉ head :: l)
    (there : next' head = x) (back : prev' x = head) (on : next' x = next head)
    (home : prev' (next head) = x) (forward : ∀ y ∈ l, next' y = next y)
    (backward : ∀ y ∈ head :: l, y ≠ next head → prev' y = prev y) :
    Circuit next' prev' head (x :: l) := by
  refine ⟨?_, circle.2.insert circle.1 circle.head_notMem fresh there back on home forward ?_⟩
  · simp only [List.mem_cons, not_or] at fresh
    exact List.nodup_cons.mpr ⟨by simp [Ne.symm fresh.1, circle.head_notMem],
      List.nodup_cons.mpr ⟨fresh.2, circle.nodup⟩⟩
  · intro y inside
    exact backward y (by simpa [or_comm] using inside)

/-- A cell is put in behind another one. -/
theorem insert_after (circle : Circuit next prev head (u ++ p :: v)) (fresh : x ∉ head :: (u ++ p :: v))
    (there : next' p = x) (back : prev' x = p) (on : next' x = next p) (home : prev' (next p) = x)
    (forward : ∀ y ∈ head :: (u ++ p :: v), y ≠ p → next' y = next y)
    (backward : ∀ y ∈ head :: (u ++ p :: v), y ≠ next p → prev' y = prev y) :
    Circuit next' prev' head (u ++ p :: x :: v) := by
  obtain ⟨distinct, path⟩ := circle
  obtain ⟨first, second⟩ := path_append.mp path
  have behind := second.next_mem.1
  have shape : (u ++ p :: v).Nodup := (List.nodup_cons.mp distinct).2
  have alone : head ∉ u ++ p :: v := (List.nodup_cons.mp distinct).1
  have split := List.nodup_append.mp shape
  have pOut := (List.nodup_cons.mp split.2.1).1
  refine ⟨?_, path_append.mpr ⟨first.congr ?_ ?_, second.insert split.2.1 ?_ ?_ there back on home ?_ ?_⟩⟩
  · simp only [List.mem_cons, List.mem_append, not_or] at fresh alone
    simp only [List.nodup_cons, List.nodup_append, List.mem_append, List.mem_cons, not_or] at split ⊢
    grind
  · intro y inside
    refine forward y ?_ ?_
    · simp only [List.mem_cons, List.mem_append] at inside ⊢
      tauto
    · rintro rfl
      rcases List.mem_cons.mp inside with rfl | early
      · exact alone (by simp)
      · exact split.2.2 y early y (by simp) rfl
  · intro y inside
    refine backward y ?_ ?_
    · simp only [List.mem_cons, List.mem_append] at inside ⊢
      tauto
    · rintro rfl
      simp only [List.mem_append, List.mem_singleton] at inside behind
      rcases behind with later | last
      · rcases inside with early | same
        · exact split.2.2 _ early _ (List.mem_cons_of_mem _ later) rfl
        · exact pOut (same ▸ later)
      · rw [last] at inside
        exact alone (by simpa using inside.imp_right fun same => Or.inl same)
  · exact fun inside => alone (by simp [inside])
  · simp only [List.mem_cons, List.mem_append, not_or] at fresh ⊢
    exact ⟨fresh.2.2.1, fresh.2.2.2⟩
  · intro y inside
    refine forward y (by simp [inside]) ?_
    rintro rfl
    exact pOut inside
  · intro y inside
    refine backward y ?_
    simp only [List.mem_cons, List.mem_append] at inside ⊢
    tauto

/-- A cell is taken out. -/
theorem remove (circle : Circuit next prev head (u ++ x :: v))
    (there : next' (prev x) = next x) (back : prev' (next x) = prev x)
    (forward : ∀ y ∈ head :: (u ++ v), y ≠ prev x → next' y = next y)
    (backward : ∀ y ∈ head :: (u ++ v), y ≠ next x → prev' y = prev y) :
    Circuit next' prev' head (u ++ v) := by
  obtain ⟨distinct, path⟩ := circle
  have shape : (u ++ x :: v).Nodup := (List.nodup_cons.mp distinct).2
  have alone : head ∉ u ++ x :: v := (List.nodup_cons.mp distinct).1
  have split := List.nodup_append.mp shape
  have rest : (head :: (u ++ v)).Nodup := by
    refine List.nodup_cons.mpr ⟨fun inside => alone ?_, shape.sublist (by simp)⟩
    simp only [List.mem_append, List.mem_cons] at inside ⊢
    tauto
  refine ⟨rest, ?_⟩
  have headOut : head ∉ v := fun inside => alone (by simp [inside])
  rcases List.eq_nil_or_concat' u with rfl | ⟨u, w, rfl⟩
  · have front : prev x = head := path.1.2
    rw [front] at there back forward
    refine path.remove split.2.1 headOut there back ?_ ?_
    · intro y inside
      refine forward y (by simp [inside]) ?_
      rintro rfl
      exact headOut inside
    · intro y inside
      exact backward y (by simpa [or_comm] using inside)
  · rw [List.append_assoc, List.singleton_append] at path ⊢
    obtain ⟨first, second⟩ := path_append.mp path
    have front : prev x = w := second.1.2
    have behind := second.2.next_mem.1
    rw [front] at there back forward
    have wOut : w ∉ u ∧ w ∉ v ∧ w ≠ head := by
      simp only [List.append_assoc, List.singleton_append, List.nodup_cons, List.nodup_append,
        List.mem_append, List.mem_cons, not_or] at rest
      grind
    have uOut : ∀ y ∈ u, y ∉ v ∧ y ≠ head := by
      simp only [List.append_assoc, List.singleton_append, List.nodup_cons, List.nodup_append,
        List.mem_append, List.mem_cons, not_or] at rest
      grind
    refine path_append.mpr ⟨first.congr ?_ ?_, second.remove split.2.1 headOut there back ?_ ?_⟩
    · intro y inside
      refine forward y ?_ ?_
      · simp only [List.mem_cons, List.mem_append] at inside ⊢
        tauto
      · rintro rfl
        rcases List.mem_cons.mp inside with rfl | early
        · exact wOut.2.2 rfl
        · exact wOut.1 early
    · intro y inside
      refine backward y ?_ ?_
      · simp only [List.mem_cons, List.mem_append] at inside ⊢
        tauto
      · rintro rfl
        simp only [List.mem_append, List.mem_singleton] at inside behind
        rcases inside with early | same
        · exact behind.elim (uOut _ early).1 (uOut _ early).2
        · rw [same] at behind
          exact behind.elim wOut.2.1 wOut.2.2
    · intro y inside
      refine forward y (by simp [inside]) ?_
      rintro rfl
      exact wOut.2.1 inside
    · intro y inside
      refine backward y ?_
      simp only [List.mem_cons, List.mem_append] at inside ⊢
      tauto

end Circuit
end RemoteBoot.Linked
