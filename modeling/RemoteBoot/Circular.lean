import Mathlib.Data.List.Rotate
import Mathlib.Data.Nat.ModEq

/-! A pool that is read and written in a circle. What it holds is a window that
starts anywhere and goes on at the front where it meets the end. -/
namespace RemoteBoot.Circular
variable {α : Type}

/-- The index behind `i`. -/
def next (size i : Nat) : Nat := if i + 1 ≥ size then 0 else i + 1

def window (pool : List α) (start count : Nat) : List α := (pool.rotate start).take count

theorem next_eq_mod {size i : Nat} (inside : i < size) : next size i = (i + 1) % size := by
  unfold next
  split
  · rename_i last
    rw [(by omega : i + 1 = size), Nat.mod_self]
  · rename_i short
    exact (Nat.mod_eq_of_lt (by omega)).symm

theorem next_lt {size i : Nat} (positive : 0 < size) : next size i < size := by
  unfold next
  split
  · exact positive
  · omega

theorem length_window {pool : List α} {start count : Nat} (fits : count ≤ pool.length) :
    (window pool start count).length = count := by
  rw [window, List.length_take, List.length_rotate, Nat.min_eq_left fits]

@[simp] theorem window_zero (pool : List α) (start : Nat) : window pool start 0 = [] :=
  List.take_zero

theorem getElem?_window {pool : List α} {start count k : Nat} (inside : k < count)
    (fits : count ≤ pool.length) : (window pool start count)[k]? = pool[(k + start) % pool.length]? := by
  rw [window, List.getElem?_take_of_lt inside, List.getElem?_rotate (by omega)]

/-- A store behind the window makes it longer by what was stored. -/
theorem window_set {pool : List α} {start count : Nat} (room : count < pool.length) (value : α) :
    window (pool.set ((start + count) % pool.length) value) start (count + 1) =
      window pool start count ++ [value] := by
  have positive : 0 < pool.length := Nat.zero_lt_of_lt room
  have width : (pool.set ((start + count) % pool.length) value).length = pool.length := List.length_set
  apply List.ext_getElem?
  intro k
  rcases Nat.lt_trichotomy k count with before | rfl | behind
  · rw [getElem?_window (by omega) (by omega), width, List.getElem?_append_left
      (by rw [length_window (by omega)]; exact before), getElem?_window before (by omega)]
    refine List.getElem?_set_ne ?_
    intro same
    have turned : (k + start) % pool.length = (count + start) % pool.length := by
      rw [← same, Nat.add_comm]
    have := (Nat.ModEq.add_right_cancel' start turned)
    rw [Nat.ModEq, Nat.mod_eq_of_lt (by omega), Nat.mod_eq_of_lt room] at this
    omega
  · rw [getElem?_window (by omega) (by omega), width, Nat.add_comm k start,
      List.getElem?_set_self (Nat.mod_lt _ positive)]
    rw [List.getElem?_append_right (by rw [length_window (by omega)]), length_window (by omega),
      Nat.sub_self]
    rfl
  · rw [List.getElem?_eq_none (by rw [length_window (by omega)]; omega), List.getElem?_eq_none]
    rw [List.length_append, length_window (by omega), List.length_singleton]
    omega

/-- The window without its first cell. -/
theorem window_cons {pool : List α} {start count : Nat} (inside : start < pool.length)
    (fits : count + 1 ≤ pool.length) :
    ∃ value, pool[start]? = some value ∧
      window pool start (count + 1) = value :: window pool ((start + 1) % pool.length) count := by
  obtain ⟨value, first⟩ : ∃ value, pool[start]? = some value :=
    ⟨_, List.getElem?_eq_getElem inside⟩
  refine ⟨value, first, ?_⟩
  apply List.ext_getElem?
  intro k
  cases k with
  | zero =>
    rw [getElem?_window (by omega) fits, Nat.zero_add, Nat.mod_eq_of_lt inside, first]
    rfl
  | succ k =>
    rw [List.getElem?_cons_succ]
    by_cases short : k < count
    · rw [getElem?_window (by omega) fits, getElem?_window short (by omega), Nat.add_mod_mod]
      congr 2
      omega
    · rw [List.getElem?_eq_none (by rw [length_window fits]; omega),
        List.getElem?_eq_none (by rw [length_window (by omega)]; omega)]

end RemoteBoot.Circular
