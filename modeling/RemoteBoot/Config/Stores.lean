import RemoteBoot.Config.FileProofs

/-! Every store of `init_from_file`, by the buffer and the place it goes to. The
column counts characters of a line and the line number counts lines; nothing
compares either with a size. -/
namespace RemoteBoot.Config
open Lines

/-- A store to `temp[index]`, or to a character of the member with that number. -/
inductive Store where
  | temp (index : Nat)
  | member (number offset : Nat)
  deriving DecidableEq, Repr

def Store.InBounds : Store → Prop
  | .temp index => index < strSize
  | .member number offset => number < 5 ∧ offset < strSize

def rootDir : String := "/sdcard/"

/-- `rt_sprintf(temp, "%s%s", ROOT_DIR, path)` with the NUL it ends with. -/
def pathStores (path : String) : List Store :=
  (List.range ((rootDir ++ path).length + 1)).map .temp

/-- What one turn of the read loop stores: a character, or a line and its NUL. -/
def Reader.stores (r : Reader) (ch : UInt8) : List Store :=
  if ch ≠ newline then [.temp r.temp.length]
  else (List.range (r.temp.length + 1)).map (.member r.lineIndex)

/-- The stores of the read loop, up to the turn that is undefined. -/
def Reader.trace (r : Reader) : List UInt8 → List Store
  | [] => []
  | ch :: content => r.stores ch ++
      match r.step ch with
      | some next => next.trace content
      | none => []

def readStores (path : String) (content : List UInt8) (config : ConfigInfo) : List Store :=
  pathStores path ++ Reader.trace ⟨[], 0, config⟩ content

/-- At most five lines that leave room for their NUL, and a rest that fits `temp`. -/
def Fits (content : List UInt8) : Prop :=
  (split newline content).1.length ≤ 5 ∧
    (∀ l ∈ (split newline content).1, l.length < strSize) ∧
    (split newline content).2.length ≤ strSize

namespace Reader

/-- All stores are in bounds. -/
def Safe (stores : List Store) : Prop := ∀ store ∈ stores, store.InBounds

theorem safe_append (first later : List Store) :
    Safe (first ++ later) ↔ Safe first ∧ Safe later :=
  List.forall_mem_append

theorem safe_line (i n : Nat) :
    Safe ((List.range (n + 1)).map (.member i)) ↔ i < 5 ∧ n < strSize := by
  unfold Safe
  simp only [List.forall_mem_map, List.mem_range, Store.InBounds]
  constructor
  · exact fun all => all n (Nat.lt_succ_self n)
  · rintro ⟨number, fits⟩ offset below
    exact ⟨number, Nat.lt_of_le_of_lt (Nat.le_of_lt_succ below) fits⟩

/-- Characters of a line go to `temp` one after the other. -/
theorem trace_chars {r : Reader} {s : List UInt8} (clean : newline ∉ s)
    (filled : r.temp.length ≤ strSize) (cs : List UInt8) :
    Safe (r.trace (s ++ cs)) ↔
      r.temp.length + s.length ≤ strSize ∧ Safe ({ r with temp := r.temp ++ s }.trace cs) := by
  induction s generalizing r with
  | nil => simp [filled]
  | cons ch s ih =>
    simp only [List.mem_cons, not_or] at clean
    have stored : r.stores ch = [.temp r.temp.length] := by rw [stores, if_pos (Ne.symm clean.1)]
    rw [List.cons_append, trace, safe_append, stored]
    by_cases room : r.temp.length < strSize
    · have next : r.step ch = some { r with temp := r.temp ++ [ch] } := by
        rw [step, if_pos (Ne.symm clean.1), if_pos room]
      have width : (r.temp ++ [ch]).length = r.temp.length + 1 := List.length_append
      have tail := ih (r := { r with temp := r.temp ++ [ch] }) clean.2 (by rw [width]; exact room)
      simp only [next, tail, width, List.length_cons, List.append_assoc, List.singleton_append]
      have first : Safe [.temp r.temp.length] := by
        simpa [Safe, Store.InBounds] using room
      rw [and_iff_right first, Nat.add_assoc, Nat.add_comm 1]
    · refine iff_of_false (fun safe => room (safe.1 _ List.mem_cons_self)) (fun fits => ?_)
      have := fits.1
      simp only [List.length_cons] at this
      omega

/-- A complete line is stored inside its member exactly when there is a member
of that number and the line and its NUL fit. -/
theorem trace_line (i : Nat) (c : ConfigInfo) {l : List UInt8} (clean : newline ∉ l) :
    ∃ d, ∀ cs, Safe (trace ⟨[], i, c⟩ (l ++ newline :: cs)) ↔
      (i < 5 ∧ l.length < strSize) ∧ Safe (trace ⟨[], i + 1, d⟩ cs) := by
  have ended : ∀ cs, Safe (trace ⟨[], i, c⟩ (l ++ newline :: cs)) ↔ l.length ≤ strSize ∧
      (i < 5 ∧ l.length < strSize) ∧ Safe (match step ⟨l, i, c⟩ newline with
        | some next => next.trace cs
        | none => []) := by
    intro cs
    rw [trace_chars clean (Nat.zero_le _), trace, safe_append, stores, if_neg (by simp),
      safe_line, List.length_nil, Nat.zero_add, List.nil_append]
  by_cases fits : i < 5 ∧ l.length < strSize
  · obtain ⟨f, rfl⟩ := Field.exists_index fits.1
    obtain ⟨d, stored, _⟩ := c.setString_slot f fits.2
    have next : step ⟨l, f.index, c⟩ newline = some ⟨[], f.index + 1, d⟩ := by
      have stored : c.setString (f.index * strSize) l = some d := stored
      simp [step, stored]
    refine ⟨d, fun cs => ?_⟩
    rw [ended, next, and_iff_right (Nat.le_of_lt fits.2)]
  · exact ⟨c, fun cs => iff_of_false (fun safe => fits ((ended cs).mp safe).2.1)
      (fun safe => fits safe.1)⟩

theorem trace_lines {ls : List (List UInt8)} {rest : List UInt8} (i : Nat) (c : ConfigInfo)
    (few : i ≤ 5) (clean : ∀ l ∈ ls, newline ∉ l) (restClean : newline ∉ rest) :
    Safe (trace ⟨[], i, c⟩ (unlines newline ls ++ rest)) ↔
      i + ls.length ≤ 5 ∧ (∀ l ∈ ls, l.length < strSize) ∧ rest.length ≤ strSize := by
  induction ls generalizing i c with
  | nil =>
    have tail := trace_chars (r := ⟨[], i, c⟩) restClean (Nat.zero_le _) []
    simp only [List.append_nil, List.length_nil, Nat.zero_add] at tail
    rw [unlines, List.flatMap_nil, List.nil_append, tail]
    simp [few, Safe, trace]
  | cons l ls ih =>
    obtain ⟨d, line⟩ := trace_line i c (clean l List.mem_cons_self)
    rw [unlines_cons, List.append_assoc, List.cons_append, line]
    by_cases number : i < 5
    · rw [ih (i + 1) d number (fun m member => clean m (List.mem_cons_of_mem _ member)),
        and_iff_right number, List.forall_mem_cons, List.length_cons, Nat.add_right_comm,
        ← Nat.add_assoc]
      exact and_left_comm.trans (and_congr_right' and_assoc.symm)
    · refine iff_of_false (fun safe => number safe.1.1) (fun fits => ?_)
      have := fits.1
      rw [List.length_cons] at this
      omega

end Reader

/-- No store of a read of `config.txt` leaves its buffer exactly when the file
has at most five lines, each with room for its NUL, and what follows the last
newline fits the line buffer. -/
theorem read_stores_inside_iff (content : List UInt8) (config : ConfigInfo) :
    (∀ store ∈ readStores "config.txt" content config, store.InBounds) ↔ Fits content := by
  obtain ⟨joined, clean, restClean⟩ := split_spec newline content
  have path : Reader.Safe (pathStores "config.txt") := by
    intro store member
    obtain ⟨index, below, rfl⟩ := List.mem_map.mp member
    exact Nat.lt_trans (List.mem_range.mp below) (by decide)
  have loop := Reader.trace_lines 0 config (Nat.zero_le 5) clean restClean
  rw [joined, Nat.zero_add] at loop
  exact (Reader.safe_append _ _).trans ((and_iff_right path).trans loop)

/-- Six empty lines. -/
def sixLines : List UInt8 := List.replicate 6 newline

/-- A line of 101 characters. -/
def longLine : List UInt8 := List.replicate 101 97

theorem read_stores_outside :
    ¬ (∀ store ∈ readStores "config.txt" sixLines .zeroed, store.InBounds) ∧
    ¬ (∀ store ∈ readStores "config.txt" longLine .zeroed, store.InBounds) := by
  constructor
  · intro safe
    exact absurd (safe (.member 5 0) (by decide +kernel)).1 (by decide)
  · intro safe
    exact absurd (safe (.temp 100) (by decide +kernel)) (Nat.lt_irrefl 100)

end RemoteBoot.Config
