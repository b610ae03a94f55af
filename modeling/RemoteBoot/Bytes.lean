import Mathlib.Data.List.TakeWhile

/-! Byte buffers as C code uses them: stores into a range of a buffer, fixed
slots, and strings that end at the first NUL. Offsets are plain numbers; the
in-range premises are the obligations of the code that stores. -/
namespace RemoteBoot.Bytes
variable {α : Type}

/-- The buffer after `data` was stored from offset `off` on. -/
def splice (buf : List α) (off : Nat) (data : List α) : List α :=
  buf.take off ++ data ++ buf.drop (off + data.length)

/-- The `n` cells from offset `off` on. -/
def slot (buf : List α) (off n : Nat) : List α := (buf.drop off).take n

theorem length_splice {buf data : List α} {off : Nat} (fits : off + data.length ≤ buf.length) :
    (splice buf off data).length = buf.length := by
  simp only [splice, List.length_append, List.length_take, List.length_drop]
  omega

theorem splice_splice {buf a b : List α} {off : Nat} (fits : off ≤ buf.length) :
    splice (splice buf off a) (off + a.length) b = splice buf off (a ++ b) := by
  have head : (buf.take off ++ a).length = off + a.length := by
    simp only [List.length_append, List.length_take]
    omega
  have kept : (splice buf off a).take (off + a.length) = buf.take off ++ a :=
    List.take_left' head
  have rest : (splice buf off a).drop (off + a.length + b.length) =
      buf.drop (off + (a ++ b).length) := by
    rw [← List.drop_drop, splice, List.drop_left' head, List.drop_drop, List.length_append,
      Nat.add_assoc]
  rw [splice, kept, rest]
  simp only [splice, List.append_assoc]

theorem drop_splice {buf data : List α} {off : Nat} (fits : off ≤ buf.length) :
    (splice buf off data).drop off = data ++ buf.drop (off + data.length) := by
  have head : (buf.take off).length = off := by
    rw [List.length_take]
    omega
  rw [splice, List.append_assoc, List.drop_left' head]

theorem take_splice {buf data : List α} {off : Nat} (fits : off ≤ buf.length) :
    (splice buf off data).take (off + data.length) = buf.take off ++ data := by
  have head : (buf.take off ++ data).length = off + data.length := by
    rw [List.length_append, List.length_take, Nat.min_eq_left fits]
  rw [splice, List.take_left' head]

theorem drop_splice_after {buf data : List α} {off : Nat} (fits : off ≤ buf.length)
    (after : off + data.length ≤ i) : (splice buf off data).drop i = buf.drop i := by
  obtain ⟨k, rfl⟩ := Nat.le.dest after
  rw [← List.drop_drop, ← List.drop_drop, ← List.drop_drop, drop_splice fits, List.drop_left' rfl]

theorem drop_splice_before {buf data : List α} {off : Nat} (fits : off ≤ buf.length)
    (before : i ≤ off) : (splice buf off data).drop i =
      slot buf i (off - i) ++ (data ++ buf.drop (off + data.length)) := by
  rw [splice, List.append_assoc, List.drop_append_of_le_length (by rw [List.length_take]; omega),
    List.drop_take]
  rfl

theorem getElem?_splice_outside {buf data : List α} {off : Nat} (fits : off ≤ buf.length)
    (outside : i < off ∨ off + data.length ≤ i) : (splice buf off data)[i]? = buf[i]? := by
  have head : (buf.take off).length = off := by
    rw [List.length_take]
    omega
  rcases outside with before | after
  · rw [splice, List.append_assoc, List.getElem?_append_left (by omega)]
    exact List.getElem?_take_of_lt before
  · rw [splice, List.getElem?_append_right (by simp only [List.length_append]; omega),
      List.getElem?_drop, List.length_append, head]
    congr 1
    omega

theorem getElem?_slot (buf : List α) (off n i : Nat) :
    (slot buf off n)[i]? = if i < n then buf[off + i]? else none := by
  rw [slot, List.getElem?_take]
  split
  · rw [List.getElem?_drop]
  · rfl

theorem slot_splice_outside {buf data : List α} {off : Nat} (fits : off ≤ buf.length)
    (outside : start + n ≤ off ∨ off + data.length ≤ start) :
    slot (splice buf off data) start n = slot buf start n := by
  apply List.ext_getElem?
  intro i
  rw [getElem?_slot, getElem?_slot]
  split
  · exact getElem?_splice_outside fits (by omega)
  · rfl

theorem drop_cons {buf : List α} (found : buf[i]? = some a) :
    buf.drop i = a :: buf.drop (i + 1) := by
  obtain ⟨inside, rfl⟩ := List.getElem?_eq_some_iff.mp found
  exact List.drop_eq_getElem_cons inside

/-- Equally wide blocks laid end to end: block `i` starts at `i * n`. -/
theorem drop_flatten {blocks : List (List α)} (width : ∀ b ∈ blocks, b.length = n)
    (found : blocks[i]? = some b) :
    blocks.flatten.drop (i * n) = b ++ (blocks.drop (i + 1)).flatten := by
  induction blocks generalizing i with
  | nil => simp at found
  | cons first blocks ih =>
    cases i with
    | zero =>
      obtain rfl : first = b := by simpa using found
      simp
    | succ i =>
      have tail := ih (fun b member => width b (List.mem_cons_of_mem _ member))
        (by simpa using found)
      rw [List.flatten_cons, Nat.succ_mul, Nat.add_comm, ← List.drop_drop,
        List.drop_left' (width first List.mem_cons_self), tail, List.drop_succ_cons]

/-- `data` stands in the buffer from offset `off` on. -/
def Stands (buf : List α) (off : Nat) (data : List α) : Prop := data <+: buf.drop off

theorem Stands.whole (a rest : List α) : Stands (a ++ rest) 0 a := List.prefix_append a rest

theorem Stands.append {buf a b : List α} :
    Stands buf off (a ++ b) ↔ Stands buf off a ∧ Stands buf (off + a.length) b := by
  unfold Stands
  constructor
  · rintro ⟨rest, joined⟩
    rw [List.append_assoc] at joined
    refine ⟨⟨b ++ rest, joined⟩, ⟨rest, ?_⟩⟩
    rw [← List.drop_drop, ← joined, List.drop_left]
  · rintro ⟨⟨rest, joined⟩, ⟨rest', joined'⟩⟩
    refine ⟨rest', ?_⟩
    rw [← List.drop_drop, ← joined, List.drop_left] at joined'
    rw [List.append_assoc, joined', joined]

theorem Stands.cons {buf rest : List α} {a : α} :
    Stands buf off (a :: rest) ↔ buf[off]? = some a ∧ Stands buf (off + 1) rest := by
  have one : Stands buf off [a] ↔ buf[off]? = some a := by
    unfold Stands
    cases cells : buf.drop off with
    | nil =>
      have past := List.drop_eq_nil_iff.mp cells
      simp only [List.prefix_nil, List.cons_ne_self, List.getElem?_eq_none past, reduceCtorEq]
    | cons b tail =>
      have head := congrArg List.head? cells
      rw [List.head?_drop, List.head?_cons] at head
      rw [List.singleton_prefix_cons_iff, head, Option.some.injEq, eq_comm]
  rw [← List.singleton_append, append, one, List.length_singleton]

theorem Stands.slot_eq {buf data : List α} (stands : Stands buf off data) : slot buf off data.length = data := by
  obtain ⟨rest, joined⟩ := stands
  rw [slot, ← joined, List.take_left]

/-- The bytes of an ASCII literal. -/
def ascii (s : String) : List UInt8 := s.toList.map fun c => UInt8.ofNat c.toNat

/-- The C string at the head of a buffer: its bytes before the first NUL. -/
def cstring (buf : List UInt8) : List UInt8 := buf.takeWhile (· != 0)

theorem cstring_cons {b : UInt8} (visible : b ≠ 0) (rest : List UInt8) :
    cstring (b :: rest) = b :: cstring rest := by
  simp [cstring, visible]

theorem cstring_of_not_mem {s : List UInt8} (noNul : 0 ∉ s) : cstring s = s := by
  have inside : ∀ b ∈ s, (b != 0) = true := by
    intro b member
    simpa using fun same : b = 0 => noNul (same ▸ member)
  rw [cstring, List.takeWhile_eq_self_iff]
  exact inside

/-- Nothing behind a NUL is read. -/
theorem cstring_append_zero (s rest : List UInt8) : cstring (s ++ 0 :: rest) = cstring s := by
  induction s with
  | nil => simp [cstring]
  | cons b s ih =>
    by_cases nul : b = 0
    · simp [cstring, nul]
    · rw [List.cons_append, cstring_cons nul, cstring_cons nul, ih]

theorem cstring_append_nul {s : List UInt8} (noNul : 0 ∉ s) (rest : List UInt8) :
    cstring (s ++ 0 :: rest) = s := by
  rw [cstring_append_zero, cstring_of_not_mem noNul]

theorem cstring_head {b c : UInt8} {rest : List UInt8} (head : c ∈ (cstring (b :: rest)).head?) :
    c = b := by
  by_cases nul : b = 0
  · simp [cstring, nul] at head
  · rw [cstring_cons nul] at head
    simpa using head.symm

theorem length_cstring_le (buf : List UInt8) : (cstring buf).length ≤ buf.length :=
  (List.takeWhile_prefix _).length_le

theorem not_mem_cstring (buf : List UInt8) : 0 ∉ cstring buf := by
  intro member
  have := List.mem_takeWhile_imp member
  simp at this

theorem cstring_split {buf : List UInt8} (ends : (cstring buf).length < buf.length) :
    ∃ rest, buf = cstring buf ++ 0 :: rest := by
  induction buf with
  | nil => simp at ends
  | cons b buf ih =>
    by_cases nul : b = 0
    · exact ⟨buf, by simp [cstring, nul]⟩
    · rw [cstring_cons nul] at ends ⊢
      obtain ⟨rest, same⟩ := ih (Nat.lt_of_succ_lt_succ ends)
      exact ⟨rest, congrArg (b :: ·) same⟩

theorem getElem?_cstring {buf : List UInt8} (inside : k < (cstring buf).length) :
    (cstring buf)[k]? = buf[k]? := by
  obtain ⟨rest, joined⟩ := List.takeWhile_prefix (l := buf) (· != 0)
  have cell : (cstring buf ++ rest)[k]? = (cstring buf)[k]? := List.getElem?_append_left inside
  rw [← cell, cstring, joined]

theorem getElem?_nul {buf : List UInt8} (ends : (cstring buf).length < buf.length) :
    buf[(cstring buf).length]? = some 0 := by
  obtain ⟨rest, same⟩ := cstring_split ends
  have cell : (cstring buf ++ 0 :: rest)[(cstring buf).length]? = some 0 := by simp
  rwa [← same] at cell

theorem take_cstring (buf : List UInt8) (n : Nat) :
    (cstring buf).take n = cstring (buf.take n) := by
  induction buf generalizing n with
  | nil => simp [cstring]
  | cons b buf ih =>
    cases n with
    | zero => simp [cstring]
    | succ n =>
      by_cases nul : b = 0
      · simp [cstring, nul]
      · have next := ih n
        simp only [cstring] at next
        simp [cstring, nul, next]

theorem cstring_congr {a b : List UInt8} (same : a.take n = b.take n)
    (short : (cstring a).length < n) : cstring b = cstring a := by
  have agree : (cstring b).take n = cstring a := by
    rw [take_cstring, ← same, ← take_cstring, List.take_of_length_le (by omega)]
  have bounded : (cstring b).length < n := by
    have := congrArg List.length agree
    rw [List.length_take] at this
    omega
  rw [← agree, List.take_of_length_le (by omega)]

/-- What precedes a NUL, and that there is none, decides a string that goes on. -/
theorem cstring_append_congr {a a' b b' : List UInt8} (width : a.length = a'.length)
    (head : cstring a = cstring a') (tail : cstring b = cstring b') :
    cstring (a ++ b) = cstring (a' ++ b') := by
  have whole : ∀ {x : List UInt8}, ¬ (cstring x).length < x.length → cstring x = x := fun full =>
    (List.takeWhile_prefix _).eq_of_length_le (Nat.le_of_not_lt full)
  have tails : ∀ x y : List UInt8, 0 ∉ x → cstring (x ++ y) = x ++ cstring y := by
    intro x y clean
    rw [cstring, List.takeWhile_append_of_pos]
    · rfl
    · intro c member
      simpa using fun same : c = 0 => clean (same ▸ member)
  by_cases ends : (cstring a).length < a.length
  · obtain ⟨rest, same⟩ := cstring_split ends
    obtain ⟨rest', same'⟩ := cstring_split (head ▸ width ▸ ends)
    rw [same, same', List.append_assoc, List.append_assoc, List.cons_append, List.cons_append,
      cstring_append_zero, cstring_append_zero, head]
  · have ends' : ¬ (cstring a').length < a'.length := head ▸ width ▸ ends
    obtain rfl : a = a' := (whole ends).symm.trans (head.trans (whole ends'))
    have clean : 0 ∉ a := whole ends ▸ not_mem_cstring a
    rw [tails a b clean, tails a b' clean, tail]

end RemoteBoot.Bytes
