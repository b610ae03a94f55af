import Mathlib.Data.List.DropRight
import RemoteBoot.Transition
import RemoteBoot.Kernel.RingBuffer

/-! The other operations of `ringbuffer.c`, and what the buffer is to its callers:
a queue of bytes of a fixed capacity. A forced block that spills over a buffer
that does not wrap yet is the exception, it empties the buffer. -/
namespace RemoteBoot.Kernel
open Bytes Transition

namespace RingBuffer
variable {bufferSize : Nat}

theorem positive (rb : RingBuffer bufferSize) : 0 < bufferSize := Nat.zero_lt_of_lt rb.readInside

theorem take_fits (rb : RingBuffer bufferSize) (ptr : List UInt8) :
    (ptr.take rb.spaceLen).length ≤ bufferSize := by
  rw [List.length_take, spaceLen]
  omega

theorem restart_inside (rb : RingBuffer bufferSize) (full : Bool) :
    (if full then 0 else rb.readIndex) < bufferSize := by
  split
  · exact rb.positive
  · exact rb.readInside

/-- `rt_ringbuffer_put`. The copies are those of `rt_ringbuffer_put_force`, with no
more data than there is room for. -/
def put (rb : RingBuffer bufferSize) (ptr : List UInt8) : Nat × RingBuffer bufferSize :=
  if rb.spaceLen = 0 then (0, rb)
  else
    let data := ptr.take rb.spaceLen
    (data.length, rb.overwrite data (rb.take_fits ptr))

/-- `rt_ringbuffer_get` from where `length` is at most what there is. -/
def consume (rb : RingBuffer bufferSize) (length : Nat) (there : length ≤ rb.dataLen) :
    List UInt8 × RingBuffer bufferSize :=
  if inside : bufferSize - rb.readIndex > length then
    (slot rb.bufferPtr rb.readIndex length, { rb with
      readIndex := rb.readIndex + length
      readInside := by omega
      sameSide := fun same => by
        have := rb.dataLen_same same
        have := rb.sameSide same
        omega
      otherSide := fun other => Nat.le_add_right_of_le (rb.otherSide other) })
  else
    (rb.bufferPtr.drop rb.readIndex ++ rb.bufferPtr.take (length - (bufferSize - rb.readIndex)), { rb with
      readMirror := !rb.readMirror
      readIndex := length - (bufferSize - rb.readIndex)
      readInside := by
        have := rb.readInside
        have := rb.writeInside
        by_cases same : rb.readMirror = rb.writeMirror
        · have := rb.dataLen_same same
          omega
        · have := rb.dataLen_other same
          have := rb.otherSide same
          omega
      sameSide := fun turned => by
        have other : rb.readMirror ≠ rb.writeMirror := Bool.not_eq.mp turned
        have := rb.dataLen_other other
        have := rb.otherSide other
        have := rb.readInside
        omega
      otherSide := fun turned => by
        have same : rb.readMirror = rb.writeMirror := Bool.not_not_eq.mp turned
        have := rb.dataLen_same same
        have := rb.sameSide same
        have := rb.writeInside
        omega })

/-- `rt_ringbuffer_get`: what it copies out. -/
def get (rb : RingBuffer bufferSize) (length : Nat) : List UInt8 × RingBuffer bufferSize :=
  if rb.dataLen = 0 then ([], rb)
  else rb.consume (min rb.dataLen length) (Nat.min_le_left _ _)

/-- `rt_ringbuffer_putchar` -/
def putchar (rb : RingBuffer bufferSize) (ch : UInt8) : Nat × RingBuffer bufferSize :=
  if full : rb.spaceLen = 0 then (0, rb)
  else if last : rb.writeIndex = bufferSize - 1 then
    (1, { rb with
      bufferPtr := rb.bufferPtr.set rb.writeIndex ch
      writeMirror := !rb.writeMirror
      writeIndex := 0
      width := by rw [List.length_set, rb.width]
      writeInside := rb.positive
      sameSide := fun turned => by
        have other : rb.readMirror ≠ rb.writeMirror := Bool.eq_not.mp turned
        have := rb.spaceLen_other other
        have := rb.readInside
        omega
      otherSide := fun _ => Nat.zero_le _ })
  else
    (1, { rb with
      bufferPtr := rb.bufferPtr.set rb.writeIndex ch
      writeIndex := rb.writeIndex + 1
      width := by rw [List.length_set, rb.width]
      writeInside := by
        have := rb.writeInside
        omega
      sameSide := fun same => Nat.le_succ_of_le (rb.sameSide same)
      otherSide := fun other => by
        have := rb.spaceLen_other other
        omega })

section
variable (rb : RingBuffer bufferSize)

/-- Where the last character of the pool is written and the buffer is not full, the data
begins at the start of the pool or not at all. -/
theorem force_turned (last : rb.writeIndex = bufferSize - 1)
    (turned : (if decide (rb.status = .full) then !rb.readMirror else rb.readMirror) = !rb.writeMirror) :
    (if decide (rb.status = .full) then 0 else rb.readIndex) ≤ 0 := by
  split
  · exact Nat.le_refl 0
  · rename_i room
    rw [if_neg room] at turned
    have other : rb.readMirror ≠ rb.writeMirror := Bool.eq_not.mp turned
    have := rb.otherSide other
    have := rb.readInside
    by_cases met : rb.readIndex = rb.writeIndex
    · exact absurd (decide_eq_true (by rw [status, if_pos met, if_neg other])) room
    · omega

theorem force_inside (inner : ¬ rb.writeIndex = bufferSize - 1) :
    (if decide (rb.status = .full) then rb.writeIndex + 1 else rb.readIndex) < bufferSize := by
  have := rb.readInside
  have := rb.writeInside
  split <;> omega

theorem force_same (same : rb.readMirror = rb.writeMirror) :
    (if decide (rb.status = .full) then rb.writeIndex + 1 else rb.readIndex) ≤ rb.writeIndex + 1 := by
  have := rb.sameSide same
  split <;> omega

theorem force_other (other : rb.readMirror ≠ rb.writeMirror) :
    rb.writeIndex + 1 ≤ if decide (rb.status = .full) then rb.writeIndex + 1 else rb.readIndex := by
  split
  · exact Nat.le_refl _
  · rename_i room
    have := rb.otherSide other
    have apart : rb.readIndex ≠ rb.writeIndex := fun met =>
      room (decide_eq_true (by rw [status, if_pos met, if_neg other]))
    omega

end

/-- `rt_ringbuffer_putchar_force` -/
def putcharForce (rb : RingBuffer bufferSize) (ch : UInt8) : RingBuffer bufferSize :=
  let full := decide (rb.status = .full)
  if last : rb.writeIndex = bufferSize - 1 then
    { rb with
      bufferPtr := rb.bufferPtr.set rb.writeIndex ch
      writeMirror := !rb.writeMirror
      writeIndex := 0
      readMirror := if full then !rb.readMirror else rb.readMirror
      readIndex := if full then 0 else rb.readIndex
      width := by rw [List.length_set, rb.width]
      readInside := rb.restart_inside full
      writeInside := rb.positive
      sameSide := rb.force_turned last
      otherSide := fun _ => Nat.zero_le _ }
  else
    { rb with
      bufferPtr := rb.bufferPtr.set rb.writeIndex ch
      writeIndex := rb.writeIndex + 1
      readIndex := if full then rb.writeIndex + 1 else rb.readIndex
      width := by rw [List.length_set, rb.width]
      readInside := rb.force_inside last
      writeInside := by
        have := rb.writeInside
        omega
      sameSide := rb.force_same
      otherSide := rb.force_other }

/-- `rt_ringbuffer_reset` -/
def reset (rb : RingBuffer bufferSize) : RingBuffer bufferSize :=
  init rb.bufferPtr rb.width rb.positive

theorem held_reset (rb : RingBuffer bufferSize) : rb.reset.held = [] := rfl

theorem spaceLen_eq (rb : RingBuffer bufferSize) : rb.spaceLen = bufferSize - rb.held.length := by
  rw [spaceLen, length_held]

theorem put_held (rb : RingBuffer bufferSize) (ptr : List UInt8) :
    (rb.put ptr).1 = min rb.spaceLen ptr.length ∧
      (rb.put ptr).2.held = rb.held ++ ptr.take rb.spaceLen := by
  unfold put
  by_cases full : rb.spaceLen = 0
  · rw [if_pos full, full, Nat.zero_min, List.take_zero, List.append_nil]
    exact ⟨rfl, rfl⟩
  · rw [if_neg full]
    refine ⟨List.length_take, ?_⟩
    have room : (ptr.take rb.spaceLen).length ≤ rb.spaceLen := by
      rw [List.length_take]
      exact Nat.min_le_left _ _
    have fits : ¬ (ptr.take rb.spaceLen).length > bufferSize := by
      have : rb.spaceLen ≤ bufferSize := Nat.sub_le _ _
      omega
    have stored := rb.putForce_room room
    rwa [putForce, dif_neg fits] at stored

/-- What is copied out are the oldest bytes. -/
theorem consume_held (rb : RingBuffer bufferSize) {length : Nat} (there : length ≤ rb.dataLen) :
    (rb.consume length there).1 = rb.held.take length ∧
      (rb.consume length there).2.held = rb.held.drop length := by
  have width := rb.width
  have inside := rb.readInside
  unfold consume
  by_cases same : rb.readMirror = rb.writeMirror
  · have data := rb.dataLen_same same
    have := rb.writeInside
    have short : bufferSize - rb.readIndex > length := by omega
    rw [dif_pos short]
    simp only [held, if_pos same]
    constructor
    · rw [slot, slot, List.take_take, Nat.min_eq_left (by omega)]
    · rw [slot, slot, List.drop_take, List.drop_drop, Nat.sub_sub]
  · have data := rb.dataLen_other same
    have order := rb.otherSide same
    have tail : (rb.bufferPtr.drop rb.readIndex).length = bufferSize - rb.readIndex := by
      rw [List.length_drop, width]
    by_cases short : bufferSize - rb.readIndex > length
    · rw [dif_pos short]
      simp only [held, if_neg same]
      constructor
      · rw [List.take_append_of_le_length (by omega)]
        rfl
      · rw [List.drop_append_of_le_length (by omega), List.drop_drop]
    · rw [dif_neg short]
      have turned : (!rb.readMirror) = rb.writeMirror := Bool.not_eq.mpr same
      simp only [held, if_neg same, if_pos turned]
      constructor
      · rw [List.take_append, tail, List.take_of_length_le (by omega : _ ≤ length), List.take_take,
          Nat.min_eq_left (by omega)]
      · rw [List.drop_append, tail, List.drop_of_length_le (by omega : _ ≤ length), List.nil_append, slot,
          List.drop_take]

theorem get_held (rb : RingBuffer bufferSize) (length : Nat) :
    (rb.get length).1 = rb.held.take length ∧ (rb.get length).2.held = rb.held.drop length := by
  have all := rb.length_held
  unfold get
  by_cases empty : rb.dataLen = 0
  · have nothing : rb.held = [] := List.eq_nil_of_length_eq_zero (by omega)
    simp only [if_pos empty, nothing, List.take_nil, List.drop_nil, and_self]
  · rw [if_neg empty, (rb.consume_held _).1, (rb.consume_held _).2, ← all, Nat.min_comm]
    exact ⟨List.take_eq_take_min.symm, List.drop_eq_drop_min.symm⟩

/-- What a buffer keeps of more bytes than it can hold. -/
theorem rtake_append {old new : List UInt8} {n : Nat} (long : new.length ≤ n) (enough : n ≤ old.length + new.length) :
    (old ++ new).rtake n = old.drop (old.length + new.length - n) ++ new := by
  rw [List.rtake, List.length_append, List.drop_append_of_le_length (by omega)]

/-- A forced block that there is no room for takes the place of the oldest bytes,
if the data wraps round the end of the pool. If it does not the buffer counts as
empty afterwards. -/
theorem overwrite_spills (rb : RingBuffer bufferSize) {data : List UInt8} (fits : data.length ≤ bufferSize)
    (spills : data.length > rb.spaceLen) : (rb.overwrite data fits).held =
      if rb.readMirror = rb.writeMirror then [] else (rb.held ++ data).rtake bufferSize := by
  have width := rb.width
  have inside := rb.writeInside
  have behind : rb.writeIndex ≤ rb.bufferPtr.length := by omega
  unfold overwrite
  by_cases same : rb.readMirror = rb.writeMirror
  · have space := rb.spaceLen_same same
    have order := rb.sameSide same
    have wraps : ¬ bufferSize - rb.writeIndex > data.length := by omega
    rw [dif_neg wraps, if_pos same]
    simp only [held, if_pos spills, same]
    rw [if_pos trivial, Nat.sub_self]
    exact List.take_zero
  · have space := rb.spaceLen_other same
    have order := rb.otherSide same
    have := rb.readInside
    have count := rb.length_held
    rw [rb.dataLen_other same] at count
    rw [if_neg same, rtake_append fits (by omega)]
    by_cases short : bufferSize - rb.writeIndex > data.length
    · rw [dif_pos short]
      simp only [held, if_neg same, if_pos spills] at count ⊢
      rw [drop_splice_after behind (Nat.le_refl _), take_splice behind, count,
        List.drop_append_of_le_length (by rw [List.length_drop]; omega), List.drop_drop, List.append_assoc]
      congr 2
      omega
    · rw [dif_neg short]
      have turned : ¬ (!rb.readMirror) = !rb.writeMirror := fun equal => same (Bool.not_inj equal)
      have first : (data.take (bufferSize - rb.writeIndex)).length = bufferSize - rb.writeIndex := by
        rw [List.length_take]
        omega
      have rest : (data.drop (bufferSize - rb.writeIndex)).length =
          data.length - (bufferSize - rb.writeIndex) := List.length_drop
      have past : rb.bufferPtr.length ≤
          rb.writeIndex + (data.take (bufferSize - rb.writeIndex)).length := by omega
      have head : ∀ pool : List UInt8, (splice pool 0 (data.drop (bufferSize - rb.writeIndex))).take
          (data.length - (bufferSize - rb.writeIndex)) = data.drop (bufferSize - rb.writeIndex) := by
        intro pool
        rw [← rest, ← Nat.zero_add (List.length _), take_splice (Nat.zero_le _), List.take_zero,
          List.nil_append]
      simp only [held, if_neg same, if_pos spills, if_neg turned] at count ⊢
      rw [drop_splice_after (Nat.zero_le _) (by omega), head, drop_splice_before behind (by omega),
        List.drop_of_length_le past, List.append_nil, List.append_assoc, List.take_append_drop, count,
        List.drop_append, List.drop_drop, List.drop_of_length_le (by omega : rb.bufferPtr.length ≤ _),
        List.nil_append, List.length_drop, slot, ← List.drop_take]
      congr 2
      omega

/-- `rt_ringbuffer_put_force` for every buffer and every block. -/
theorem putForce_held (rb : RingBuffer bufferSize) (ptr : List UInt8) :
    (rb.putForce ptr).held =
      if rb.spaceLen < min ptr.length bufferSize ∧ rb.readMirror = rb.writeMirror then []
      else (rb.held ++ ptr).rtake bufferSize := by
  have count := rb.spaceLen_eq
  have bound := rb.length_held_le
  by_cases room : ptr.length ≤ rb.spaceLen
  · have fits : ¬ (rb.spaceLen < min ptr.length bufferSize ∧ rb.readMirror = rb.writeMirror) := by omega
    rw [if_neg fits, rb.putForce_room room, List.rtake, List.length_append, Nat.sub_eq_zero_of_le (by omega),
      List.drop_zero]
  · unfold putForce
    by_cases long : ptr.length > bufferSize
    · rw [dif_pos long]
      have kept : (ptr.drop (ptr.length - bufferSize)).length = bufferSize := by
        rw [List.length_drop]
        omega
      by_cases full : rb.spaceLen = bufferSize
      · -- An empty buffer takes the end of the block.
        have exact_room : (ptr.drop (ptr.length - bufferSize)).length ≤ rb.spaceLen := by omega
        have nothing : rb.held = [] := List.eq_nil_of_length_eq_zero (by omega)
        have stored := rb.putForce_room exact_room
        rw [putForce, dif_neg (by omega)] at stored
        rw [stored, if_neg (by omega), nothing, List.nil_append, List.nil_append, List.rtake]
      · rw [rb.overwrite_spills (by omega) (by omega)]
        have spill : rb.spaceLen < min ptr.length bufferSize := by omega
        simp only [spill, true_and]
        split
        · rfl
        · rw [rtake_append (by omega) (by omega), kept, List.drop_of_length_le (by omega), List.nil_append,
            List.rtake, List.length_append, List.drop_append,
            List.drop_of_length_le (by omega : rb.held.length ≤ _), List.nil_append]
          congr 1
          omega
    · rw [dif_neg long, rb.overwrite_spills (by omega) (by omega)]
      have spill : rb.spaceLen < min ptr.length bufferSize := by omega
      simp only [spill, true_and]

theorem set_eq_splice {pool : List UInt8} {i : Nat} (inside : i < pool.length) (ch : UInt8) :
    pool.set i ch = splice pool i [ch] := by
  rw [List.set_eq_take_append_cons_drop, if_pos inside, splice, List.append_assoc]
  rfl

/-- A character is a block of one. -/
theorem putchar_eq_put (rb : RingBuffer bufferSize) (ch : UInt8) : rb.putchar ch = rb.put [ch] := by
  have width := rb.width
  have inside := rb.writeInside
  have stored := set_eq_splice (by omega : rb.writeIndex < rb.bufferPtr.length) ch
  unfold putchar put
  by_cases full : rb.spaceLen = 0
  · rw [dif_pos full, if_pos full]
  · rw [dif_neg full, if_neg full]
    have whole : [ch].take rb.spaceLen = [ch] := List.take_of_length_le (by rw [List.length_singleton]; omega)
    have keeps : ¬ 1 > rb.spaceLen := by omega
    by_cases last : rb.writeIndex = bufferSize - 1
    · have one : bufferSize - rb.writeIndex = 1 := by omega
      rw [dif_pos last]
      simp [overwrite, whole, one, keeps, stored, splice]
    · have short : bufferSize - rb.writeIndex > 1 := by omega
      rw [dif_neg last]
      simp [overwrite, whole, short, keeps, stored]

theorem spaceLen_zero_iff (rb : RingBuffer bufferSize) : rb.spaceLen = 0 ↔ rb.status = .full := by
  have := rb.writeInside
  have := rb.readInside
  unfold spaceLen dataLen
  by_cases met : rb.readIndex = rb.writeIndex
  · by_cases same : rb.readMirror = rb.writeMirror
    · simp only [status, if_pos met, if_pos same, reduceCtorEq, iff_false]
      omega
    · simp only [status, if_pos met, if_neg same, Nat.sub_self]
  · simp only [status, if_neg met, reduceCtorEq, iff_false]
    split <;> omega

/-- A forced character is a forced block of one. -/
theorem putcharForce_eq_putForce (rb : RingBuffer bufferSize) (ch : UInt8) :
    rb.putcharForce ch = rb.putForce [ch] := by
  have width := rb.width
  have inside := rb.writeInside
  have stored := set_eq_splice (by omega : rb.writeIndex < rb.bufferPtr.length) ch
  have fits : ¬ [ch].length > bufferSize := by
    rw [List.length_singleton]
    omega
  have spills : (1 > rb.spaceLen) = (rb.status = .full) := by
    rw [← rb.spaceLen_zero_iff]
    exact propext Nat.lt_one_iff
  unfold putForce putcharForce
  rw [dif_neg fits]
  by_cases last : rb.writeIndex = bufferSize - 1
  · have one : bufferSize - rb.writeIndex = 1 := by omega
    rw [dif_pos last]
    simp [overwrite, one, spills, stored, splice]
  · have short : bufferSize - rb.writeIndex > 1 := by omega
    rw [dif_neg last]
    simp [overwrite, short, spills, stored]

/-- What a caller does to the buffer. -/
inductive Access where
  | put (ptr : List UInt8)
  | putForce (ptr : List UInt8)
  | putchar (ch : UInt8)
  | putcharForce (ch : UInt8)
  | get (length : Nat)
  | getchar
  | reset

/-- The buffer, and what has been read from it so far. -/
def access (s : RingBuffer bufferSize × List UInt8) : Access → RingBuffer bufferSize × List UInt8
  | .put ptr => ((s.1.put ptr).2, s.2)
  | .putForce ptr => (s.1.putForce ptr, s.2)
  | .putchar ch => ((s.1.putchar ch).2, s.2)
  | .putcharForce ch => (s.1.putcharForce ch, s.2)
  | .get length => ((s.1.get length).2, s.2 ++ (s.1.get length).1)
  | .getchar =>
    let (count, ch, rb) := s.1.getchar 0
    (rb, if count = 0 then s.2 else s.2 ++ [ch])
  | .reset => (s.1.reset, s.2)

/-- A queue of bytes that holds `capacity` of them, and what has been read from it. -/
def queue (capacity : Nat) (s : List UInt8 × List UInt8) : Access → List UInt8 × List UInt8
  | .put ptr => (s.1 ++ ptr.take (capacity - s.1.length), s.2)
  | .putForce ptr => ((s.1 ++ ptr).rtake capacity, s.2)
  | .putchar ch => (s.1 ++ [ch].take (capacity - s.1.length), s.2)
  | .putcharForce ch => ((s.1 ++ [ch]).rtake capacity, s.2)
  | .get length => (s.1.drop length, s.2 ++ s.1.take length)
  | .getchar => (s.1.drop 1, s.2 ++ s.1.take 1)
  | .reset => ([], s.2)

/-- No forced block spills over data that does not wrap. -/
def Spared (rb : RingBuffer bufferSize) : Access → Prop
  | .putForce ptr => rb.readMirror = rb.writeMirror → min ptr.length bufferSize ≤ rb.spaceLen
  | _ => True

theorem rtake_ne_nil {l : List UInt8} {n : Nat} (some_room : 0 < n) (some_there : l ≠ []) : l.rtake n ≠ [] := by
  have := List.length_pos_iff.mpr some_there
  refine List.length_pos_iff.mp ?_
  rw [List.rtake, List.length_drop]
  omega

/-- Without wrapping there is room for a forced character. -/
theorem putcharForce_held (rb : RingBuffer bufferSize) (ch : UInt8) :
    (rb.putcharForce ch).held = (rb.held ++ [ch]).rtake bufferSize := by
  have := rb.writeInside
  rw [putcharForce_eq_putForce, putForce_held, if_neg]
  rintro ⟨spills, same⟩
  have := rb.spaceLen_same same
  rw [List.length_singleton] at spills
  omega

/-- One access does to the data what it does to the queue, exactly if the data is
spared. -/
theorem access_iff_spared (rb : RingBuffer bufferSize) (out : List UInt8) (a : Access) :
    ((access (rb, out) a).1.held, (access (rb, out) a).2) = queue bufferSize (rb.held, out) a ↔
      Spared rb a := by
  cases a with
  | put ptr => simp only [access, queue, Spared, (rb.put_held ptr).2, spaceLen_eq]
  | putForce ptr =>
    have positive := rb.positive
    simp only [access, queue, Spared, putForce_held, Prod.mk.injEq, and_true]
    constructor
    · intro equal same
      by_contra spills
      rw [if_pos ⟨Nat.not_le.mp spills, same⟩] at equal
      refine rtake_ne_nil positive ?_ equal.symm
      rintro nothing
      rw [(List.append_eq_nil_iff.mp nothing).2, List.length_nil] at spills
      omega
    · intro spared
      exact if_neg fun both => Nat.not_lt.mpr (spared both.2) both.1
  | putchar ch => simp only [access, queue, Spared, putchar_eq_put, (rb.put_held [ch]).2, spaceLen_eq]
  | putcharForce ch => simp only [access, queue, Spared, putcharForce_held]
  | get length => simp only [access, queue, Spared, (rb.get_held length).1, (rb.get_held length).2]
  | getchar =>
    simp only [access, queue, Spared, iff_true]
    cases cells : rb.held with
    | nil => simp only [rb.getchar_empty cells, cells, if_pos, List.drop_nil, List.take_nil, List.append_nil]
    | cons oldest rest =>
      obtain ⟨after, taken, left⟩ := rb.getchar_held cells 0
      simp only [taken, left, Nat.one_ne_zero, if_false, List.drop_succ_cons, List.drop_zero,
        List.take_succ_cons, List.take_zero]
  | reset => simp only [access, queue, Spared, held_reset]

/-- The buffer and the queue, side by side. -/
def paired (s : (RingBuffer bufferSize × List UInt8) × (List UInt8 × List UInt8)) (a : Access) :
    Option ((RingBuffer bufferSize × List UInt8) × (List UInt8 × List UInt8)) :=
  some (access s.1 a, queue bufferSize s.2 a)

/-- The same data, and the same bytes read. -/
def Agree (s : (RingBuffer bufferSize × List UInt8) × (List UInt8 × List UInt8)) : Prop :=
  (s.1.1.held, s.1.2) = s.2

/-- The buffer is a queue all along a run exactly as long as its data is spared. -/
theorem queue_iff_spared {pool : List UInt8} {width : pool.length = bufferSize} {positive : 0 < bufferSize}
    (run : Run paired Free ((init pool width positive, []), ([], [])) accesses t) :
    Always paired Agree ((init pool width positive, []), ([], [])) accesses ↔
      Run paired (fun s => Spared s.1.1) ((init pool width positive, []), ([], [])) accesses t := by
  refine run.always_iff (fun _ => True) (fun _ _ _ _ => trivial) ?_ trivial rfl
  rintro ⟨⟨rb, out⟩, q⟩ a _ _ agree stepped
  cases stepped
  have same : (rb.held, out) = q := agree
  subst same
  exact access_iff_spared rb out a

/-- Two forced blocks of two go through a pool of four, with one read between them. -/
theorem queue_iff_spared_pool : ∃ t, Run paired Free ((init [0, 0, 0, 0] rfl (by decide), []), ([], []))
      [.putForce [1, 2], .get 1, .putForce [3, 4]] t ∧
    (Always paired Agree ((init [0, 0, 0, 0] rfl (by decide), []), ([], []))
        [.putForce [1, 2], .get 1, .putForce [3, 4]] ↔
      Run paired (fun s => Spared s.1.1) ((init [0, 0, 0, 0] rfl (by decide), []), ([], []))
        [.putForce [1, 2], .get 1, .putForce [3, 4]] t) := by
  have run : Run (@paired 4) Free ((init [0, 0, 0, 0] rfl (by decide), []), ([], []))
      [.putForce [1, 2], .get 1, .putForce [3, 4]] _ :=
    .next trivial rfl (.next trivial rfl (.next trivial rfl (.refl _)))
  exact ⟨_, run, queue_iff_spared run⟩

end RingBuffer
end RemoteBoot.Kernel
