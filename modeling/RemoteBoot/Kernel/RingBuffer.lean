import RemoteBoot.Bytes

/-! `ringbuffer.c`. Each index has a mirror bit: with equal bits the data lies
between the indices, with different bits it wraps round the end of the pool. -/
namespace RemoteBoot.Kernel
open Bytes

structure RingBuffer (bufferSize : Nat) where
  bufferPtr : List UInt8
  readMirror : Bool
  readIndex : Nat
  writeMirror : Bool
  writeIndex : Nat
  width : bufferPtr.length = bufferSize
  readInside : readIndex < bufferSize
  writeInside : writeIndex < bufferSize
  sameSide : readMirror = writeMirror → readIndex ≤ writeIndex
  otherSide : readMirror ≠ writeMirror → writeIndex ≤ readIndex

/-- `enum rt_ringbuffer_state` -/
inductive RingBufferState where
  | empty | full | halffull
  deriving DecidableEq, Repr

namespace RingBuffer
variable {bufferSize : Nat}

/-- `rt_ringbuffer_init` -/
def init (pool : List UInt8) (width : pool.length = bufferSize) (positive : 0 < bufferSize) :
    RingBuffer bufferSize where
  bufferPtr := pool
  readMirror := false
  readIndex := 0
  writeMirror := false
  writeIndex := 0
  width := width
  readInside := positive
  writeInside := positive
  sameSide _ := Nat.le_refl 0
  otherSide _ := Nat.le_refl 0

def status (rb : RingBuffer bufferSize) : RingBufferState :=
  if rb.readIndex = rb.writeIndex then
    if rb.readMirror = rb.writeMirror then .empty else .full
  else .halffull

def dataLen (rb : RingBuffer bufferSize) : Nat :=
  match rb.status with
  | .empty => 0
  | .full => bufferSize
  | .halffull =>
    if rb.writeIndex > rb.readIndex then rb.writeIndex - rb.readIndex
    else bufferSize - (rb.readIndex - rb.writeIndex)

def spaceLen (rb : RingBuffer bufferSize) : Nat := bufferSize - rb.dataLen

theorem dataLen_same (rb : RingBuffer bufferSize) (same : rb.readMirror = rb.writeMirror) :
    rb.dataLen = rb.writeIndex - rb.readIndex := by
  have order := rb.sameSide same
  by_cases met : rb.readIndex = rb.writeIndex
  · rw [dataLen, status, if_pos met, if_pos same, met, Nat.sub_self]
  · rw [dataLen, status, if_neg met]
    exact if_pos (by omega)

theorem dataLen_other (rb : RingBuffer bufferSize) (other : rb.readMirror ≠ rb.writeMirror) :
    rb.dataLen = bufferSize - (rb.readIndex - rb.writeIndex) := by
  have order := rb.otherSide other
  by_cases met : rb.readIndex = rb.writeIndex
  · rw [dataLen, status, if_pos met, if_neg other]
    exact (by omega : bufferSize = bufferSize - (rb.readIndex - rb.writeIndex))
  · rw [dataLen, status, if_neg met]
    exact if_neg (by omega)

theorem spaceLen_same (rb : RingBuffer bufferSize) (same : rb.readMirror = rb.writeMirror) :
    rb.spaceLen = bufferSize - (rb.writeIndex - rb.readIndex) := by
  rw [spaceLen, rb.dataLen_same same]

theorem spaceLen_other (rb : RingBuffer bufferSize) (other : rb.readMirror ≠ rb.writeMirror) :
    rb.spaceLen = rb.readIndex - rb.writeIndex := by
  have := rb.readInside
  rw [spaceLen, rb.dataLen_other other]
  omega

/-- `rt_ringbuffer_put_force` from where `length` is at most the size. -/
def overwrite (rb : RingBuffer bufferSize) (data : List UInt8) (fits : data.length ≤ bufferSize) :
    RingBuffer bufferSize :=
  if inside : bufferSize - rb.writeIndex > data.length then
    { rb with
      bufferPtr := splice rb.bufferPtr rb.writeIndex data
      writeIndex := rb.writeIndex + data.length
      readIndex := if data.length > rb.spaceLen then rb.writeIndex + data.length else rb.readIndex
      width := by
        have := rb.width
        rw [length_splice (by omega), this]
      readInside := by
        have := rb.readInside
        split <;> omega
      writeInside := by omega
      sameSide same := by
        have := rb.sameSide same
        have := rb.writeInside
        split <;> omega
      otherSide other := by
        have := rb.spaceLen_other other
        have := rb.otherSide other
        split <;> omega }
  else
    { bufferPtr := splice (splice rb.bufferPtr rb.writeIndex
        (data.take (bufferSize - rb.writeIndex))) 0 (data.drop (bufferSize - rb.writeIndex))
      writeMirror := !rb.writeMirror
      writeIndex := data.length - (bufferSize - rb.writeIndex)
      readMirror := if data.length > rb.spaceLen then !rb.readMirror else rb.readMirror
      readIndex := if data.length > rb.spaceLen then data.length - (bufferSize - rb.writeIndex)
        else rb.readIndex
      width := by
        have := rb.width
        have := rb.writeInside
        have first : (splice rb.bufferPtr rb.writeIndex
            (data.take (bufferSize - rb.writeIndex))).length = rb.bufferPtr.length :=
          length_splice (by rw [List.length_take]; omega)
        rw [length_splice (by rw [List.length_drop]; omega), first, rb.width]
      readInside := by
        have := rb.readInside
        have := rb.writeInside
        split <;> omega
      writeInside := by
        have := rb.writeInside
        omega
      sameSide same := by
        split
        · omega
        · rename_i room
          rw [if_neg room] at same
          have other : rb.readMirror ≠ rb.writeMirror := Bool.eq_not.mp same
          have := rb.spaceLen_other other
          have := rb.otherSide other
          have := rb.readInside
          omega
      otherSide other := by
        have := rb.writeInside
        split
        · omega
        · rename_i room
          rw [if_neg room] at other
          have same : rb.readMirror = rb.writeMirror := Bool.not_eq_not.mp other
          have := rb.spaceLen_same same
          have := rb.sameSide same
          omega }

/-- `rt_ringbuffer_put_force`: of too much data the end is kept. -/
def putForce (rb : RingBuffer bufferSize) (ptr : List UInt8) : RingBuffer bufferSize :=
  if long : ptr.length > bufferSize then
    rb.overwrite (ptr.drop (ptr.length - bufferSize)) (by rw [List.length_drop]; omega)
  else rb.overwrite ptr (Nat.le_of_not_lt long)

/-- `rt_ringbuffer_getchar`: its result and `*ch`, which held `ch` before. -/
def getchar (rb : RingBuffer bufferSize) (ch : UInt8) : Nat × UInt8 × RingBuffer bufferSize :=
  if empty : rb.dataLen = 0 then (0, ch, rb)
  else
    let ch := rb.bufferPtr.get ⟨rb.readIndex, by rw [rb.width]; exact rb.readInside⟩
    if last : rb.readIndex = bufferSize - 1 then
      (1, ch, { rb with
        readMirror := !rb.readMirror
        readIndex := 0
        readInside := Nat.lt_of_le_of_lt (Nat.zero_le _) rb.readInside
        sameSide := fun _ => Nat.zero_le _
        otherSide := fun other => by
          have same : rb.readMirror = rb.writeMirror := Bool.not_not_eq.mp other
          have := rb.dataLen_same same
          have := rb.writeInside
          omega })
    else
      (1, ch, { rb with
        readIndex := rb.readIndex + 1
        readInside := by
          have := rb.readInside
          omega
        sameSide := fun same => by
          have := rb.dataLen_same same
          omega
        otherSide := fun other => Nat.le_succ_of_le (rb.otherSide other) })

/-- The bytes in the buffer, oldest first. -/
def held (rb : RingBuffer bufferSize) : List UInt8 :=
  if rb.readMirror = rb.writeMirror then
    slot rb.bufferPtr rb.readIndex (rb.writeIndex - rb.readIndex)
  else rb.bufferPtr.drop rb.readIndex ++ rb.bufferPtr.take rb.writeIndex

theorem length_held (rb : RingBuffer bufferSize) : rb.held.length = rb.dataLen := by
  have := rb.width
  have := rb.readInside
  have := rb.writeInside
  by_cases same : rb.readMirror = rb.writeMirror
  · rw [held, if_pos same, rb.dataLen_same same]
    simp only [slot, List.length_take, List.length_drop]
    omega
  · have := rb.otherSide same
    rw [held, if_neg same, rb.dataLen_other same]
    simp only [List.length_append, List.length_take, List.length_drop]
    omega

theorem length_held_le (rb : RingBuffer bufferSize) : rb.held.length ≤ bufferSize := by
  have := rb.width
  have := rb.writeInside
  by_cases same : rb.readMirror = rb.writeMirror
  · rw [length_held, rb.dataLen_same same]
    omega
  · rw [length_held, rb.dataLen_other same]
    omega

/-- An empty buffer leaves `*ch` untouched. -/
theorem getchar_empty (rb : RingBuffer bufferSize) (empty : rb.held = []) (ch : UInt8) :
    rb.getchar ch = (0, ch, rb) := by
  have nothing : rb.dataLen = 0 := by rw [← length_held, empty, List.length_nil]
  exact dif_pos nothing

/-- The oldest byte comes out. -/
theorem getchar_held (rb : RingBuffer bufferSize) (cells : rb.held = oldest :: rest) (ch : UInt8) :
    ∃ after, rb.getchar ch = (1, oldest, after) ∧ after.held = rest := by
  have width := rb.width
  have inside : rb.readIndex < rb.bufferPtr.length := by
    rw [width]
    exact rb.readInside
  have some_held : ¬ rb.dataLen = 0 := by
    rw [← length_held, cells, List.length_cons]
    omega
  have next := List.drop_eq_getElem_cons inside
  rw [getchar, dif_neg some_held]
  by_cases last : rb.readIndex = bufferSize - 1
  · rw [dif_pos last]
    have other : ¬ rb.readMirror = rb.writeMirror := by
      intro same
      have := rb.dataLen_same same
      have := rb.writeInside
      omega
    have turned : (!rb.readMirror) = rb.writeMirror := Bool.not_eq.mpr other
    rw [held, if_neg other, next, List.drop_of_length_le (by omega), List.singleton_append] at cells
    obtain ⟨rfl, rfl⟩ := List.cons.inj cells
    refine ⟨_, rfl, ?_⟩
    rw [held, if_pos turned]
    rfl
  · rw [dif_neg last]
    by_cases same : rb.readMirror = rb.writeMirror
    · have count : rb.writeIndex - rb.readIndex = rb.writeIndex - (rb.readIndex + 1) + 1 := by
        have := rb.dataLen_same same
        omega
      rw [held, if_pos same, slot, next, count, List.take_succ_cons] at cells
      obtain ⟨rfl, rfl⟩ := List.cons.inj cells
      refine ⟨_, rfl, ?_⟩
      rw [held, if_pos same]
      rfl
    · rw [held, if_neg same, next, List.cons_append] at cells
      obtain ⟨rfl, rfl⟩ := List.cons.inj cells
      exact ⟨_, rfl, if_neg same⟩

/-- Data that there is room for goes behind what is held. -/
theorem putForce_room (rb : RingBuffer bufferSize) {data : List UInt8}
    (room : data.length ≤ rb.spaceLen) : (rb.putForce data).held = rb.held ++ data := by
  have width := rb.width
  have inside := rb.writeInside
  have behind : rb.writeIndex ≤ rb.bufferPtr.length := by omega
  have fits : ¬ data.length > bufferSize := by
    rw [spaceLen] at room
    omega
  have keeps : ¬ data.length > rb.spaceLen := Nat.not_lt.mpr room
  rw [putForce, dif_neg fits, overwrite]
  by_cases same : rb.readMirror = rb.writeMirror
  · have order := rb.sameSide same
    have old : (slot rb.bufferPtr rb.readIndex (rb.writeIndex - rb.readIndex)).length =
        rb.writeIndex - rb.readIndex := by
      rw [slot, List.length_take, List.length_drop]
      omega
    rw [rb.spaceLen_same same] at room
    by_cases short : bufferSize - rb.writeIndex > data.length
    · rw [dif_pos short]
      simp only [held, if_pos same, if_neg keeps]
      rw [slot, drop_splice_before behind order, ← List.append_assoc, List.take_left']
      rw [List.length_append, old]
      omega
    · rw [dif_neg short]
      have turned : ¬ rb.readMirror = !rb.writeMirror := Bool.not_eq_not.mpr same
      have first : (data.take (bufferSize - rb.writeIndex)).length = bufferSize - rb.writeIndex := by
        rw [List.length_take]
        omega
      have rest : (data.drop (bufferSize - rb.writeIndex)).length =
          data.length - (bufferSize - rb.writeIndex) := List.length_drop
      have past : rb.bufferPtr.length ≤
          rb.writeIndex + (data.take (bufferSize - rb.writeIndex)).length := by omega
      have tail : (splice rb.bufferPtr rb.writeIndex
            (data.take (bufferSize - rb.writeIndex))).drop rb.readIndex =
          slot rb.bufferPtr rb.readIndex (rb.writeIndex - rb.readIndex) ++
            data.take (bufferSize - rb.writeIndex) := by
        rw [drop_splice_before behind order, List.drop_of_length_le past, List.append_nil]
      have head : ∀ pool : List UInt8, (splice pool 0 (data.drop (bufferSize - rb.writeIndex))).take
          (data.length - (bufferSize - rb.writeIndex)) = data.drop (bufferSize - rb.writeIndex) := by
        intro pool
        rw [← rest, ← Nat.zero_add (List.length _), take_splice (Nat.zero_le _), List.take_zero,
          List.nil_append]
      simp only [held, if_pos same, if_neg keeps, if_neg turned]
      rw [drop_splice_after (Nat.zero_le _) (by omega), tail, head, List.append_assoc,
        List.take_append_drop]
  · have order := rb.otherSide same
    have := rb.readInside
    rw [rb.spaceLen_other same] at room
    have short : bufferSize - rb.writeIndex > data.length := by omega
    rw [dif_pos short]
    simp only [held, if_neg same, if_neg keeps]
    rw [drop_splice_after behind (by omega), take_splice behind, List.append_assoc]

/-- A byte that there is no room for takes the place of the oldest one. -/
theorem putForce_full (rb : RingBuffer bufferSize) (full : rb.spaceLen = 0) (byte : UInt8) :
    (rb.putForce [byte]).held = rb.held.drop 1 ++ [byte] := by
  have width := rb.width
  have inside := rb.writeInside
  have behind : rb.writeIndex ≤ rb.bufferPtr.length := by omega
  have fits : ¬ [byte].length > bufferSize := by
    rw [List.length_singleton]
    omega
  have spills : [byte].length > rb.spaceLen := by
    rw [full]
    exact Nat.one_pos
  have other : ¬ rb.readMirror = rb.writeMirror := by
    intro same
    rw [rb.spaceLen_same same] at full
    omega
  have met : rb.readIndex = rb.writeIndex := by
    have := rb.otherSide other
    rw [rb.spaceLen_other other] at full
    omega
  have oldest : rb.held.drop 1 =
      rb.bufferPtr.drop (rb.writeIndex + 1) ++ rb.bufferPtr.take rb.writeIndex := by
    rw [held, if_neg other, met, List.drop_append_of_le_length (by rw [List.length_drop]; omega),
      List.drop_drop]
  rw [oldest, putForce, dif_neg fits, overwrite]
  by_cases short : bufferSize - rb.writeIndex > [byte].length
  · rw [dif_pos short]
    simp only [held, if_neg other, if_pos spills]
    rw [drop_splice_after behind (Nat.le_refl _), take_splice behind, List.append_assoc]
    rfl
  · rw [dif_neg short]
    rw [List.length_singleton] at short
    have one : bufferSize - rb.writeIndex = 1 := by omega
    have turned : ¬ (!rb.readMirror) = !rb.writeMirror := fun same => other (Bool.not_inj same)
    have kept : [byte].take 1 = [byte] := rfl
    have nothing : [byte].drop 1 = [] := rfl
    have past : rb.bufferPtr.length ≤ rb.writeIndex + [byte].length := by
      rw [List.length_singleton]
      omega
    have last : (splice rb.bufferPtr rb.writeIndex [byte]).drop 0 =
        rb.bufferPtr.take rb.writeIndex ++ [byte] := by
      rw [drop_splice_before behind (Nat.zero_le _), List.drop_of_length_le past, List.append_nil]
      rfl
    simp only [held, if_pos spills, if_neg turned, one, kept, nothing]
    rw [drop_splice_after (Nat.zero_le _) (Nat.zero_le _),
      List.drop_of_length_le (by omega : rb.bufferPtr.length ≤ rb.writeIndex + 1), List.nil_append]
    exact (List.append_nil _).trans last

end RingBuffer
end RemoteBoot.Kernel
