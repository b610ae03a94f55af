import RemoteBoot.Circular
import RemoteBoot.Kernel.Mailbox

/-! The pool of a mailbox: mails go in at one offset and come out at another, and
both run round the pool. Seen from outside it is the mailbox of lists. -/
namespace RemoteBoot.Kernel
open Circular
variable {α : Type} {size : Nat}

/-- `msg_pool`, `entry`, `in_offset` and `out_offset` of `struct rt_mailbox` -/
structure MsgPool (α : Type) (size : Nat) where
  msgPool : List α
  entry : Nat
  inOffset : Nat
  outOffset : Nat
  width : msgPool.length = size
  fits : entry ≤ size
  outInside : outOffset < size
  offsets : inOffset = (outOffset + entry) % size

namespace MsgPool

/-- `rt_mb_create`, with whatever the memory for the pool holds. -/
def create (memory : List α) (width : memory.length = size) (positive : 0 < size) : MsgPool α size where
  msgPool := memory
  entry := 0
  inOffset := 0
  outOffset := 0
  width := width
  fits := Nat.zero_le size
  outInside := positive
  offsets := (Nat.zero_mod size).symm

theorem inInside (mb : MsgPool α size) : mb.inOffset < size := by
  have positive := Nat.zero_lt_of_lt mb.outInside
  rw [mb.offsets]
  exact Nat.mod_lt _ positive

/-- The store of a mail in `rt_mb_send_wait`. -/
def put (mb : MsgPool α size) (value : α) (room : mb.entry < size) : MsgPool α size where
  msgPool := mb.msgPool.set mb.inOffset value
  entry := mb.entry + 1
  inOffset := next size mb.inOffset
  outOffset := mb.outOffset
  width := by rw [List.length_set, mb.width]
  fits := room
  outInside := mb.outInside
  offsets := by rw [next_eq_mod mb.inInside, mb.offsets, Nat.mod_add_mod, Nat.add_assoc]

/-- The fetch of a mail in `rt_mb_recv`. -/
def get (mb : MsgPool α size) (some_mail : 0 < mb.entry) : α × MsgPool α size :=
  (mb.msgPool.get ⟨mb.outOffset, by rw [mb.width]; exact mb.outInside⟩,
    { mb with
      entry := mb.entry - 1
      outOffset := next size mb.outOffset
      fits := Nat.le_trans (Nat.sub_le _ _) mb.fits
      outInside := next_lt (Nat.zero_lt_of_lt mb.outInside)
      offsets := by
        rw [next_eq_mod mb.outInside, mb.offsets, Nat.mod_add_mod]
        congr 1
        omega })

/-- The mails, oldest first. -/
def contents (mb : MsgPool α size) : List α := window mb.msgPool mb.outOffset mb.entry

@[simp] theorem length_contents (mb : MsgPool α size) : mb.contents.length = mb.entry :=
  length_window (by rw [mb.width]; exact mb.fits)

@[simp] theorem contents_create (memory : List α) (width : memory.length = size) (positive : 0 < size) :
    (create memory width positive).contents = [] :=
  window_zero memory 0

theorem contents_put (mb : MsgPool α size) (value : α) (room : mb.entry < size) :
    (mb.put value room).contents = mb.contents ++ [value] := by
  have inside : mb.entry < mb.msgPool.length := by
    rw [mb.width]
    exact room
  have stored := @window_set α mb.msgPool mb.outOffset mb.entry inside value
  rw [mb.width, ← mb.offsets] at stored
  exact stored

theorem contents_get (mb : MsgPool α size) (some_mail : 0 < mb.entry) :
    mb.contents = (mb.get some_mail).1 :: (mb.get some_mail).2.contents := by
  have width := mb.width
  have inside : mb.outOffset < mb.msgPool.length := by
    rw [width]
    exact mb.outInside
  have one_more : mb.entry = mb.entry - 1 + 1 := by omega
  obtain ⟨value, first, cells⟩ := window_cons inside
    (by rw [width]; have := mb.fits; omega : mb.entry - 1 + 1 ≤ mb.msgPool.length)
  rw [List.getElem?_eq_getElem inside, Option.some.injEq] at first
  simp only [contents, get, next_eq_mod mb.outInside, List.get_eq_getElem, first]
  rw [one_more, cells, width]
  rfl

/-- The mailbox of lists that this one is. -/
def toMailbox (mb : MsgPool α size) : Mailbox α size :=
  ⟨mb.contents, by rw [length_contents]; exact mb.fits⟩

/-- A send that does not wait is the one of the lists. -/
theorem toMailbox_put (mb : MsgPool α size) (value : α) (room : mb.entry < size) :
    mb.toMailbox.send value = some (mb.put value room).toMailbox := by
  have short : mb.toMailbox.entries.length < size := by
    rw [toMailbox, length_contents]
    exact room
  obtain ⟨after, sent⟩ := Option.isSome_iff_exists.mp ((Mailbox.send_isSome _ value).mpr short)
  have entries := Mailbox.send_eq_some sent
  rw [sent, Option.some.injEq]
  cases after
  simp only [toMailbox, contents_put, Mailbox.mk.injEq] at entries ⊢
  exact entries

theorem toMailbox_get (mb : MsgPool α size) (some_mail : 0 < mb.entry) :
    mb.toMailbox.recv = some ((mb.get some_mail).1, (mb.get some_mail).2.toMailbox) := by
  have cells := mb.contents_get some_mail
  cases received : mb.toMailbox.recv with
  | none =>
    unfold Mailbox.recv at received
    split at received
    · rename_i nothing
      exact absurd (nothing.symm.trans cells) (by simp)
    · cases received
  | some pair =>
    obtain ⟨value, after⟩ := pair
    have entries := Mailbox.recv_eq_some received
    obtain ⟨rfl, rest⟩ := List.cons.inj (cells.symm.trans entries)
    cases after
    simp only [toMailbox, rest]

end MsgPool
end RemoteBoot.Kernel
