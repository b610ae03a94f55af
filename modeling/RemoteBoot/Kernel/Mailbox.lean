import Mathlib.Data.List.Basic

/-! A bounded first-in first-out mailbox. A send never waits; it fails when the
mailbox is full, and whoever sends decides what becomes of the mail. -/
namespace RemoteBoot.Kernel
variable {α : Type} {size : Nat}

structure Mailbox (α : Type) (size : Nat) where
  entries : List α
  fits : entries.length ≤ size

namespace Mailbox

def empty : Mailbox α size := ⟨[], Nat.zero_le size⟩

/-- `rt_mb_send`; none stands for `-RT_EFULL`. -/
def send (mb : Mailbox α size) (value : α) : Option (Mailbox α size) :=
  if room : mb.entries.length < size then
    some ⟨mb.entries ++ [value], by rw [List.length_append]; exact room⟩
  else none

/-- `rt_mb_recv`; none while there is no mail. -/
def recv (mb : Mailbox α size) : Option (α × Mailbox α size) :=
  match mail : mb.entries with
  | [] => none
  | value :: rest => some (value, ⟨rest, by
      have := mb.fits
      rw [mail, List.length_cons] at this
      omega⟩)

theorem send_eq_some {mb after : Mailbox α size} {value : α} (sent : mb.send value = some after) :
    after.entries = mb.entries ++ [value] := by
  unfold send at sent
  split at sent
  · cases sent
    rfl
  · cases sent

theorem send_isSome (mb : Mailbox α size) (value : α) :
    (mb.send value).isSome ↔ mb.entries.length < size := by
  unfold send
  split <;> simp_all

theorem recv_eq_some {mb after : Mailbox α size} {value : α} (received : mb.recv = some (value, after)) :
    mb.entries = value :: after.entries := by
  unfold recv at received
  split at received
  · cases received
  · rename_i head rest mail
    cases received
    exact mail

end Mailbox
end RemoteBoot.Kernel
