import Mathlib.Data.Nat.Basic

/-! A counting semaphore that one thread takes. A release hands its unit to the
thread if that is suspended, and otherwise counts it in 16 bits. -/
namespace RemoteBoot.Kernel

/-- Where the thread is: elsewhere, suspended in `rt_sem_take`, or in it with a
unit in hand and not back yet. -/
inductive Taker where
  | away | suspended | through
  deriving DecidableEq, Repr

structure Semaphore where
  value : UInt16
  taker : Taker
  drained : taker = .suspended → value = 0

namespace Semaphore

def empty : Semaphore := ⟨0, .away, nofun⟩

/-- `rt_sem_take` with `RT_WAITING_FOREVER`, up to where it waits or has a unit. -/
def take (sem : Semaphore) : Option Semaphore :=
  if sem.taker = .away then
    if none_left : sem.value = 0 then some ⟨sem.value, .suspended, fun _ => none_left⟩
    else some ⟨sem.value - 1, .through, nofun⟩
  else none

/-- The return of `rt_sem_take`. -/
def finish (sem : Semaphore) : Option Semaphore :=
  if sem.taker = .through then some ⟨sem.value, .away, nofun⟩ else none

/-- `rt_sem_release` -/
def release (sem : Semaphore) : Semaphore :=
  if waiting : sem.taker = .suspended then ⟨sem.value, .through, nofun⟩
  else ⟨sem.value + 1, sem.taker, fun suspended => absurd suspended waiting⟩

/-- The units released and not yet taken home. -/
def pending (sem : Semaphore) : Nat := sem.value.toNat + if sem.taker = .through then 1 else 0

theorem take_spec {sem after : Semaphore} (taken : sem.take = some after) :
    sem.taker = .away ∧ after.taker ≠ .away ∧ after.pending = sem.pending := by
  unfold take at taken
  split at taken
  · rename_i away
    split at taken
    · rename_i none_left
      cases taken
      simp [pending, away, none_left]
    · rename_i some_left
      cases taken
      have positive : 0 < sem.value.toNat := by
        refine Nat.pos_of_ne_zero fun zero => some_left ?_
        exact UInt16.toNat_inj.mp zero
      have less : (sem.value - 1).toNat = sem.value.toNat - 1 := by
        rw [UInt16.toNat_sub_of_le _ _ (by rw [UInt16.le_iff_toNat_le]; exact positive)]
        rfl
      refine ⟨away, nofun, ?_⟩
      simp only [pending, away, less]
      simp
      omega
  · cases taken

theorem finish_spec {sem after : Semaphore} (finished : sem.finish = some after) :
    after.taker = .away ∧ sem.pending = after.pending + 1 := by
  unfold finish at finished
  split at finished
  · rename_i through
    cases finished
    simp [pending, through]
  · cases finished

theorem pending_le (sem : Semaphore) : sem.pending ≤ 65536 := by
  have := sem.value.toNat_lt
  rw [pending]
  split <;> omega

/-- The count comes round after 65536 releases. -/
theorem release_pending_mod (sem : Semaphore) :
    sem.release.pending % 65536 = (sem.pending + 1) % 65536 := by
  unfold release
  split
  · rename_i waiting
    simp [pending, waiting]
  · have counted : (sem.value + 1).toNat = (sem.value.toNat + 1) % 65536 := UInt16.toNat_add _ _
    simp only [pending, counted]
    omega

theorem release_pending (sem : Semaphore) (room : sem.pending + 1 < 65536) :
    sem.release.pending = sem.pending + 1 := by
  have counted := sem.release_pending_mod
  have small := sem.release.pending_le
  omega

/-- A thread that finds a unit has it. -/
theorem take_through {sem : Semaphore} (away : sem.taker = .away) (some_left : 0 < sem.pending) :
    ∃ after, sem.take = some after ∧ after.taker = .through ∧ after.pending = sem.pending := by
  have positive : ¬ sem.value = 0 := by
    intro zero
    simp [pending, away, zero] at some_left
  have taken : sem.take = some ⟨sem.value - 1, .through, nofun⟩ := by
    rw [take, if_pos away, dif_neg positive]
  exact ⟨_, taken, rfl, (take_spec taken).2.2⟩

theorem finish_through {sem : Semaphore} (through : sem.taker = .through) :
    ∃ after, sem.finish = some after ∧ after.taker = .away ∧ sem.pending = after.pending + 1 := by
  have finished : sem.finish = some ⟨sem.value, .away, nofun⟩ := if_pos through
  exact ⟨_, finished, finish_spec finished⟩

theorem release_away {sem : Semaphore} (away : sem.taker = .away) : sem.release.taker = .away := by
  simp [release, away]

/-- A suspended thread has left nothing behind. -/
theorem pending_suspended {sem : Semaphore} (suspended : sem.taker = .suspended) :
    sem.pending = 0 := by
  simp [pending, suspended, sem.drained suspended]

end Semaphore
end RemoteBoot.Kernel
