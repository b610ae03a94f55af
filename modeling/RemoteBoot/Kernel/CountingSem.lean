import RemoteBoot.Transition
import RemoteBoot.Kernel.Semaphore
import RemoteBoot.Kernel.WaitQueue

/-! A semaphore that any number of threads take. A release hands its unit to the
thread whose turn it is, and counts it only where nobody waits. With a single
thread it is the semaphore of one taker. -/
namespace RemoteBoot.Kernel
open Transition

/-- The value, who waits, who has a unit in hand and is not back yet, and how many
units went out and came in. -/
structure CountingSem where
  value : UInt16
  waiting : WaitQueue Unit
  taken : Nat
  released : Nat
  drained : waiting.suspended ≠ [] → value = 0

inductive SemStep where
  | take (thread currentPriority : Nat) (timeout : Timeout)
  | release
  /-- `rt_sem_take` returns with a unit, or because the time is up. -/
  | finish (i : Nat)
  | expire (i : Nat)

namespace CountingSem

def create (value : UInt16) (flag : IpcFlag) : CountingSem :=
  ⟨value, .create flag, 0, 0, fun none => absurd rfl none⟩

/-- `rt_sem_take`, up to where it has a unit, waits or gives up. -/
def rtSemTake (s : CountingSem) (thread currentPriority : Nat) (timeout : Timeout) : CountingSem :=
  if none_left : s.value = 0 then
    match timeout with
    | .none => s
    | timeout =>
      { s with
        waiting := s.waiting.suspend thread currentPriority timeout ()
        drained := fun _ => none_left }
  else
    { s with
      value := s.value - 1
      waiting := { s.waiting with
        resumed := s.waiting.resumed ++ [⟨thread, currentPriority, timeout, (), s.waiting.clock⟩] }
      drained := fun suspended => absurd (s.drained suspended) none_left }

def rtSemRelease (s : CountingSem) : CountingSem :=
  if nobody : s.waiting.suspended = [] then
    { s with
      value := s.value + 1
      released := s.released + 1
      drained := fun suspended => absurd nobody suspended }
  else
    { s with
      waiting := s.waiting.resume
      released := s.released + 1
      drained := fun _ => s.drained nobody }

def step (s : CountingSem) : SemStep → Option CountingSem
  | .take thread currentPriority timeout =>
    if s.waiting.holds thread then none else some (s.rtSemTake thread currentPriority timeout)
  | .release => some s.rtSemRelease
  | .finish i =>
    s.waiting.resumed[i]?.map fun _ => { s with waiting := s.waiting.run i, taken := s.taken + 1 }
  | .expire i =>
    match s.waiting.suspended[i]? with
    | some w =>
      if w.timeout = .ticks then
        some { s with
          waiting := s.waiting.expire i
          drained := fun suspended => s.drained fun none =>
            suspended (List.eq_nil_of_length_eq_zero (by simp [WaitQueue.expire, none])) }
      else none
    | none => none

/-- A unit that is counted has room in the 16 bits. -/
def Room (s : CountingSem) : SemStep → Prop
  | .release => s.waiting.suspended = [] → s.value.toNat < 65535
  | _ => True

/-- The units that went back in, with those there were. -/
def units (s : CountingSem) : Nat := s.taken + s.waiting.resumed.length + s.value.toNat

theorem rtSemTake_units (s : CountingSem) (thread currentPriority : Nat) (timeout : Timeout) :
    (s.rtSemTake thread currentPriority timeout).units = s.units ∧
      (s.rtSemTake thread currentPriority timeout).released = s.released := by
  unfold rtSemTake
  split
  · cases timeout with
    | none => exact ⟨rfl, rfl⟩
    | ticks => exact ⟨rfl, rfl⟩
    | forever => exact ⟨rfl, rfl⟩
  · rename_i some_left
    have positive : 0 < s.value.toNat :=
      Nat.pos_of_ne_zero fun zero => some_left (UInt16.toNat_inj.mp zero)
    have one_less : (s.value - 1).toNat = s.value.toNat - 1 :=
      UInt16.toNat_sub_of_le _ _ (UInt16.le_iff_toNat_le.mpr positive)
    simp only [units, List.length_append, List.length_singleton, one_less, and_true]
    omega

/-- The count comes round after 65535, and has lost 65536 units then. -/
theorem rtSemRelease_units (s : CountingSem) :
    s.rtSemRelease.units % 65536 = (s.units + 1) % 65536 ∧
      (s.Room .release → s.rtSemRelease.units = s.units + 1) ∧
      s.rtSemRelease.released = s.released + 1 := by
  unfold rtSemRelease
  split
  · rename_i nobody
    have counted : (s.value + 1).toNat = (s.value.toNat + 1) % 65536 := UInt16.toNat_add _ _
    simp only [units, counted, and_true]
    refine ⟨by omega, fun room => ?_⟩
    have small := room nobody
    omega
  · rename_i somebody
    have resumed := WaitQueue.length_resume somebody
    simp only [units, resumed, and_true]
    exact ⟨by omega, fun _ => by omega⟩

theorem step_units {s t : CountingSem} (stepped : s.step l = some t) :
    (t.units + s.released) % 65536 = (s.units + t.released) % 65536 ∧
      (s.Room l → t.units + s.released = s.units + t.released) := by
  cases l with
  | take thread currentPriority timeout =>
    simp only [step] at stepped
    split at stepped <;> cases stepped
    obtain ⟨units, released⟩ := s.rtSemTake_units thread currentPriority timeout
    rw [units, released]
    exact ⟨rfl, fun _ => rfl⟩
  | release =>
    cases stepped
    obtain ⟨modulo, units, released⟩ := s.rtSemRelease_units
    refine ⟨by omega, fun room => ?_⟩
    have := units room
    omega
  | finish i =>
    obtain ⟨w, found, rfl⟩ := Option.map_eq_some_iff.mp stepped
    have one_less := WaitQueue.length_run found
    simp only [units]
    exact ⟨by omega, fun _ => by omega⟩
  | expire i =>
    simp only [step] at stepped
    split at stepped
    · split at stepped <;> cases stepped
      exact ⟨rfl, fun _ => rfl⟩
    · cases stepped

/-- The units that went in and came out balance in the 16 bits of the count, and as
numbers where no release finds it full; nobody waits while one is left. -/
theorem units_conserved {value : UInt16} {flag : IpcFlag} (run : Run step Free (create value flag) ls t) :
    (value.toNat + t.released) % 65536 =
        (t.taken + t.waiting.resumed.length + t.value.toNat) % 65536 ∧
      (Run step Room (create value flag) ls t →
        value.toNat + t.released = t.taken + t.waiting.resumed.length + t.value.toNat) ∧
      (t.waiting.suspended ≠ [] → t.value = 0) := by
  have start : (create value flag).units = value.toNat := by
    simp [create, units, WaitQueue.create]
  refine ⟨?_, fun run => ?_, t.drained⟩
  · refine run.invariant (P := fun s => (value.toNat + s.released) % 65536 = s.units % 65536) ?_ ?_
    · intro s l u balance _ stepped
      have moved := (step_units stepped).1
      omega
    · rw [start]
      rfl
  · refine run.invariant (P := fun s => value.toNat + s.released = s.units) ?_ ?_
    · intro s l u balance room stepped
      have moved := (step_units stepped).2 room
      omega
    · rw [start]
      rfl

/-- Two threads wait, the second with the higher priority, and one unit comes. -/
def priorityRun : List SemStep := [.take 1 20 .forever, .take 2 10 .ticks, .release, .finish 0]

/-- A unit too many empties the count, and the next taker waits for one more. -/
def fullRun : List SemStep := [.release, .take 1 20 .forever, .release, .finish 0]

theorem units_conserved_priority :
    (∃ t, Run step Room (create 0 .prio) priorityRun t ∧
      ((0 : UInt16).toNat + t.released) % 65536 =
        (t.taken + t.waiting.resumed.length + t.value.toNat) % 65536 ∧
      (Run step Room (create 0 .prio) priorityRun t →
        (0 : UInt16).toNat + t.released = t.taken + t.waiting.resumed.length + t.value.toNat) ∧
      (t.waiting.suspended ≠ [] → t.value = 0)) ∧
    ∃ t, t.value = 0 ∧ t.released = 2 ∧ t.taken = 1 ∧
      ((65535 : UInt16).toNat + t.released) % 65536 =
        (t.taken + t.waiting.resumed.length + t.value.toNat) % 65536 ∧
      (Run step Room (create 65535 .fifo) fullRun t →
        (65535 : UInt16).toNat + t.released = t.taken + t.waiting.resumed.length + t.value.toNat) ∧
      (t.waiting.suspended ≠ [] → t.value = 0) := by
  have priority : Run step Room (create 0 .prio) priorityRun _ :=
    .next trivial rfl (.next trivial rfl (.next (fun _ => by decide) rfl (.next trivial rfl (.refl _))))
  have full : Run step Free (create 65535 .fifo) fullRun _ := .of_foldlM rfl
  exact ⟨⟨_, priority, units_conserved priority.free⟩, _, rfl, rfl, rfl, units_conserved full⟩

/-- The semaphore of one taker, by its three operations. -/
def single (sem : Semaphore) : SemStep → Option Semaphore
  | .take .. => sem.take
  | .release => some sem.release
  | .finish _ => sem.finish
  | .expire _ => none

/-- Nobody but this thread takes, and it waits for ever. -/
def Sole (thread : Nat) : CountingSem → SemStep → Prop
  | _, .take taker _ timeout => taker = thread ∧ timeout = .forever
  | _, .expire _ => False
  | _, _ => True

/-- One thread at most, and not in two places. -/
structure Alone (thread : Nat) (s : CountingSem) : Prop where
  mine : ∀ w, w ∈ s.waiting.suspended ∨ w ∈ s.waiting.resumed → w.thread = thread
  few : s.waiting.suspended.length + s.waiting.resumed.length ≤ 1

def toSemaphore (s : CountingSem) : Semaphore where
  value := s.value
  taker :=
    if s.waiting.suspended ≠ [] then .suspended else if s.waiting.resumed ≠ [] then .through else .away
  drained suspended := by
    refine s.drained fun none => ?_
    simp only [none, ne_eq, not_true_eq_false, if_false] at suspended
    split at suspended <;> cases suspended

theorem rtIpcListSuspend_nil (flag : IpcFlag) (w : Waiter Unit) : rtIpcListSuspend flag [] w = [w] := by
  cases flag <;> rfl

/-- A thread that comes while nobody is here. -/
theorem take_single {s : CountingSem} {thread currentPriority : Nat}
    (nobody : s.waiting.suspended = [] ∧ s.waiting.resumed = []) :
    Alone thread (s.rtSemTake thread currentPriority .forever) ∧
      s.toSemaphore.take = some (s.rtSemTake thread currentPriority .forever).toSemaphore := by
  obtain ⟨suspended, resumed⟩ := nobody
  have away : s.toSemaphore.taker = .away := by
    simp [toSemaphore, suspended, resumed]
  by_cases none_left : s.value = 0
  · have list : (s.rtSemTake thread currentPriority .forever).waiting.suspended =
        [⟨thread, currentPriority, .forever, (), s.waiting.clock⟩] := by
      simp only [rtSemTake, dif_pos none_left, WaitQueue.suspend, suspended, rtIpcListSuspend_nil]
    have rest : (s.rtSemTake thread currentPriority .forever).waiting.resumed = [] := by
      simp only [rtSemTake, dif_pos none_left, WaitQueue.suspend, resumed]
    have value : (s.rtSemTake thread currentPriority .forever).value = s.value := by
      simp only [rtSemTake, dif_pos none_left]
    constructor
    · constructor
      · simp [list, rest]
      · simp [list, rest]
    · rw [Semaphore.take, if_pos away, dif_pos (show s.toSemaphore.value = 0 from none_left)]
      simp [toSemaphore, list, value]
  · have list : (s.rtSemTake thread currentPriority .forever).waiting.suspended = [] := by
      simp only [rtSemTake, dif_neg none_left, suspended]
    have rest : (s.rtSemTake thread currentPriority .forever).waiting.resumed =
        [⟨thread, currentPriority, .forever, (), s.waiting.clock⟩] := by
      simp only [rtSemTake, dif_neg none_left, resumed, List.nil_append]
    have value : (s.rtSemTake thread currentPriority .forever).value = s.value - 1 := by
      simp only [rtSemTake, dif_neg none_left]
    constructor
    · constructor
      · simp [list, rest]
      · simp [list, rest]
    · rw [Semaphore.take, if_pos away, dif_neg (show ¬ s.toSemaphore.value = 0 from none_left)]
      simp [toSemaphore, list, rest, value]

theorem release_single {s : CountingSem} {thread : Nat} (alone : Alone thread s) :
    Alone thread s.rtSemRelease ∧ s.rtSemRelease.toSemaphore = s.toSemaphore.release := by
  cases suspended : s.waiting.suspended with
  | nil =>
    have waiting : s.rtSemRelease.waiting = s.waiting := by
      simp only [rtSemRelease, dif_pos suspended]
    have value : s.rtSemRelease.value = s.value + 1 := by
      simp only [rtSemRelease, dif_pos suspended]
    have awake : ¬ s.toSemaphore.taker = .suspended := by
      simp only [toSemaphore, suspended, ne_eq, not_true_eq_false, if_false]
      split <;> simp
    constructor
    · exact ⟨by rw [waiting]; exact alone.mine, by rw [waiting]; exact alone.few⟩
    · rw [Semaphore.release, dif_neg awake]
      simp [toSemaphore, waiting, value]
  | cons w rest =>
    have few := alone.few
    rw [suspended, List.length_cons] at few
    have last : rest = [] := List.eq_nil_of_length_eq_zero (by omega)
    have nobody : s.waiting.resumed = [] := List.eq_nil_of_length_eq_zero (by omega)
    subst last
    have some_waiting : ¬ s.waiting.suspended = [] := by simp [suspended]
    have list : s.rtSemRelease.waiting.suspended = [] := by
      simp only [rtSemRelease, dif_neg some_waiting]
      change s.waiting.suspended.tail = []
      rw [suspended, List.tail_cons]
    have resumed : s.rtSemRelease.waiting.resumed = [w] := by
      simp only [rtSemRelease, dif_neg some_waiting, (s.waiting.resume_first suspended).1, nobody,
        List.nil_append]
    have value : s.rtSemRelease.value = s.value := by
      simp only [rtSemRelease, dif_neg some_waiting]
    have asleep : s.toSemaphore.taker = .suspended := by
      simp [toSemaphore, suspended]
    constructor
    · constructor
      · intro x member
        rw [list, resumed] at member
        refine alone.mine x (.inl ?_)
        rw [suspended]
        exact member.resolve_left List.not_mem_nil
      · rw [list, resumed]
        exact Nat.le_refl 1
    · rw [Semaphore.release, dif_pos asleep]
      simp [toSemaphore, list, resumed, value]

theorem step_single {s t : CountingSem} {thread : Nat} (alone : Alone thread s) (sole : Sole thread s l)
    (stepped : s.step l = some t) : Alone thread t ∧ single s.toSemaphore l = some t.toSemaphore := by
  cases l with
  | take taker currentPriority timeout =>
    obtain ⟨rfl, rfl⟩ := sole
    simp only [step] at stepped
    split at stepped <;> cases stepped
    rename_i elsewhere
    refine take_single ⟨?_, ?_⟩
    · refine List.eq_nil_iff_forall_not_mem.mpr fun w member => elsewhere (.inl ⟨w, member, ?_⟩)
      exact alone.mine w (.inl member)
    · refine List.eq_nil_iff_forall_not_mem.mpr fun w member => elsewhere (.inr ⟨w, member, ?_⟩)
      exact alone.mine w (.inr member)
  | release =>
    cases stepped
    obtain ⟨still, same⟩ := release_single alone
    exact ⟨still, by rw [single, same]⟩
  | finish i =>
    obtain ⟨w, found, rfl⟩ := Option.map_eq_some_iff.mp stepped
    have few := alone.few
    have one_less := WaitQueue.length_run found
    have gone : (s.waiting.run i).resumed = [] := List.eq_nil_of_length_eq_zero (by omega)
    have nobody : s.waiting.suspended = [] := List.eq_nil_of_length_eq_zero (by omega)
    have in_hand : ¬ s.waiting.resumed = [] := fun none => by
      simp [none] at found
    have stays : (s.waiting.run i).suspended = [] := nobody
    constructor
    · constructor
      · simp [gone, stays]
      · simp [gone, stays]
    · have through : s.toSemaphore.taker = .through := by
        simp [toSemaphore, nobody, in_hand]
      rw [single, Semaphore.finish, if_pos through]
      simp [toSemaphore, gone, stays]
  | expire i => exact sole.elim

/-- A run in which one thread takes is a run of the semaphore of one taker. -/
theorem single_taker {value : UInt16} {flag : IpcFlag} {thread : Nat}
    (run : Run step (Sole thread) (create value flag) ls t) :
    Run single Free ⟨value, .away, nofun⟩ ls t.toSemaphore := by
  have alone : Alone thread (create value flag) := by
    refine ⟨?_, Nat.zero_le 1⟩
    rintro w (member | member) <;> exact absurd member List.not_mem_nil
  obtain ⟨sem, path, rfl, _⟩ := run.simulation (R := fun s sem => s.toSemaphore = sem ∧ Alone thread s) id
    (fun {s l u sem} ⟨same, alone⟩ sole stepped => by
      obtain ⟨still, answer⟩ := step_single alone sole stepped
      exact ⟨_, same ▸ answer, rfl, still⟩) ⟨rfl, alone⟩
  rwa [List.map_id] at path

theorem single_taker_waits : ∃ t, Run step (Sole 7) (create 0 .prio) [.take 7 25 .forever, .release] t ∧
    Run single Free ⟨0, .away, nofun⟩ [.take 7 25 .forever, .release] t.toSemaphore := by
  have run : Run step (Sole 7) (create 0 .prio) [.take 7 25 .forever, .release] _ :=
    .next ⟨rfl, rfl⟩ rfl (.next trivial rfl (.refl _))
  exact ⟨_, run, single_taker run⟩

end CountingSem
end RemoteBoot.Kernel
