import Mathlib.Data.List.Sort

/-! The threads that wait at an IPC object. A thread that is suspended is resumed
in its turn or runs into its timeout; a thread that was resumed waits for the
processor and then looks at the object again. -/
namespace RemoteBoot.Kernel
variable {β : Type}

/-- `RT_IPC_FLAG_FIFO` and `RT_IPC_FLAG_PRIO` -/
inductive IpcFlag where
  | fifo | prio
  deriving DecidableEq, Repr

/-- The `timeout` of a call: 0, a number of ticks, or `RT_WAITING_FOREVER`. -/
inductive Timeout where
  | none | ticks | forever
  deriving DecidableEq, Repr

/-- A thread with what it waits with, and when it came. -/
structure Waiter (β : Type) where
  thread : Nat
  currentPriority : Nat
  timeout : Timeout
  value : β
  since : Nat
  deriving DecidableEq

/-- `x` is served before `y`. -/
def Ahead (rank since : β → Nat) (x y : β) : Prop := rank x < rank y ∨ rank x = rank y ∧ since x < since y

/-- A newcomer that goes before all it outranks, and behind its equals. -/
theorem pairwise_insert {rank since : β → Nat} {a : β} {l : List β} (ordered : l.Pairwise (Ahead rank since))
    (latest : ∀ x ∈ l, since x < since a) :
    (l.orderedInsert (fun x y => rank x < rank y) a).Pairwise (Ahead rank since) := by
  induction l with
  | nil => exact List.pairwise_singleton _ a
  | cons b l ih =>
    rw [List.forall_mem_cons] at latest
    obtain ⟨first, rest⟩ := List.pairwise_cons.mp ordered
    by_cases outranks : rank a < rank b
    · rw [List.orderedInsert_cons, if_pos outranks]
      refine List.pairwise_cons.mpr ⟨fun x member => .inl ?_, ordered⟩
      rcases List.mem_cons.mp member with rfl | member
      · exact outranks
      · rcases first x member with lower | same
        · exact Nat.lt_trans outranks lower
        · exact same.1 ▸ outranks
    · rw [List.orderedInsert_cons, if_neg outranks]
      refine List.pairwise_cons.mpr ⟨fun x member => ?_, ih rest latest.2⟩
      rcases (List.mem_orderedInsert _).mp member with rfl | member
      · rcases Nat.lt_or_eq_of_le (Nat.le_of_not_lt outranks) with lower | same
        · exact .inl lower
        · exact .inr ⟨same, latest.1⟩
      · exact first x member

/-- Where all are equal a newcomer goes to the end. -/
theorem insert_equal (l : List β) (a : β) :
    l.orderedInsert (fun _ _ => (0 : Nat) < 0) a = l ++ [a] := by
  induction l with
  | nil => rfl
  | cons b l ih => rw [List.orderedInsert_cons, if_neg (Nat.lt_irrefl 0), ih, List.cons_append]

/-- What a waiter is ranked by. The smaller number is the higher priority. -/
def IpcFlag.rank : IpcFlag → Waiter β → Nat
  | .fifo, _ => 0
  | .prio, w => w.currentPriority

/-- `rt_ipc_list_suspend` -/
def rtIpcListSuspend (flag : IpcFlag) (list : List (Waiter β)) (w : Waiter β) : List (Waiter β) :=
  match flag with
  | .fifo => list ++ [w]
  | .prio => list.orderedInsert (fun x y => x.currentPriority < y.currentPriority) w

theorem rtIpcListSuspend_eq (flag : IpcFlag) (list : List (Waiter β)) (w : Waiter β) :
    rtIpcListSuspend flag list w = list.orderedInsert (fun x y => flag.rank x < flag.rank y) w := by
  cases flag with
  | fifo => exact (insert_equal list w).symm
  | prio => rfl

theorem mem_rtIpcListSuspend {flag : IpcFlag} {list : List (Waiter β)} {w x : Waiter β} :
    x ∈ rtIpcListSuspend flag list w ↔ x = w ∨ x ∈ list := by
  rw [rtIpcListSuspend_eq, List.mem_orderedInsert]

/-- `suspend_thread` of an IPC object, and who was resumed from it and has not run
since. -/
structure WaitQueue (β : Type) where
  flag : IpcFlag
  suspended : List (Waiter β)
  resumed : List (Waiter β)
  clock : Nat
  inTurn : suspended.Pairwise (Ahead flag.rank Waiter.since)
  latest : ∀ w ∈ suspended, w.since < clock

namespace WaitQueue

def create (flag : IpcFlag) : WaitQueue β where
  flag := flag
  suspended := []
  resumed := []
  clock := 0
  inTurn := .nil
  latest _ member := absurd member List.not_mem_nil

/-- The thread is blocked here, or was and has not run since. -/
def holds (q : WaitQueue β) (thread : Nat) : Prop :=
  (∃ w ∈ q.suspended, w.thread = thread) ∨ ∃ w ∈ q.resumed, w.thread = thread

instance (q : WaitQueue β) (thread : Nat) : Decidable (q.holds thread) :=
  inferInstanceAs (Decidable (_ ∨ _))

def suspend (q : WaitQueue β) (thread currentPriority : Nat) (timeout : Timeout) (value : β) : WaitQueue β :=
  let w : Waiter β := ⟨thread, currentPriority, timeout, value, q.clock⟩
  { q with
    suspended := rtIpcListSuspend q.flag q.suspended w
    clock := q.clock + 1
    inTurn := by
      rw [rtIpcListSuspend_eq]
      exact pairwise_insert q.inTurn q.latest
    latest := by
      intro x member
      rcases mem_rtIpcListSuspend.mp member with rfl | member
      · exact Nat.lt_succ_self _
      · exact Nat.lt_succ_of_lt (q.latest x member) }

/-- `rt_ipc_list_resume`, if anyone is suspended. -/
def resume (q : WaitQueue β) : WaitQueue β :=
  { q with
    suspended := q.suspended.tail
    resumed := q.resumed ++ q.suspended.head?.toList
    inTurn := q.inTurn.sublist (List.tail_sublist _)
    latest := fun w member => q.latest w (List.mem_of_mem_tail member) }

/-- The timeout of a suspended thread. -/
def expire (q : WaitQueue β) (i : Nat) : WaitQueue β :=
  { q with
    suspended := q.suspended.eraseIdx i
    inTurn := q.inTurn.sublist (List.eraseIdx_sublist _ _)
    latest := fun w member => q.latest w (List.mem_of_mem_eraseIdx member) }

/-- A resumed thread runs. -/
def run (q : WaitQueue β) (i : Nat) : WaitQueue β := { q with resumed := q.resumed.eraseIdx i }

/-- Whoever is resumed is ahead of all that stay. -/
theorem resume_first (q : WaitQueue β) (waiting : q.suspended = w :: rest) :
    q.resume.resumed = q.resumed ++ [w] ∧ ∀ x ∈ q.resume.suspended, Ahead q.flag.rank Waiter.since w x := by
  have inTurn := q.inTurn
  rw [waiting] at inTurn
  constructor
  · change q.resumed ++ q.suspended.head?.toList = _
    rw [waiting]
    rfl
  · intro x member
    change x ∈ q.suspended.tail at member
    rw [waiting] at member
    exact (List.pairwise_cons.mp inTurn).1 x member

theorem length_run {q : WaitQueue β} {i : Nat} {w : Waiter β} (found : q.resumed[i]? = some w) :
    (q.run i).resumed.length + 1 = q.resumed.length := by
  obtain ⟨inside, _⟩ := List.getElem?_eq_some_iff.mp found
  rw [run, List.length_eraseIdx_of_lt inside]
  omega

/-- Where a suspended thread is resumed there is one more to run. -/
theorem length_resume {q : WaitQueue β} (waiting : q.suspended ≠ []) :
    q.resume.resumed.length = q.resumed.length + 1 := by
  cases suspended : q.suspended with
  | nil => exact absurd suspended waiting
  | cons w rest => rw [(q.resume_first suspended).1, List.length_append, List.length_singleton]

theorem resume_of_nil {q : WaitQueue β} (none : q.suspended = []) :
    q.resume.suspended = [] ∧ q.resume.resumed = q.resumed := by
  constructor
  · change q.suspended.tail = []
    rw [none]
    rfl
  · change q.resumed ++ q.suspended.head?.toList = _
    rw [none]
    exact List.append_nil _

end WaitQueue
end RemoteBoot.Kernel
