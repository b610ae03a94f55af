import Mathlib.Logic.Function.Basic
import RemoteBoot.Kernel.RingFifo

/-! A pipe of `pipe.c` that stays open, with any number of threads that write and one that
reads. The lock is held around each access to the ring buffer. The wait queues are not
under it: between a look at the buffer and going to sleep anything may happen. -/
namespace RemoteBoot.Kernel
open Bytes Transition
variable {Thread : Type}

/-- `rt_wqueue_t` -/
structure Wqueue (Thread : Type) where
  flag : Bool
  waitingList : List Thread

namespace Wqueue

/-- `rt_wqueue_wakeup`: the flag is left for a thread that is about to sleep. -/
def wakeup (q : Wqueue Thread) : Wqueue Thread := ⟨true, q.waitingList.tail⟩

def add (q : Wqueue Thread) (thread : Thread) : Wqueue Thread := { q with waitingList := q.waitingList ++ [thread] }

def clear (q : Wqueue Thread) : Wqueue Thread := { q with flag := false }

end Wqueue

/-- Data that is left to be written. -/
abbrev Rest : Type := { data : List UInt8 // data ≠ [] }

abbrev Count : Type := { n : Nat // 0 < n }

/-- A thread in `pipe_fops_write`: before the lock is taken, with the reader to be woken,
before `rt_wqueue_wait` and in it. -/
inductive PipeWriter where
  | idle
  | put (rest : Rest)
  | wake (rest : List UInt8)
  | wait (rest : Rest)
  | asleep (rest : Rest)
  | resumed (rest : Rest)

/-- The thread in `pipe_fops_read`. With `taken` it holds the lock. -/
inductive PipeReader where
  | idle
  | get (count : Count)
  | taken (data : Rest)
  | wake (count : Count)
  | wait (count : Count)
  | asleep (count : Count)
  | resumed (count : Count)

def PipeWriter.resume : PipeWriter → PipeWriter
  | asleep rest => resumed rest
  | w => w

/-- The reader holds the lock. -/
def PipeReader.locks : PipeReader → Bool
  | taken _ => true
  | _ => false

def PipeReader.resume : PipeReader → PipeReader
  | asleep count => resumed count
  | r => r

/-- The thread sleeps at its queue. -/
def PipeWriter.Sleeps : PipeWriter → Prop
  | asleep _ => True
  | _ => False

theorem PipeWriter.Sleeps.eq {pc : PipeWriter} (sleeps : pc.Sleeps) : ∃ rest, pc = asleep rest := by
  cases pc with
  | asleep rest => exact ⟨rest, rfl⟩
  | _ => exact sleeps.elim

/-- Next the thread stores something. -/
def PipeWriter.Pushes : PipeWriter → Prop
  | put _ | resumed _ => True
  | _ => False

def PipeWriter.Wakes : PipeWriter → Prop
  | wake _ => True
  | _ => False

/-- The thread sleeps, or it will if the flag stays as it is. -/
def PipeWriter.Drowsy (flag : Bool) : PipeWriter → Prop
  | asleep _ => True
  | wake rest => rest ≠ [] ∧ flag = false
  | wait _ => flag = false
  | _ => False

def PipeReader.Sleeps : PipeReader → Prop
  | asleep _ => True
  | _ => False

theorem PipeReader.Sleeps.eq {r : PipeReader} (sleeps : r.Sleeps) : ∃ count, r = asleep count := by
  cases r with
  | asleep count => exact ⟨count, rfl⟩
  | _ => exact sleeps.elim

instance : DecidablePred PipeReader.Sleeps := fun r => by
  cases r <;> unfold PipeReader.Sleeps <;> infer_instance

def PipeReader.Drowsy (flag : Bool) : PipeReader → Prop
  | asleep _ => True
  | wake _ | wait _ => flag = false
  | _ => False

/-- What is left of a thread's data. -/
def PipeWriter.left : PipeWriter → List UInt8
  | idle => []
  | wake rest => rest
  | put rest | wait rest | asleep rest | resumed rest => rest.1

def PipeReader.inHand : PipeReader → List UInt8
  | taken data => data.1
  | _ => []

/-- With what each thread handed over, what was stored of it, and what was read. -/
structure Pipe (bufsz : Nat) (Thread : Type) where
  fifo : RingBuffer bufsz
  writers : Thread → PipeWriter
  reader : PipeReader
  readerQueue : Wqueue Unit
  writerQueue : Wqueue Thread
  given : Thread → List UInt8
  stored : List (Thread × UInt8)
  delivered : List UInt8

/-- A call, or the next step of a thread in its call. -/
inductive PipeLabel (Thread : Type) where
  | write (w : Thread) (data : Rest)
  | writer (w : Thread)
  | read (count : Count)
  | reader

namespace Pipe
variable {bufsz : Nat}

def create (pool : List UInt8) (width : pool.length = bufsz) (positive : 0 < bufsz) : Pipe bufsz Thread where
  fifo := RingBuffer.init pool width positive
  writers _ := .idle
  reader := .idle
  readerQueue := ⟨false, []⟩
  writerQueue := ⟨false, []⟩
  given _ := []
  stored := []
  delivered := []

def wakeReader (s : Pipe bufsz Thread) : Pipe bufsz Thread :=
  { s with
    readerQueue := s.readerQueue.wakeup
    reader :=
      match s.readerQueue.waitingList with
      | [] => s.reader
      | () :: _ => s.reader.resume }

/-- Who waits at the queues are those who sleep. -/
structure Listed (s : Pipe bufsz Thread) : Prop where
  writers : ∀ w, w ∈ s.writerQueue.waitingList ↔ (s.writers w).Sleeps
  distinct : s.writerQueue.waitingList.Nodup
  reader : s.readerQueue.waitingList = if s.reader.Sleeps then [()] else []

/-- For a writer that sleeps or is about to there is data to be read, or a thread that
stores some; for a reader that does there is no data, or a thread that will wake it. -/
structure Attended (s : Pipe bufsz Thread) : Prop where
  writers : ∀ w, (s.writers w).Drowsy s.writerQueue.flag →
    s.fifo.held ≠ [] ∨ s.reader.locks = true ∨ ∃ v, (s.writers v).Pushes
  reader : s.reader.Drowsy s.readerQueue.flag → s.fifo.held = [] ∨ ∃ w, (s.writers w).Wakes

theorem wakeReader_listed {s : Pipe bufsz Thread} (listed : s.Listed) :
    ¬ s.wakeReader.reader.Drowsy s.wakeReader.readerQueue.flag ∧
      s.wakeReader.readerQueue.waitingList = if s.wakeReader.reader.Sleeps then [()] else [] := by
  have queue := listed.reader
  by_cases asleep : s.reader.Sleeps
  · rw [if_pos asleep] at queue
    obtain ⟨count, here⟩ := asleep.eq
    simp [wakeReader, queue, here, PipeReader.resume, PipeReader.Drowsy, PipeReader.Sleeps, Wqueue.wakeup]
  · rw [if_neg asleep] at queue
    simp only [wakeReader, queue, Wqueue.wakeup, if_neg asleep, List.tail_nil, and_true]
    cases here : s.reader with
    | asleep count => exact absurd (by rw [here]; trivial) asleep
    | _ => simp [PipeReader.Drowsy]

theorem wakeReader_locks (s : Pipe bufsz Thread) : s.wakeReader.reader.locks = s.reader.locks := by
  have resume (r : PipeReader) : r.resume.locks = r.locks := by cases r <;> rfl
  simp only [wakeReader]
  split
  · rfl
  · exact resume s.reader

variable [DecidableEq Thread]

def wakeWriter (s : Pipe bufsz Thread) : Pipe bufsz Thread :=
  { s with
    writerQueue := s.writerQueue.wakeup
    writers :=
      match s.writerQueue.waitingList with
      | [] => s.writers
      | w :: _ => Function.update s.writers w (s.writers w).resume }

/-- The next step of `pipe_fops_write` in thread `w`. -/
def writerStep (s : Pipe bufsz Thread) (w : Thread) : Option (Pipe bufsz Thread) :=
  let goto (pc : PipeWriter) : Thread → PipeWriter := Function.update s.writers w pc
  match s.writers w with
  | .put rest =>
    if s.reader.locks then none
    else
      let (len, fifo) := s.fifo.put rest
      some { s with
        fifo := fifo
        writers := goto (.wake (rest.1.drop len))
        stored := s.stored ++ (rest.1.take len).map fun byte => (w, byte) }
  | .wake rest =>
    some { s.wakeReader with writers := goto (if left : rest ≠ [] then .wait ⟨rest, left⟩ else .idle) }
  | .wait rest =>
    if s.writerQueue.flag then some { s with writerQueue := s.writerQueue.clear, writers := goto (.put rest) }
    else some { s with writerQueue := s.writerQueue.add w, writers := goto (.asleep rest) }
  | .resumed rest => some { s with writerQueue := s.writerQueue.clear, writers := goto (.put rest) }
  | _ => none

/-- The next step of `pipe_fops_read`. -/
def readerStep (s : Pipe bufsz Thread) : Option (Pipe bufsz Thread) :=
  match s.reader with
  | .get count =>
    let (data, fifo) := s.fifo.get count
    if some_data : data ≠ [] then some { s with fifo := fifo, reader := .taken ⟨data, some_data⟩ }
    else some { s with reader := .wake count }
  | .taken data => some { s.wakeWriter with reader := .idle, delivered := s.delivered ++ data.1 }
  | .wake count => some { s.wakeWriter with reader := .wait count }
  | .wait count =>
    if s.readerQueue.flag then some { s with readerQueue := s.readerQueue.clear, reader := .get count }
    else some { s with readerQueue := s.readerQueue.add (), reader := .asleep count }
  | .resumed count => some { s with readerQueue := s.readerQueue.clear, reader := .get count }
  | _ => none

def step (s : Pipe bufsz Thread) : PipeLabel Thread → Option (Pipe bufsz Thread)
  | .write w data =>
    match s.writers w with
    | .idle => some { s with
        writers := Function.update s.writers w (.put data)
        given := Function.update s.given w (s.given w ++ data.1) }
    | _ => none
  | .writer w => s.writerStep w
  | .read count =>
    match s.reader with
    | .idle => some { s with reader := .get count }
    | _ => none
  | .reader => s.readerStep

/-- What a step of a thread in `pipe_fops_write` can be. -/
inductive WriterMoves (s : Pipe bufsz Thread) (w : Thread) : Pipe bufsz Thread → Prop where
  | put (here : s.writers w = .put rest) (unlocked : s.reader.locks = false) :
      WriterMoves s w { s with
        fifo := (s.fifo.put rest.1).2
        writers := Function.update s.writers w (.wake (rest.1.drop (s.fifo.put rest.1).1))
        stored := s.stored ++ (rest.1.take (s.fifo.put rest.1).1).map fun byte => (w, byte) }
  | finish (here : s.writers w = .wake []) :
      WriterMoves s w { s.wakeReader with writers := Function.update s.writers w .idle }
  | wake (rest : Rest) (here : s.writers w = .wake rest.1) :
      WriterMoves s w { s.wakeReader with writers := Function.update s.writers w (.wait rest) }
  | pass (here : s.writers w = .wait rest) (woken : s.writerQueue.flag = true) :
      WriterMoves s w { s with
        writerQueue := s.writerQueue.clear, writers := Function.update s.writers w (.put rest) }
  | sleep (here : s.writers w = .wait rest) (unwoken : s.writerQueue.flag = false) :
      WriterMoves s w { s with
        writerQueue := s.writerQueue.add w, writers := Function.update s.writers w (.asleep rest) }
  | run (here : s.writers w = .resumed rest) :
      WriterMoves s w { s with
        writerQueue := s.writerQueue.clear, writers := Function.update s.writers w (.put rest) }

theorem writerStep_moves {s t : Pipe bufsz Thread} (stepped : s.writerStep w = some t) : WriterMoves s w t := by
  cases here : s.writers w with
  | idle => simp only [writerStep, here, reduceCtorEq] at stepped
  | put rest =>
    simp only [writerStep, here] at stepped
    split at stepped
    · cases stepped
    · rename_i unlocked
      cases stepped
      exact .put here (eq_false_of_ne_true unlocked)
  | wake rest =>
    simp only [writerStep, here, Option.some.injEq] at stepped
    subst stepped
    by_cases left : rest ≠ []
    · rw [dif_pos left]
      exact .wake ⟨rest, left⟩ here
    · rw [dif_neg left]
      exact .finish (Classical.not_not.mp left ▸ here)
  | wait rest =>
    simp only [writerStep, here] at stepped
    split at stepped <;> rename_i flag <;> cases stepped
    · exact .pass here flag
    · exact .sleep here (eq_false_of_ne_true flag)
  | asleep rest => simp only [writerStep, here, reduceCtorEq] at stepped
  | resumed rest =>
    simp only [writerStep, here, Option.some.injEq] at stepped
    subst stepped
    exact .run here

/-- What a step of the thread in `pipe_fops_read` can be. -/
inductive ReaderMoves (s : Pipe bufsz Thread) : Pipe bufsz Thread → Prop where
  | take (here : s.reader = .get count) (data : Rest) (got : (s.fifo.get count).1 = data.1) :
      ReaderMoves s { s with fifo := (s.fifo.get count).2, reader := .taken data }
  | miss (here : s.reader = .get count) (got : (s.fifo.get count).1 = []) :
      ReaderMoves s { s with reader := .wake count }
  | release (here : s.reader = .taken data) :
      ReaderMoves s { s.wakeWriter with reader := .idle, delivered := s.delivered ++ data.1 }
  | wake (here : s.reader = .wake count) : ReaderMoves s { s.wakeWriter with reader := .wait count }
  | pass (here : s.reader = .wait count) (woken : s.readerQueue.flag = true) :
      ReaderMoves s { s with readerQueue := s.readerQueue.clear, reader := .get count }
  | sleep (here : s.reader = .wait count) (unwoken : s.readerQueue.flag = false) :
      ReaderMoves s { s with readerQueue := s.readerQueue.add (), reader := .asleep count }
  | run (here : s.reader = .resumed count) :
      ReaderMoves s { s with readerQueue := s.readerQueue.clear, reader := .get count }

theorem readerStep_moves {s t : Pipe bufsz Thread} (stepped : s.readerStep = some t) : ReaderMoves s t := by
  cases here : s.reader with
  | idle => simp only [readerStep, here, reduceCtorEq] at stepped
  | get count =>
    by_cases some_data : (s.fifo.get count).1 ≠ []
    · simp only [readerStep, here, dif_pos some_data, Option.some.injEq] at stepped
      subst stepped
      exact .take here ⟨_, some_data⟩ rfl
    · simp only [readerStep, here, dif_neg some_data, Option.some.injEq] at stepped
      subst stepped
      exact .miss here (Classical.not_not.mp some_data)
  | taken data =>
    simp only [readerStep, here, Option.some.injEq] at stepped
    subst stepped
    exact .release here
  | wake count =>
    simp only [readerStep, here, Option.some.injEq] at stepped
    subst stepped
    exact .wake here
  | wait count =>
    simp only [readerStep, here] at stepped
    split at stepped <;> rename_i flag <;> cases stepped
    · exact .pass here flag
    · exact .sleep here (eq_false_of_ne_true flag)
  | asleep count => simp only [readerStep, here, reduceCtorEq] at stepped
  | resumed count =>
    simp only [readerStep, here, Option.some.injEq] at stepped
    subst stepped
    exact .run here

theorem exists_self {P : PipeWriter → Prop} (writers : Thread → PipeWriter) (w : Thread) {pc : PipeWriter}
    (holds : P pc) : ∃ v, P (Function.update writers w pc v) := ⟨w, by rwa [Function.update_self]⟩

/-- Some thread is found elsewhere than where a thread moved from. -/
theorem exists_update {P : PipeWriter → Prop} {writers : Thread → PipeWriter} {pc : PipeWriter}
    (found : ∃ v, P (writers v)) (elsewhere : ¬ P (writers w)) : ∃ v, P (Function.update writers w pc v) := by
  obtain ⟨v, holds⟩ := found
  have other : v ≠ w := fun same => elsewhere (same ▸ holds)
  exact ⟨v, by rwa [Function.update_of_ne other]⟩

theorem wakeWriter_wakes (s : Pipe bufsz Thread) (w : Thread) :
    (s.wakeWriter.writers w).Wakes ↔ (s.writers w).Wakes := by
  have resume (pc : PipeWriter) : pc.resume.Wakes ↔ pc.Wakes := by cases pc <;> exact Iff.rfl
  cases queue : s.writerQueue.waitingList with
  | nil => simp only [wakeWriter, queue]
  | cons v rest =>
    simp only [wakeWriter, queue]
    by_cases same : w = v
    · rw [same, Function.update_self, resume]
    · rw [Function.update_of_ne same]

/-- Who is woken is taken off the queue. -/
theorem wakeWriter_listed {s : Pipe bufsz Thread} (listed : s.Listed) : s.wakeWriter.Listed := by
  have distinct := listed.distinct
  have writers := listed.writers
  refine ⟨fun w => ?_, ?_, listed.reader⟩
  · cases queue : s.writerQueue.waitingList with
    | nil =>
      rw [queue] at writers
      simp only [wakeWriter, Wqueue.wakeup, queue, List.tail_nil, writers]
    | cons v rest =>
      rw [queue] at writers distinct
      simp only [wakeWriter, Wqueue.wakeup, queue, List.tail_cons]
      by_cases same : w = v
      · subst same
        have asleep := (writers w).mp List.mem_cons_self
        rw [Function.update_self]
        refine iff_of_false (List.nodup_cons.mp distinct).1 ?_
        obtain ⟨rest, here⟩ := asleep.eq
        rw [here]
        exact not_false
      · rw [Function.update_of_ne same, ← writers, List.mem_cons]
        exact ⟨.inr, fun member => member.resolve_left same⟩
  · exact distinct.sublist (List.tail_sublist _)

/-- After a wake-up either a thread goes on, or nobody sleeps or is about to. -/
theorem wakeWriter_alert {s : Pipe bufsz Thread} (listed : s.Listed)
    (drowsy : (s.wakeWriter.writers w).Drowsy s.wakeWriter.writerQueue.flag) :
    ∃ v, (s.wakeWriter.writers v).Pushes := by
  cases queue : s.writerQueue.waitingList with
  | nil =>
    have awake : ¬ (s.writers w).Sleeps := fun asleep => by
      have member := (listed.writers w).mpr asleep
      rw [queue] at member
      exact List.not_mem_nil member
    simp only [wakeWriter, queue, Wqueue.wakeup] at drowsy
    cases here : s.writers w with
    | asleep rest => exact absurd (by rw [here]; trivial) awake
    | _ => simp [here, PipeWriter.Drowsy] at drowsy
  | cons v rest =>
    have asleep := (listed.writers v).mp (queue ▸ List.mem_cons_self)
    refine ⟨v, ?_⟩
    simp only [wakeWriter, queue, Function.update_self]
    obtain ⟨data, here⟩ := asleep.eq
    rw [here]
    trivial

/-- A thread that takes another turn in its call is still where it was in the queue. -/
theorem listed_elsewhere {s : Pipe bufsz Thread} (listed : s.Listed) (here : s.writers w = old)
    (before : ¬ old.Sleeps) (after : ¬ new.Sleeps) (v : Thread) :
    v ∈ s.writerQueue.waitingList ↔ (Function.update s.writers w new v).Sleeps := by
  by_cases same : v = w
  · subst same
    rw [Function.update_self, listed.writers, here]
    exact iff_of_false before after
  · rw [Function.update_of_ne same]
    exact listed.writers v

theorem WriterMoves.listed {s t : Pipe bufsz Thread} (moves : WriterMoves s w t) (listed : s.Listed) : t.Listed := by
  have woken := (wakeReader_listed listed).2
  cases moves with
  | put here unlocked => exact ⟨listed_elsewhere listed here not_false not_false, listed.distinct, listed.reader⟩
  | finish here => exact ⟨listed_elsewhere listed here not_false not_false, listed.distinct, woken⟩
  | wake rest here => exact ⟨listed_elsewhere listed here not_false not_false, listed.distinct, woken⟩
  | pass here => exact ⟨listed_elsewhere listed here not_false not_false, listed.distinct, listed.reader⟩
  | run here => exact ⟨listed_elsewhere listed here not_false not_false, listed.distinct, listed.reader⟩
  | sleep here =>
    have new : w ∉ s.writerQueue.waitingList := by
      rw [listed.writers, here]
      exact not_false
    refine ⟨fun v => ?_, ?_, listed.reader⟩
    · simp only [Wqueue.add, List.mem_append, List.mem_singleton]
      by_cases same : v = w
      · subst same
        rw [Function.update_self]
        exact iff_of_true (.inr rfl) trivial
      · rw [Function.update_of_ne same, or_iff_left same]
        exact listed.writers v
    · refine List.nodup_append.mpr ⟨listed.distinct, List.pairwise_singleton _ w, ?_⟩
      rintro v member _ mine rfl
      exact new (List.mem_singleton.mp mine ▸ member)

theorem ReaderMoves.listed {s t : Pipe bufsz Thread} (moves : ReaderMoves s t) (listed : s.Listed) : t.Listed := by
  have queue := listed.reader
  have woken := wakeWriter_listed listed
  cases moves with
  | take here => exact ⟨listed.writers, listed.distinct, by rw [queue, here]; rfl⟩
  | miss here => exact ⟨listed.writers, listed.distinct, by rw [queue, here]; rfl⟩
  | release here => exact ⟨woken.writers, woken.distinct, by rw [wakeWriter, queue, here]; rfl⟩
  | wake here => exact ⟨woken.writers, woken.distinct, by rw [wakeWriter, queue, here]; rfl⟩
  | pass here => exact ⟨listed.writers, listed.distinct, by rw [Wqueue.clear, queue, here]; rfl⟩
  | sleep here => exact ⟨listed.writers, listed.distinct, by rw [Wqueue.add, queue, here]; rfl⟩
  | run here => exact ⟨listed.writers, listed.distinct, by rw [Wqueue.clear, queue, here]; rfl⟩

/-- Where nobody was drowsy at `w` without being drowsy before, the others are attended
as they were. -/
theorem Attended.others {s : Pipe bufsz Thread} (attended : s.Attended) (here : s.writers w = old)
    (still : ¬ old.Pushes) (before : new.Drowsy s.writerQueue.flag → old.Drowsy s.writerQueue.flag)
    (drowsy : (Function.update s.writers w new v).Drowsy s.writerQueue.flag) :
    s.fifo.held ≠ [] ∨ s.reader.locks = true ∨ ∃ v, (Function.update s.writers w new v).Pushes := by
  have was : (s.writers v).Drowsy s.writerQueue.flag := by
    by_cases same : v = w
    · subst same
      rw [Function.update_self] at drowsy
      exact here ▸ before drowsy
    · rwa [Function.update_of_ne same] at drowsy
  exact (attended.writers v was).imp_right (.imp_right fun pushes => exists_update pushes (here ▸ still))

theorem Attended.wakes {s : Pipe bufsz Thread} (attended : s.Attended) (here : s.writers w = old)
    (still : ¬ old.Wakes) (drowsy : s.reader.Drowsy s.readerQueue.flag) :
    s.fifo.held = [] ∨ ∃ v, (Function.update s.writers w new v).Wakes :=
  (attended.reader drowsy).imp_right fun wakes => exists_update wakes (here ▸ still)

/-- After a store there is data. -/
theorem put_ne_nil (fifo : RingBuffer bufsz) (rest : Rest) : (fifo.put rest.1).2.held ≠ [] := by
  have positive := fifo.positive
  have count := fifo.spaceLen_eq
  have some_left := List.length_pos_iff.mpr rest.2
  refine List.length_pos_iff.mp ?_
  rw [(fifo.put_held rest.1).2, List.length_append, List.length_take]
  omega

/-- Nothing is got only where there is nothing. -/
theorem get_nil {fifo : RingBuffer bufsz} {count : Count} (got : (fifo.get count).1 = []) : fifo.held = [] := by
  rw [(fifo.get_held count).1] at got
  exact (List.take_eq_nil_iff.mp got).resolve_left (Nat.pos_iff_ne_zero.mp count.2)

theorem WriterMoves.attended {s t : Pipe bufsz Thread} (moves : WriterMoves s w t) (listed : s.Listed)
    (attended : s.Attended) : t.Attended := by
  have alert := (wakeReader_listed listed).1
  have locks := s.wakeReader_locks
  cases moves with
  | @put rest here unlocked =>
    have wakes := @exists_self _ _ PipeWriter.Wakes s.writers w (.wake (rest.1.drop (s.fifo.put rest.1).1)) trivial
    exact ⟨fun _ _ => .inl (put_ne_nil s.fifo rest), fun _ => .inr wakes⟩
  | finish here =>
    refine ⟨fun v drowsy => ?_, fun drowsy => absurd drowsy alert⟩
    rw [locks]
    exact attended.others here not_false False.elim drowsy
  | wake rest here =>
    refine ⟨fun v drowsy => ?_, fun drowsy => absurd drowsy alert⟩
    rw [locks]
    exact attended.others here not_false (fun flag => ⟨rest.2, flag⟩) drowsy
  | @pass rest here =>
    have pushes := @exists_self _ _ PipeWriter.Pushes s.writers w (.put rest) trivial
    exact ⟨fun _ _ => .inr (.inr pushes), attended.wakes here not_false⟩
  | sleep here unwoken =>
    exact ⟨fun v drowsy => attended.others here not_false (fun _ => unwoken) drowsy, attended.wakes here not_false⟩
  | @run rest here =>
    have pushes := @exists_self _ _ PipeWriter.Pushes s.writers w (.put rest) trivial
    exact ⟨fun _ _ => .inr (.inr pushes), attended.wakes here not_false⟩

theorem ReaderMoves.attended {s t : Pipe bufsz Thread} (moves : ReaderMoves s t) (listed : s.Listed)
    (attended : s.Attended) : t.Attended := by
  have unlocked (open_now : s.reader.locks = false) (w : Thread)
      (drowsy : (s.writers w).Drowsy s.writerQueue.flag) : s.fifo.held ≠ [] ∨ ∃ v, (s.writers v).Pushes := by
    rcases attended.writers w drowsy with data | locked | pushes
    · exact .inl data
    · rw [open_now] at locked
      cases locked
    · exact .inr pushes
  cases moves with
  | take here => exact ⟨fun _ _ => .inr (.inl rfl), False.elim⟩
  | miss here got =>
    exact ⟨fun w drowsy => (unlocked (here ▸ rfl) w drowsy).imp_right .inr, fun _ => .inl (get_nil got)⟩
  | release here => exact ⟨fun w drowsy => .inr (.inr (wakeWriter_alert listed drowsy)), False.elim⟩
  | wake here =>
    refine ⟨fun w drowsy => .inr (.inr (wakeWriter_alert listed drowsy)), fun drowsy => ?_⟩
    have before : s.reader.Drowsy s.readerQueue.flag := here ▸ drowsy
    exact (attended.reader before).imp_right fun ⟨w, wakes⟩ => ⟨w, (s.wakeWriter_wakes w).mpr wakes⟩
  | pass here => exact ⟨fun w drowsy => (unlocked (here ▸ rfl) w drowsy).imp_right .inr, False.elim⟩
  | sleep here unwoken =>
    refine ⟨fun w drowsy => (unlocked (here ▸ rfl) w drowsy).imp_right .inr, fun _ => attended.reader ?_⟩
    rw [here]
    exact unwoken
  | run here => exact ⟨fun w drowsy => (unlocked (here ▸ rfl) w drowsy).imp_right .inr, False.elim⟩

theorem step_attended {s t : Pipe bufsz Thread} (both : s.Listed ∧ s.Attended) (stepped : s.step l = some t) :
    t.Listed ∧ t.Attended := by
  obtain ⟨listed, attended⟩ := both
  cases l with
  | writer w =>
    have moves := writerStep_moves stepped
    exact ⟨moves.listed listed, moves.attended listed attended⟩
  | reader =>
    have moves := readerStep_moves stepped
    exact ⟨moves.listed listed, moves.attended listed attended⟩
  | write w data =>
    simp only [step] at stepped
    split at stepped
    · rename_i here
      cases stepped
      have pushes := @exists_self _ _ PipeWriter.Pushes s.writers w (.put data) trivial
      exact ⟨⟨listed_elsewhere listed here not_false not_false, listed.distinct, listed.reader⟩,
        ⟨fun _ _ => .inr (.inr pushes), attended.wakes here not_false⟩⟩
    · cases stepped
  | read count =>
    simp only [step] at stepped
    split at stepped
    · rename_i here
      cases stepped
      refine ⟨⟨listed.writers, listed.distinct, by rw [listed.reader, here]; rfl⟩, ⟨fun w drowsy => ?_, False.elim⟩⟩
      have was := attended.writers w drowsy
      rwa [here] at was
    · cases stepped

/-- No thread can take a step in its call. -/
def Still (s : Pipe bufsz Thread) : Prop := (∀ w, s.writerStep w = none) ∧ s.readerStep = none

theorem readerStep_none {s : Pipe bufsz Thread} (stuck : s.readerStep = none) :
    s.reader = .idle ∨ s.reader.Sleeps := by
  cases here : s.reader with
  | idle => exact .inl rfl
  | asleep count => exact .inr trivial
  | get count =>
    simp only [readerStep, here] at stuck
    split at stuck <;> cases stuck
  | wait count =>
    simp only [readerStep, here] at stuck
    split at stuck <;> cases stuck
  | _ => simp only [readerStep, here, reduceCtorEq] at stuck

theorem writerStep_none {s : Pipe bufsz Thread} (stuck : s.writerStep w = none) (unlocked : s.reader.locks = false) :
    s.writers w = .idle ∨ (s.writers w).Sleeps := by
  cases here : s.writers w with
  | idle => exact .inl rfl
  | asleep rest => exact .inr trivial
  | put rest => simp only [writerStep, here, unlocked, Bool.false_eq_true, if_false, reduceCtorEq] at stuck
  | wait rest =>
    simp only [writerStep, here] at stuck
    split at stuck <;> cases stuck
  | _ => simp only [writerStep, here, reduceCtorEq] at stuck

/-- What was stored of the data of one thread. -/
def storedBy (s : Pipe bufsz Thread) (w : Thread) : List UInt8 :=
  (s.stored.filter fun entry => entry.1 = w).map Prod.snd

/-- The bytes stored are those read, those in hand and those in the buffer, and of each
thread's data they are what is not left. -/
structure Streams (s : Pipe bufsz Thread) : Prop where
  bytes : s.stored.map Prod.snd = s.delivered ++ (s.reader.inHand ++ s.fifo.held)
  parts : ∀ w, s.given w = s.storedBy w ++ (s.writers w).left

omit [DecidableEq Thread] in
theorem wakeReader_inHand (s : Pipe bufsz Thread) : s.wakeReader.reader.inHand = s.reader.inHand := by
  have resume (r : PipeReader) : r.resume.inHand = r.inHand := by cases r <;> rfl
  simp only [wakeReader]
  split
  · rfl
  · exact resume s.reader

theorem wakeWriter_left (s : Pipe bufsz Thread) (w : Thread) :
    (s.wakeWriter.writers w).left = (s.writers w).left := by
  have resume (pc : PipeWriter) : pc.resume.left = pc.left := by cases pc <;> rfl
  cases queue : s.writerQueue.waitingList with
  | nil => simp only [wakeWriter, queue]
  | cons v rest =>
    simp only [wakeWriter, queue]
    by_cases same : w = v
    · rw [same, Function.update_self, resume]
    · rw [Function.update_of_ne same]

/-- Nothing is left over or lost where a thread goes on with the same data. -/
theorem Streams.goes_on {s : Pipe bufsz Thread} (streams : s.Streams) (here : s.writers w = old)
    (same_left : new.left = old.left) (v : Thread) :
    s.given v = s.storedBy v ++ (Function.update s.writers w new v).left := by
  by_cases same : v = w
  · subst same
    rw [Function.update_self, same_left, ← here]
    exact streams.parts v
  · rw [Function.update_of_ne same]
    exact streams.parts v

theorem WriterMoves.streams {s t : Pipe bufsz Thread} (moves : WriterMoves s w t) (streams : s.Streams) : t.Streams := by
  have bytes := streams.bytes
  have inHand := s.wakeReader_inHand
  cases moves with
  | @put rest here unlocked =>
    obtain ⟨len, held⟩ := s.fifo.put_held rest.1
    have count : rest.1.take s.fifo.spaceLen = rest.1.take (s.fifo.put rest.1).1 := by
      rw [len, List.take_eq_take_min]
    have empty_handed : s.reader.inHand = [] := by
      cases reader : s.reader with
      | taken data => rw [reader] at unlocked; cases unlocked
      | _ => rfl
    refine ⟨?_, fun v => ?_⟩
    · simp only [List.map_append, List.map_map, bytes, empty_handed, List.nil_append, held, count, List.append_assoc]
      congr 2
      exact List.map_id' _
    · have before := streams.parts v
      by_cases same : v = w
      · subst same
        rw [here] at before
        have mine : ((rest.1.take (s.fifo.put rest.1).1).map fun byte => (v, byte)).filter
            (fun entry => decide (entry.1 = v)) = (rest.1.take (s.fifo.put rest.1).1).map fun byte => (v, byte) := by
          rw [List.filter_eq_self]
          intro entry member
          obtain ⟨byte, _, rfl⟩ := List.mem_map.mp member
          exact decide_eq_true rfl
        have image : ((rest.1.take (s.fifo.put rest.1).1).map fun byte => (v, byte)).map Prod.snd =
            rest.1.take (s.fifo.put rest.1).1 := by
          rw [List.map_map]
          exact List.map_id' _
        simp only [storedBy, List.filter_append, List.map_append, mine, image, Function.update_self,
          PipeWriter.left, List.append_assoc, List.take_append_drop]
        exact before
      · have others : ((rest.1.take (s.fifo.put rest.1).1).map fun byte => (w, byte)).filter
            (fun entry => decide (entry.1 = v)) = [] := by
          rw [List.filter_eq_nil_iff]
          intro entry member
          obtain ⟨byte, _, rfl⟩ := List.mem_map.mp member
          exact fun equal => same (of_decide_eq_true equal).symm
        simp only [storedBy, List.filter_append, others, List.append_nil, Function.update_of_ne same]
        exact before
  | finish here =>
    refine ⟨?_, streams.goes_on here rfl⟩
    rw [inHand]
    exact bytes
  | wake rest here =>
    refine ⟨?_, streams.goes_on here rfl⟩
    rw [inHand]
    exact bytes
  | pass here => exact ⟨bytes, streams.goes_on here rfl⟩
  | sleep here => exact ⟨bytes, streams.goes_on here rfl⟩
  | run here => exact ⟨bytes, streams.goes_on here rfl⟩

theorem ReaderMoves.streams {s t : Pipe bufsz Thread} (moves : ReaderMoves s t) (streams : s.Streams) : t.Streams := by
  have bytes := streams.bytes
  have woken (w : Thread) : s.given w = s.storedBy w ++ (s.wakeWriter.writers w).left := by
    rw [wakeWriter_left]
    exact streams.parts w
  cases moves with
  | @take count here data got =>
    have parts : data.1 ++ (s.fifo.get count).2.held = s.fifo.held := by
      rw [← got, (s.fifo.get_held count).1, (s.fifo.get_held count).2, List.take_append_drop]
    refine ⟨?_, streams.parts⟩
    change s.stored.map Prod.snd = s.delivered ++ (data.1 ++ (s.fifo.get count).2.held)
    rw [bytes, parts, here]
    rfl
  | release here =>
    refine ⟨?_, woken⟩
    rw [here] at bytes
    change s.stored.map Prod.snd = _
    rw [bytes, List.append_assoc]
    rfl
  | miss here => exact ⟨by rw [bytes, here]; rfl, streams.parts⟩
  | wake here => exact ⟨by rw [wakeWriter, bytes, here]; rfl, woken⟩
  | pass here => exact ⟨by rw [bytes, here]; rfl, streams.parts⟩
  | sleep here => exact ⟨by rw [bytes, here]; rfl, streams.parts⟩
  | run here => exact ⟨by rw [bytes, here]; rfl, streams.parts⟩

theorem step_streams {s t : Pipe bufsz Thread} (streams : s.Streams) (stepped : s.step l = some t) : t.Streams := by
  cases l with
  | writer w => exact (writerStep_moves stepped).streams streams
  | reader => exact (readerStep_moves stepped).streams streams
  | write w data =>
    simp only [step] at stepped
    split at stepped
    · rename_i here
      cases stepped
      refine ⟨streams.bytes, fun v => ?_⟩
      have before := streams.parts v
      by_cases same : v = w
      · subst same
        rw [here, PipeWriter.left, List.append_nil] at before
        simp only [Function.update_self, PipeWriter.left, before]
        rfl
      · simp only [Function.update_of_ne same, before]
        rfl
    · cases stepped
  | read count =>
    simp only [step] at stepped
    split at stepped
    · rename_i here
      cases stepped
      exact ⟨by rw [streams.bytes, here]; rfl, streams.parts⟩
    · cases stepped

section
variable {pool : List UInt8} {width : pool.length = bufsz} {positive : 0 < bufsz}

end

/-- Two threads write three bytes each into a pipe of two. Both sleep before the reader
wakes one of them. -/
def crowd : List (PipeLabel Bool) :=
  let three : Rest := ⟨[1, 2, 3], List.cons_ne_nil _ _⟩
  [.write true three, .writer true, .write false three, .writer false, .writer true, .writer true,
    .read ⟨2, Nat.two_pos⟩, .reader, .writer false, .writer false, .reader, .writer true, .writer true, .writer true]

end Pipe
end RemoteBoot.Kernel
