import Mathlib.Data.List.ReduceOption
import RemoteBoot.Transition
import RemoteBoot.Kernel.RingBuffer
import RemoteBoot.Kernel.Semaphore

/-! `console_rx_ind` and `console_getchar`. The interrupt puts each byte into the
FIFO and releases the semaphore once for it; a put into a full FIFO discards a
byte whose release has been counted. -/
namespace RemoteBoot.Console
open Kernel Transition

def consoleFifoSize : Nat := 256

/-- The FIFO and its semaphore, beside what was received and returned so far. -/
structure Rx where
  rxNotice : Semaphore
  consoleRxFifo : RingBuffer consoleFifoSize
  received : List UInt8
  returned : List UInt8

/-- What happens next: a receive interrupt with what each `rt_device_read` gives,
a call of `console_getchar`, or its return, with what `ch` held on the stack. -/
inductive Rx.Event where
  | interrupt (reads : List (Option UInt8))
  | call
  | back (stray : UInt8)

namespace Rx

def start (pool : List UInt8) (width : pool.length = consoleFifoSize) : Rx :=
  ⟨.empty, .init pool width (by decide), [], []⟩

/-- One turn of the loop in `console_rx_ind`. -/
def receive (s : Rx) : Option UInt8 → Rx
  | none => s
  | some ch => { s with
      consoleRxFifo := s.consoleRxFifo.putForce [ch]
      rxNotice := s.rxNotice.release
      received := s.received ++ [ch] }

def consoleRxInd (s : Rx) (reads : List (Option UInt8)) : Rx := reads.foldl receive s

def step (s : Rx) : Event → Option Rx
  | .interrupt reads => some (s.consoleRxInd reads)
  | .call => s.rxNotice.take.map fun rxNotice => { s with rxNotice }
  | .back stray => s.rxNotice.finish.map fun rxNotice =>
      let (_, ch, consoleRxFifo) := s.consoleRxFifo.getchar stray
      { s with rxNotice, consoleRxFifo, returned := s.returned ++ [ch] }

def held (s : Rx) : List UInt8 := s.consoleRxFifo.held

/-- The count of `rx_notice` is the number of bytes held, where a unit in hand
counts until its byte is out; and what was returned was received, in order. -/
structure Genuine (s : Rx) : Prop where
  balanced : s.rxNotice.pending = s.held.length
  ordered : s.returned.Sublist s.received

/-- The FIFO has room for what an interrupt brings, or the 16-bit count comes
round to its size. -/
def Admitted (s : Rx) : Event → Prop
  | .interrupt reads => s.held.length + reads.reduceOption.length ≤ consoleFifoSize ∨
      (s.held.length + reads.reduceOption.length) % 65536 = consoleFifoSize
  | .call | .back _ => True

/-- What was returned and what is held was received in this order. -/
def Inv (s : Rx) : Prop := (s.returned ++ s.held).Sublist s.received

theorem held_le (s : Rx) : s.held.length ≤ consoleFifoSize := s.consoleRxFifo.length_held_le

theorem receive_held (s : Rx) (ch : UInt8) :
    (s.receive (some ch)).held.length = min consoleFifoSize (s.held.length + 1) ∧
      (s.receive (some ch)).held.Sublist (s.held ++ [ch]) := by
  have bound := s.held_le
  have space : s.consoleRxFifo.spaceLen = consoleFifoSize - s.held.length := by
    rw [held, RingBuffer.length_held]
    rfl
  by_cases room : s.held.length < consoleFifoSize
  · have put : (s.receive (some ch)).held = s.held ++ [ch] :=
      s.consoleRxFifo.putForce_room (by rw [space, List.length_singleton]; omega)
    rw [put, List.length_append, List.length_singleton]
    exact ⟨by omega, List.Sublist.refl _⟩
  · have put : (s.receive (some ch)).held = s.held.drop 1 ++ [ch] :=
      s.consoleRxFifo.putForce_full (by rw [space]; omega) ch
    rw [put, List.length_append, List.length_singleton, List.length_drop]
    have full : s.held.length = consoleFifoSize := Nat.le_antisymm bound (Nat.le_of_not_lt room)
    rw [full]
    exact ⟨by decide, (List.drop_sublist 1 _).append (List.Sublist.refl _)⟩

/-- All that an interrupt does. -/
structure Received (s : Rx) (bytes : List UInt8) (t : Rx) : Prop where
  returned : t.returned = s.returned
  received : t.received = s.received ++ bytes
  width : t.held.length = min consoleFifoSize (s.held.length + bytes.length)
  held : t.held.Sublist (s.held ++ bytes)
  count : t.rxNotice.pending % 65536 = (s.rxNotice.pending + bytes.length) % 65536
  idle : bytes = [] → t.rxNotice = s.rxNotice
  away : s.rxNotice.taker = .away → t.rxNotice.taker = .away

theorem consoleRxInd_received (s : Rx) (reads : List (Option UInt8)) :
    Received s reads.reduceOption (s.consoleRxInd reads) := by
  induction reads generalizing s with
  | nil =>
    refine ⟨rfl, (List.append_nil _).symm, (Nat.min_eq_right s.held_le).symm, ?_, rfl, fun _ => rfl, id⟩
    rw [List.reduceOption_nil, List.append_nil]
    exact List.Sublist.refl _
  | cons read reads ih =>
    cases read with
    | none => exact ih s
    | some ch =>
      obtain ⟨width, cells⟩ := s.receive_held ch
      have counted := s.rxNotice.release_pending_mod
      have later := ih (s.receive (some ch))
      rw [List.reduceOption_cons_of_some]
      refine ⟨later.returned, ?_, ?_, ?_, ?_, ?_, ?_⟩
      · exact later.received.trans (List.append_assoc _ _ _)
      · rw [consoleRxInd, List.foldl_cons, List.length_cons]
        have := later.width
        rw [consoleRxInd] at this
        omega
      · have joined := later.held.trans (cells.append (List.Sublist.refl reads.reduceOption))
        rwa [List.append_assoc] at joined
      · have after := later.count
        have released : (s.receive (some ch)).rxNotice.pending = s.rxNotice.release.pending := rfl
        rw [List.length_cons]
        rw [released] at after
        change (consoleRxInd (s.receive (some ch)) reads).rxNotice.pending % 65536 = _
        omega
      · exact fun empty => absurd empty (List.cons_ne_nil _ _)
      · exact fun away => later.away (Semaphore.release_away away)

theorem Inv.interrupt {s : Rx} (inv : s.Inv) (reads : List (Option UInt8)) :
    (s.consoleRxInd reads).Inv := by
  have all := s.consoleRxInd_received reads
  rw [Inv, all.returned, all.received]
  refine ((List.Sublist.refl s.returned).append all.held).trans ?_
  rw [← List.append_assoc]
  exact inv.append (List.Sublist.refl _)

/-- The count agrees with the content after an interrupt exactly when it did not
bring too much. -/
theorem interrupt_balanced_iff {s : Rx} (balanced : s.rxNotice.pending = s.held.length)
    (reads : List (Option UInt8)) :
    (s.consoleRxInd reads).rxNotice.pending = (s.consoleRxInd reads).held.length ↔
      s.Admitted (.interrupt reads) := by
  have all := s.consoleRxInd_received reads
  have width := all.width
  have count := all.count
  have bound := s.held_le
  have small := (s.consoleRxInd reads).rxNotice.pending_le
  rw [← balanced] at bound
  rw [Admitted, width, ← balanced]
  by_cases nothing : reads.reduceOption = []
  · rw [all.idle nothing, nothing, List.length_nil, Nat.add_zero, Nat.min_eq_right bound]
    exact iff_of_true rfl (.inl bound)
  · have some_read : 0 < reads.reduceOption.length := List.length_pos_iff.mpr nothing
    simp only [consoleFifoSize] at bound ⊢
    omega

/-- A unit in hand stands for the oldest byte. -/
theorem back_spec {s t : Rx} (balanced : s.rxNotice.pending = s.held.length)
    (stepped : s.step (.back stray) = some t) :
    ∃ ch, s.held = ch :: t.held ∧ t.returned = s.returned ++ [ch] ∧ t.received = s.received ∧
      t.rxNotice.pending = t.held.length := by
  obtain ⟨rxNotice, finished, same⟩ := Option.map_eq_some_iff.mp stepped
  obtain ⟨_, count⟩ := Semaphore.finish_spec finished
  cases cells : s.held with
  | nil =>
    rw [cells, List.length_nil] at balanced
    omega
  | cons ch rest =>
    obtain ⟨after, got, left⟩ := s.consoleRxFifo.getchar_held cells stray
    rw [got] at same
    obtain rfl := same
    rw [cells, List.length_cons] at balanced
    refine ⟨ch, congrArg (ch :: ·) left.symm, rfl, rfl, ?_⟩
    change rxNotice.pending = after.held.length
    rw [left]
    omega

theorem step_inv {s t : Rx} {event : Event} (inv : s.Inv) (genuine : s.Genuine)
    (stepped : s.step event = some t) : t.Inv := by
  cases event with
  | interrupt reads =>
    cases stepped
    exact inv.interrupt reads
  | call =>
    obtain ⟨rxNotice, _, rfl⟩ := Option.map_eq_some_iff.mp stepped
    exact inv
  | back stray =>
    obtain ⟨ch, cells, returned, received, _⟩ := back_spec genuine.balanced stepped
    rw [Inv, cells] at inv
    rwa [Inv, returned, received, List.append_assoc]

theorem Inv.ordered {s : Rx} (inv : s.Inv) : s.returned.Sublist s.received :=
  (List.sublist_append_left _ _).trans inv

theorem genuine_step_iff {s t : Rx} {event : Event} (inv : s.Inv) (genuine : s.Genuine)
    (stepped : s.step event = some t) : t.Genuine ↔ s.Admitted event := by
  have ordered := (step_inv inv genuine stepped).ordered
  have only : t.Genuine ↔ t.rxNotice.pending = t.held.length :=
    ⟨fun genuine => genuine.balanced, fun balanced => ⟨balanced, ordered⟩⟩
  rw [only]
  cases event with
  | interrupt reads =>
    cases stepped
    exact interrupt_balanced_iff genuine.balanced reads
  | call =>
    obtain ⟨rxNotice, taken, rfl⟩ := Option.map_eq_some_iff.mp stepped
    obtain ⟨_, _, kept⟩ := Semaphore.take_spec taken
    exact iff_of_true (kept.trans genuine.balanced) trivial
  | back stray =>
    obtain ⟨_, _, _, _, balanced⟩ := back_spec genuine.balanced stepped
    exact iff_of_true balanced trivial

/-- A call with a unit to take goes through and returns something. -/
theorem call_returns {s : Rx} (away : s.rxNotice.taker = .away)
    (some_left : 0 < s.rxNotice.pending) (stray : UInt8) :
    ∃ middle t, s.step .call = some middle ∧ middle.step (.back stray) = some t ∧
      t.rxNotice.taker = .away ∧ s.rxNotice.pending = t.rxNotice.pending + 1 ∧
      t.received = s.received ∧ t.held = s.held.drop 1 ∧
      t.returned = s.returned ++ [s.held.headD stray] := by
  obtain ⟨taken, take, through, kept⟩ := Semaphore.take_through away some_left
  obtain ⟨back, finish, home, count⟩ := Semaphore.finish_through through
  have called : s.step .call = some { s with rxNotice := taken } := by
    rw [step, take, Option.map_some]
  have pending := kept.symm.trans count
  cases cells : s.held with
  | nil =>
    have got := s.consoleRxFifo.getchar_empty cells stray
    exact ⟨_, { s with rxNotice := back, returned := s.returned ++ [stray] }, called,
      by simp only [step, finish, got, Option.map_some], home, pending, rfl, cells, rfl⟩
  | cons ch rest =>
    obtain ⟨after, got, left⟩ := s.consoleRxFifo.getchar_held cells stray
    exact ⟨_, ⟨back, after, s.received, s.returned ++ [ch]⟩, called,
      by simp only [step, finish, got, Option.map_some], home, pending, rfl, left, rfl⟩

/-- With more counted than held, calls go on to return what the stack held. -/
theorem drained {s : Rx} (away : s.rxNotice.taker = .away)
    (more : s.held.length < s.rxNotice.pending) (stray : UInt8) :
    ∃ events t, Run step Free s events t ∧ t.received = s.received ∧ stray ∈ t.returned := by
  generalize cells : s.held = bytes at more
  induction bytes generalizing s with
  | nil =>
    obtain ⟨_, t, call, back, _, _, received, _, returned⟩ := call_returns away more stray
    refine ⟨_, t, .next trivial call (.next trivial back (.refl t)), received, ?_⟩
    rw [returned, cells]
    exact List.mem_append_right _ List.mem_cons_self
  | cons ch rest ih =>
    obtain ⟨_, t, call, back, home, count, received, left, _⟩ :=
      call_returns away (Nat.lt_of_le_of_lt (Nat.zero_le _) more) stray
    rw [List.length_cons] at more
    obtain ⟨events, u, run, same, invented⟩ :=
      ih home (by rw [left, cells, List.drop_one, List.tail_cons]) (by omega)
    exact ⟨_, u, .next trivial call (.next trivial back run), same.trans received, invented⟩

theorem start_inv {pool : List UInt8} (width : pool.length = consoleFifoSize) :
    (start pool width).Inv ∧ (start pool width).Genuine := by
  have nothing : (start pool width).held = [] := rfl
  exact ⟨by rw [Inv, nothing]; exact List.Sublist.refl _, by rw [nothing]; rfl, List.Sublist.refl _⟩

end Rx

/-- Console input is never invented exactly when no interrupt brings more than
the FIFO has room for. -/
theorem never_invented_iff {pool : List UInt8} (width : pool.length = consoleFifoSize)
    {events : List Rx.Event} {t : Rx} (run : Run Rx.step Free (.start pool width) events t) :
    Always Rx.step Rx.Genuine (.start pool width) events ↔
      Run Rx.step Rx.Admitted (.start pool width) events t := by
  obtain ⟨inv, genuine⟩ := Rx.start_inv width
  exact run.always_iff Rx.Inv (fun inv genuine stepped _ => Rx.step_inv inv genuine stepped)
    Rx.genuine_step_iff inv genuine

/-- A console that was just set up, over a pool of zeros. -/
def blank : Rx := .start (List.replicate consoleFifoSize 0) List.length_replicate

theorem never_invented_iff_letter : ∃ t, t.returned = [97] ∧
    (Always Rx.step Rx.Genuine blank [.interrupt [some 97], .call, .back 0] ↔
      Run Rx.step Rx.Admitted blank [.interrupt [some 97], .call, .back 0] t) := by
  obtain ⟨t, run, returned⟩ := Run.of_any
    (show (([.interrupt [some 97], .call, .back 0] : List Rx.Event).foldlM Rx.step blank).any
      (fun t => t.returned == [97]) = true by decide +kernel)
  exact ⟨t, eq_of_beq returned, never_invented_iff List.length_replicate run⟩

/-- 257 times the letter `a` before the first call: the count outruns the FIFO,
and calls return the 255 that was on the stack. -/
theorem invents : ∃ events t, Run Rx.step Free blank events t ∧
    255 ∈ t.returned ∧ 255 ∉ t.received ∧
    ¬ Always Rx.step Rx.Genuine blank events := by
  let burst : List (Option UInt8) := List.replicate 257 (some 97)
  let after := blank.consoleRxInd burst
  have all : Rx.Received blank burst.reduceOption after :=
    blank.consoleRxInd_received burst
  have length : burst.reduceOption.length = 257 := by decide +kernel
  have fresh : blank.rxNotice.pending = 0 := rfl
  have balanced : blank.rxNotice.pending = blank.held.length :=
    (Rx.start_inv List.length_replicate).2.balanced
  have width : after.held.length = 256 := by
    rw [all.width, length, ← balanced, fresh]
    rfl
  have count : after.rxNotice.pending = 257 := by
    have small := after.rxNotice.pending_le
    have mod := all.count
    rw [length] at mod
    omega
  have burstStep : blank.step (.interrupt burst) = some after := rfl
  obtain ⟨events, t, run, received, invented⟩ :=
    Rx.drained (all.away rfl) (by rw [width, count]; decide) 255
  refine ⟨_, t, .next trivial burstStep run, invented, ?_, ?_⟩
  · rw [received, all.received]
    intro member
    have read := List.reduceOption_mem_iff.mp member
    exact absurd (List.eq_of_mem_replicate read) (by decide)
  · intro always
    have same := (always.2 _ burstStep).head.balanced
    rw [width, count] at same
    exact absurd same (by decide)

end RemoteBoot.Console
