import Mathlib.Data.List.Basic
import RemoteBoot.Transition

/-! `config_init` and `config_deinit` around the input loop, statement by
statement, and the receive interrupt of the console between any two of them.
The callback is installed before the semaphore and the ring buffer it uses are
made; on the way out it is removed before they go. -/
namespace RemoteBoot.Console
open Transition

/-- The last statement of a session that is done. `idle` is outside a session;
`menu` is the input loop, `left` its end by ESC. -/
inductive Pc where
  | idle
  | masked | saved | installed | unmasked | noticed | menu
  | left | remasked | restored | reopened | detached
  deriving DecidableEq, Repr

/-- `rx_indicate` of the console device: the shell's callback or ours. -/
inductive RxIndicate where
  | shell | consoleRxInd
  deriving DecidableEq, Repr

/-- `buffers` are the ring buffers created and not destroyed, `created` numbers
them. `touched` records for each run of the callback whether what it uses was there. -/
structure Receive where
  pc : Pc
  interrupts : Bool
  intLvl : Bool
  rxIndicate : RxIndicate
  consoleRxIndBak : RxIndicate
  rxNotice : Bool
  consoleRxFifo : Option Nat
  buffers : List Nat
  created : Nat
  touched : List Bool
  deriving DecidableEq

inductive Happening where
  /-- The next statement; whether memory for a ring buffer is there. -/
  | statement (memory : Bool)
  | interrupt

namespace Receive

def initial : Receive := ⟨.idle, true, true, .shell, .shell, false, none, [], 0, []⟩

/-- The semaphore is initialised and the pointer leads to a live ring buffer. -/
def available (s : Receive) : Bool :=
  s.rxNotice && s.consoleRxFifo.any (· ∈ s.buffers)

def statement (s : Receive) (memory : Bool) : Option Receive :=
  match s.pc with
  | .idle => some { s with pc := .masked, intLvl := s.interrupts, interrupts := false }
  | .masked => some { s with pc := .saved, consoleRxIndBak := s.rxIndicate }
  | .saved => some { s with pc := .installed, rxIndicate := .consoleRxInd }
  | .installed => some { s with pc := .unmasked, interrupts := s.intLvl }
  | .unmasked => some { s with pc := .noticed, rxNotice := true }
  | .noticed =>
    if memory then
      some { s with pc := .menu, consoleRxFifo := some s.created, created := s.created + 1,
                    buffers := s.created :: s.buffers }
    else some { s with pc := .menu, consoleRxFifo := none }
  | .menu => some { s with pc := .left }
  | .left => some { s with pc := .remasked, intLvl := s.interrupts, interrupts := false }
  | .remasked => some { s with pc := .restored, rxIndicate := s.consoleRxIndBak }
  | .restored => some { s with pc := .reopened, interrupts := s.intLvl }
  | .reopened => some { s with pc := .detached, rxNotice := false }
  | .detached => do
    -- `rt_ringbuffer_destroy` asserts a pointer and leaves it as it is.
    let fifo ← s.consoleRxFifo
    some { s with pc := .idle, buffers := s.buffers.filter (· ≠ fifo) }

def step (s : Receive) : Happening → Option Receive
  | .statement memory => s.statement memory
  | .interrupt =>
    if s.interrupts then
      match s.rxIndicate with
      | .shell => some s
      | .consoleRxInd => some { s with touched := s.touched ++ [s.available] }
    else none

/-- Whenever an interrupt would run the callback, what it uses is there. -/
def Ready (s : Receive) : Prop :=
  s.interrupts = true → s.rxIndicate = .consoleRxInd → s.available = true

/-- Interrupts are on again and the ring buffer is not yet there, or there was no
memory for it. -/
def Window (s : Receive) : Prop :=
  s.pc = .unmasked ∨ s.pc = .noticed ∨ ((s.pc = .menu ∨ s.pc = .left) ∧ s.consoleRxFifo = none)

end Receive

/-- Which of the four facts hold after a statement. -/
def Pc.isMasked : Pc → Bool
  | .masked | .saved | .installed | .remasked | .restored => true
  | _ => false

def Pc.isInstalled : Pc → Bool
  | .installed | .unmasked | .noticed | .menu | .left | .remasked => true
  | _ => false

def Pc.hasNotice : Pc → Bool
  | .noticed | .menu | .left | .remasked | .restored | .reopened => true
  | _ => false

def Pc.hasFifo : Pc → Bool
  | .menu | .left | .remasked | .restored | .reopened | .detached => true
  | _ => false

namespace Receive

/-- The flags follow the statement that was done last. -/
structure Flags (s : Receive) : Prop where
  interrupts : s.interrupts = !s.pc.isMasked
  level : s.pc.isMasked = true → s.intLvl = true
  indicate : s.rxIndicate = if s.pc.isInstalled then .consoleRxInd else .shell
  saved : s.pc ≠ .idle → s.pc ≠ .masked → s.consoleRxIndBak = .shell
  notice : s.rxNotice = s.pc.hasNotice

/-- The pointer leads to a live ring buffer, or nowhere, while the session has
one; at other times it never does. -/
structure Pointer (s : Receive) : Prop where
  live : s.pc.hasFifo = true → ∀ p ∈ s.consoleRxFifo, p ∈ s.buffers
  stale : s.pc.hasFifo = false → ∀ p ∈ s.consoleRxFifo, p ∉ s.buffers
  fresh : ∀ p ∈ s.buffers, p < s.created
  older : ∀ p ∈ s.consoleRxFifo, p < s.created

theorem initial_flags : initial.Flags := ⟨rfl, fun _ => rfl, rfl, fun _ _ => rfl, rfl⟩

theorem initial_pointer : initial.Pointer := ⟨nofun, nofun, nofun, nofun⟩

theorem statement_flags {s t : Receive} {memory : Bool} (flags : s.Flags)
    (done : s.statement memory = some t) : t.Flags := by
  obtain ⟨pc, interrupts, intLvl, rxIndicate, bak, rxNotice, fifo, buffers, created, touched⟩ := s
  obtain ⟨masks, level, indicate, saved, notice⟩ := flags
  cases pc <;> simp only [Pc.isMasked, Pc.isInstalled, Pc.hasNotice] at masks level indicate notice
  case noticed =>
    simp only [statement] at done
    split at done <;> cases done <;> constructor <;>
      simp_all [Pc.isMasked, Pc.isInstalled, Pc.hasNotice]
  case detached =>
    simp only [statement, Option.bind_eq_bind, Option.bind_eq_some_iff, Option.some.injEq] at done
    obtain ⟨p, _, rfl⟩ := done
    constructor <;> simp_all [Pc.isMasked, Pc.isInstalled, Pc.hasNotice]
  all_goals
    cases done
    constructor <;> simp_all [Pc.isMasked, Pc.isInstalled, Pc.hasNotice]

theorem statement_pointer {s t : Receive} {memory : Bool} (pointer : s.Pointer)
    (done : s.statement memory = some t) : t.Pointer := by
  obtain ⟨pc, interrupts, intLvl, rxIndicate, bak, rxNotice, fifo, buffers, created, touched⟩ := s
  obtain ⟨live, stale, fresh, older⟩ := pointer
  cases pc
  case noticed =>
    simp only [statement] at done
    split at done
    · cases done
      refine ⟨fun _ p here => ?_, fun absent => (by cases absent), fun p member => ?_,
        fun p here => ?_⟩
      · cases here
        exact List.mem_cons_self
      · rcases List.mem_cons.mp member with rfl | before
        · exact Nat.lt_succ_self _
        · exact Nat.lt_succ_of_lt (fresh p before)
      · cases here
        exact Nat.lt_succ_self _
    · cases done
      exact ⟨fun _ p here => (by cases here), fun absent => (by cases absent), fresh,
        fun p here => (by cases here)⟩
  case detached =>
    simp only [statement, Option.bind_eq_bind, Option.bind_eq_some_iff, Option.some.injEq] at done
    obtain ⟨p, here, rfl⟩ := done
    refine ⟨fun absent => (by cases absent), fun _ q same member => ?_, fun q member => ?_, older⟩
    · have : q = p := Option.some.inj (same.symm.trans here)
      simp [this] at member
    · exact fresh q (List.mem_of_mem_filter member)
  all_goals
    cases done
    exact ⟨live, stale, fresh, older⟩

theorem available_iff (s : Receive) : s.available = true ↔
    s.rxNotice = true ∧ ∃ p ∈ s.consoleRxFifo, p ∈ s.buffers := by
  simp only [available, Bool.and_eq_true, Option.any_eq_true, decide_eq_true_eq, Option.mem_def]

theorem ready_iff {s : Receive} (flags : s.Flags) (pointer : s.Pointer) : s.Ready ↔ ¬ s.Window := by
  have made : s.pc.hasFifo = true →
      ((∃ p ∈ s.consoleRxFifo, p ∈ s.buffers) ↔ ¬ s.consoleRxFifo = none) := by
    intro session
    have live := pointer.live session
    cases fifo : s.consoleRxFifo with
    | none => simp
    | some p => simpa [fifo] using live
  unfold Ready Window
  rw [available_iff, flags.interrupts, flags.indicate, flags.notice]
  cases at_ : s.pc
  case unmasked => simp [Pc.isMasked, Pc.isInstalled, Pc.hasNotice]
  case noticed =>
    have := pointer.stale (by rw [at_]; rfl)
    simpa [Pc.isMasked, Pc.isInstalled, Pc.hasNotice] using this
  case menu => simpa [Pc.isMasked, Pc.isInstalled, Pc.hasNotice] using made (by rw [at_]; rfl)
  case left => simpa [Pc.isMasked, Pc.isInstalled, Pc.hasNotice] using made (by rw [at_]; rfl)
  all_goals simp [Pc.isMasked, Pc.isInstalled, Pc.hasNotice]

theorem statement_touched {s t : Receive} {memory : Bool} (done : s.statement memory = some t) :
    t.touched = s.touched := by
  simp only [statement] at done
  split at done
  case h_6 => split at done <;> cases done <;> rfl
  case h_12 =>
    simp only [Option.bind_eq_bind, Option.bind_eq_some_iff, Option.some.injEq] at done
    obtain ⟨p, _, rfl⟩ := done
    rfl
  all_goals
    cases done
    rfl

def OutsideWindow (s : Receive) : Happening → Prop
  | .statement _ => True
  | .interrupt => ¬ s.Window

def Untouched (s : Receive) : Prop := ∀ found ∈ s.touched, found = true

theorem step_inv {s t : Receive} {h : Happening} (inv : s.Flags ∧ s.Pointer)
    (done : s.step h = some t) : t.Flags ∧ t.Pointer := by
  cases h with
  | statement memory => exact ⟨statement_flags inv.1 done, statement_pointer inv.2 done⟩
  | interrupt =>
    simp only [step] at done
    split at done
    · split at done <;> cases done
      · exact inv
      · obtain ⟨⟨masks, level, indicate, saved, notice⟩, ⟨live, stale, fresh, older⟩⟩ := inv
        exact ⟨⟨masks, level, indicate, saved, notice⟩, ⟨live, stale, fresh, older⟩⟩
    · cases done

theorem step_untouched {s t : Receive} {h : Happening} (inv : s.Flags ∧ s.Pointer)
    (done : s.step h = some t) : t.Untouched ↔ s.Untouched ∧ s.OutsideWindow h := by
  cases h with
  | statement memory =>
    unfold Untouched
    rw [statement_touched done]
    exact (and_iff_left trivial).symm
  | interrupt =>
    simp only [step] at done
    split at done
    · rename_i unmasked
      rw [OutsideWindow, ← ready_iff inv.1 inv.2]
      split at done <;> rename_i indicate <;> cases done
      · refine (and_iff_left fun _ ours => ?_).symm
        rw [indicate] at ours
        cases ours
      · have ready : s.Ready ↔ s.available = true :=
          ⟨fun ready => ready unmasked indicate, fun found _ _ => found⟩
        rw [ready]
        simp only [Untouched, List.mem_append, List.mem_singleton]
        constructor
        · exact fun all => ⟨fun found member => all found (.inl member), all _ (.inr rfl)⟩
        · rintro ⟨before, last⟩ found (member | rfl)
          · exact before found member
          · exact last
    · cases done

end Receive

/-- In every reachable state, an interrupt would find what the callback uses
exactly outside the window; and over a whole run the callback always found it
exactly when no interrupt fired inside. -/
theorem receive_ready_iff (run : Run Receive.step Free .initial happenings t) :
    (t.Ready ↔ ¬ t.Window) ∧
      (t.Untouched ↔ Run Receive.step Receive.OutsideWindow .initial happenings t) := by
  have start := And.intro Receive.initial_flags Receive.initial_pointer
  obtain ⟨flags, pointer⟩ := run.invariant (P := fun s => s.Flags ∧ s.Pointer)
    (fun inv _ done => Receive.step_inv inv done) start
  exact ⟨Receive.ready_iff flags pointer, run.good_iff (fun s => s.Flags ∧ s.Pointer)
    Receive.Untouched Receive.step_inv Receive.step_untouched start
    (fun found member => absurd member List.not_mem_nil)⟩

/-- A whole session with a byte in its menu, and a second one up to its menu and a
byte there. -/
def twoSessions : List Happening :=
  List.replicate 6 (.statement true) ++ [.interrupt] ++ List.replicate 12 (.statement true) ++
    [.interrupt]

theorem receive_ready_iff_sessions : ∃ t : Receive,
    t.pc = .menu ∧ t.rxIndicate = .consoleRxInd ∧ t.touched = [true, true] ∧
    (t.Ready ↔ ¬ t.Window) ∧
    (t.Untouched ↔ Run Receive.step Receive.OutsideWindow .initial twoSessions t) := by
  obtain ⟨t, run, final⟩ := Run.of_any (show ((twoSessions.foldlM Receive.step .initial).any
    fun t => t.pc == .menu && t.rxIndicate == .consoleRxInd && t.touched == [true, true]) = true
      by decide)
  simp only [Bool.and_eq_true, beq_iff_eq] at final
  exact ⟨t, final.1.1, final.1.2, final.2, receive_ready_iff run⟩

/-- An interrupt right after `rt_hw_interrupt_enable` of the first session, and
one after `rt_sem_init` of the second, where the pointer still is the old one. -/
def earlyByte (statements : Nat) : List Happening :=
  List.replicate statements (.statement true) ++ [.interrupt]

theorem early_byte_untaken :
    (∃ t, Run Receive.step Free .initial (earlyByte 4) t ∧ ¬ t.Ready ∧ ¬ t.Untouched) ∧
    ∃ t, Run Receive.step Free .initial (earlyByte 17) t ∧ t.consoleRxFifo = some 0 ∧
      ¬ t.Ready ∧ ¬ t.Untouched := by
  have missing : ∀ t : Receive, t.interrupts = true → t.rxIndicate = .consoleRxInd →
      t.available = false → t.touched = [false] → ¬ t.Ready ∧ ¬ t.Untouched := by
    intro t unmasked ours gone touched
    refine ⟨fun ready => ?_, fun untouched => ?_⟩
    · exact Bool.false_ne_true (gone.symm.trans (ready unmasked ours))
    · exact Bool.false_ne_true (untouched false (by rw [touched]; exact List.mem_singleton_self _))
  have first : ((earlyByte 4).foldlM Receive.step .initial).any (fun t => t.interrupts &&
      t.rxIndicate == .consoleRxInd && !t.available && t.touched == [false]) = true := by decide
  have second : ((earlyByte 17).foldlM Receive.step .initial).any (fun t => t.interrupts &&
      t.rxIndicate == .consoleRxInd && !t.available && t.touched == [false] &&
      t.consoleRxFifo == some 0) = true := by decide
  constructor
  · obtain ⟨t, run, final⟩ := Run.of_any first
    simp only [Bool.and_eq_true, beq_iff_eq, Bool.not_eq_true'] at final
    obtain ⟨⟨⟨unmasked, ours⟩, gone⟩, touched⟩ := final
    exact ⟨t, run, missing t unmasked ours gone touched⟩
  · obtain ⟨t, run, final⟩ := Run.of_any second
    simp only [Bool.and_eq_true, beq_iff_eq, Bool.not_eq_true'] at final
    obtain ⟨⟨⟨⟨unmasked, ours⟩, gone⟩, touched⟩, old⟩ := final
    exact ⟨t, run, old, missing t unmasked ours gone touched⟩

end RemoteBoot.Console
