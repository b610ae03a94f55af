import RemoteBoot.Kernel.Mailbox
import RemoteBoot.Ui.Pages

/-! `key_check` and the loop of `ui_thread_body` with the mailbox between them. A
page that cannot be read leaves the loop before `page_index_bak` follows, and a
press taken there leads to the same page again. -/
namespace RemoteBoot.Ui
open Transition Kernel

inductive Level where
  | high | low
  deriving DecidableEq, Repr

/-- Changes from high to low, from a level on. -/
def presses : Level → List Level → Nat
  | _, [] => 0
  | before, level :: levels =>
    (if before = .high ∧ level = .low then 1 else 0) + presses level levels

/-- One sample of `key_check`. A mail that finds no room is dropped. -/
def keyCheck (keyValueBak keyValue : Level) (pageMail : Mailbox UInt32 10) : Mailbox UInt32 10 :=
  if keyValue ≠ keyValueBak ∧ keyValue = .low then (pageMail.send keyMail).getD pageMail else pageMail

/-- The two threads, every level sampled so far, and how many presses were taken
at a page that was not drawn yet. -/
structure Keys where
  keyValueBak : Level
  pageMail : Mailbox UInt32 10
  ui : UiThread
  sampled : List Level
  lost : Nat

inductive KeyStep where
  | sample (keyValue : Level)
  | turn (read : Bool)
  deriving DecidableEq

namespace Keys

def start : Keys := ⟨.high, .empty, .start, [], 0⟩

/-- `page_index` has run ahead of `page_index_bak`. -/
def Undrawn (s : Keys) : Prop := s.ui.pageIndex ≠ s.ui.pageIndexBak

instance (s : Keys) : Decidable s.Undrawn := inferInstanceAs (Decidable (_ ≠ _))

def step (s : Keys) : KeyStep → Option Keys
  | .sample keyValue =>
    some { s with keyValueBak := keyValue, pageMail := keyCheck s.keyValueBak keyValue s.pageMail,
                  sampled := s.sampled ++ [keyValue] }
  | .turn read =>
    match s.pageMail.recv with
    | some (mail, pageMail) =>
      some { s with pageMail, ui := s.ui.turn ⟨some mail, read⟩,
                    lost := s.lost + if s.Undrawn then 1 else 0 }
    | none => some { s with ui := s.ui.turn ⟨none, read⟩ }

/-- A press finds room in the mailbox. -/
def Roomy (s : Keys) : KeyStep → Prop
  | .sample keyValue => s.keyValueBak = .high → keyValue = .low → s.pageMail.entries.length < 10
  | .turn _ => True

/-- No press is taken at a page that is not drawn. -/
def Settled (s : Keys) (l : KeyStep) : Prop :=
  s.Roomy l ∧ ∀ read, l = .turn read → s.pageMail.entries ≠ [] → ¬ s.Undrawn

end Keys

theorem presses_append (before level : Level) (levels : List Level) :
    presses before (levels ++ [level]) = presses before levels +
      if levels.getLast?.getD before = .high ∧ level = .low then 1 else 0 := by
  induction levels generalizing before with
  | nil =>
    simp only [List.nil_append, presses, List.getLast?_nil, Option.getD_none, Nat.add_zero, Nat.zero_add]
    rfl
  | cons first levels ih =>
    rw [List.cons_append, presses, ih, presses, List.getLast?_cons, Option.getD_some, Nat.add_assoc]

/-- Every press so far is a mail, a page further, or lost. -/
structure Keys.Counted (s : Keys) : Prop where
  last : s.keyValueBak = s.sampled.getLast?.getD .high
  mails : ∀ mail ∈ s.pageMail.entries, mail = keyMail
  index : s.ui.pageIndex ≤ pageMax
  bak : s.ui.pageIndexBak ≤ pageMax
  ahead : s.Undrawn → s.ui.pageIndex = if s.ui.pageIndexBak = pageMax then 0 else s.ui.pageIndexBak + 1
  count : (s.ui.pageIndex.toNat + s.pageMail.entries.length + s.lost) % 4 = presses .high s.sampled % 4

theorem toNat_next {bak : UInt32} (inside : bak ≤ pageMax) :
    (if bak = pageMax then 0 else bak + 1).toNat % 4 = (bak.toNat + 1) % 4 := by
  rcases (le_pageMax bak).mp inside with rfl | rfl | rfl | rfl <;> decide

namespace Keys

theorem start_counted : start.Counted :=
  ⟨rfl, fun mail member => absurd member List.not_mem_nil, by decide, by decide,
    fun undrawn => absurd rfl undrawn, rfl⟩

theorem keyCheck_entries {before level : Level} {pageMail : Mailbox UInt32 10}
    (roomy : before = .high → level = .low → pageMail.entries.length < 10) :
    (keyCheck before level pageMail).entries =
      pageMail.entries ++ if before = .high ∧ level = .low then [keyMail] else [] := by
  unfold keyCheck
  by_cases pressed : before = .high ∧ level = .low
  · obtain ⟨rfl, rfl⟩ := pressed
    obtain ⟨after, sent⟩ := Option.isSome_iff_exists.mp
      ((Mailbox.send_isSome pageMail keyMail).mpr (roomy rfl rfl))
    rw [if_pos (by decide), if_pos (by decide), sent, Option.getD_some, Mailbox.send_eq_some sent]
  · have silent : ¬ (level ≠ before ∧ level = .low) := by
      cases before <;> cases level <;> simp at *
    rw [if_neg silent, if_neg pressed, List.append_nil]

theorem sample_counted {s t : Keys} (counted : s.Counted) (roomy : s.Roomy (.sample keyValue))
    (stepped : s.step (.sample keyValue) = some t) : t.Counted := by
  cases stepped
  have entries := keyCheck_entries roomy
  have more := presses_append .high keyValue s.sampled
  rw [← counted.last] at more
  have count := counted.count
  constructor
  · rw [List.getLast?_concat, Option.getD_some]
  · rw [entries]
    intro mail member
    rcases List.mem_append.mp member with old | new
    · exact counted.mails mail old
    · split at new
      · exact List.mem_singleton.mp new
      · exact absurd new List.not_mem_nil
  · exact counted.index
  · exact counted.bak
  · exact counted.ahead
  · simp only [entries, more, List.length_append]
    split
    · simp only [List.length_singleton]
      omega
    · exact count

/-- The drawing keeps the page and leaves `page_index_bak` at most one behind. -/
theorem draw_behind (ui : UiThread) (read : Bool) (bak : ui.pageIndexBak ≤ pageMax)
    (index : ui.pageIndex ≤ pageMax)
    (ahead : ui.pageIndex ≠ ui.pageIndexBak →
      ui.pageIndex = if ui.pageIndexBak = pageMax then 0 else ui.pageIndexBak + 1) :
    (ui.draw read).pageIndexBak ≤ pageMax ∧
      ((ui.draw read).pageIndex ≠ (ui.draw read).pageIndexBak → (ui.draw read).pageIndex =
        if (ui.draw read).pageIndexBak = pageMax then 0 else (ui.draw read).pageIndexBak + 1) := by
  rcases ui.draw_bak read with same | ⟨stayed, _⟩
  · rw [UiThread.draw_pageIndex, same]
    exact ⟨index, fun different => absurd rfl different⟩
  · rw [stayed]
    exact ⟨bak, ahead⟩

theorem turn_counted {s t : Keys} {read : Bool} (counted : s.Counted) (stepped : s.step (.turn read) = some t) :
    t.Counted := by
  cases mail : s.pageMail.recv with
  | none =>
    simp only [step, mail] at stepped
    cases stepped
    have behind := draw_behind s.ui read counted.bak counted.index counted.ahead
    constructor
    · exact counted.last
    · exact counted.mails
    · rw [UiThread.turn, UiThread.draw_pageIndex]
      exact counted.index
    · exact behind.1
    · exact behind.2
    · rw [UiThread.turn, UiThread.draw_pageIndex]
      exact counted.count
  | some received =>
    obtain ⟨value, rest⟩ := received
    simp only [step, mail] at stepped
    cases stepped
    have entries := Mailbox.recv_eq_some mail
    have key : value = keyMail := counted.mails value (by rw [entries]; exact List.mem_cons_self)
    subst key
    have next := s.ui.receive_key
    have behind := draw_behind (s.ui.receive (some keyMail)) read
      (by rw [UiThread.receive_bak]; exact counted.bak) (by rw [next]; exact UiThread.next_le counted.bak)
      (fun _ => by rw [next, UiThread.receive_bak])
    have count := counted.count
    rw [entries, List.length_cons] at count
    have moved := toNat_next counted.bak
    constructor
    · exact counted.last
    · intro m member
      exact counted.mails m (by rw [entries]; exact List.mem_cons_of_mem _ member)
    · rw [UiThread.turn, UiThread.draw_pageIndex, next]
      exact UiThread.next_le counted.bak
    · exact behind.1
    · exact behind.2
    · rw [UiThread.turn, UiThread.draw_pageIndex, next]
      dsimp only
      by_cases undrawn : s.Undrawn
      · rw [if_pos undrawn, ← counted.ahead undrawn]
        omega
      · have drawn : s.ui.pageIndex = s.ui.pageIndexBak := not_not.mp undrawn
        rw [if_neg undrawn, Nat.add_zero]
        rw [drawn] at count
        omega

theorem step_counted {s t : Keys} (counted : s.Counted) (roomy : s.Roomy l) (stepped : s.step l = some t) :
    t.Counted := by
  cases l with
  | sample keyValue => exact sample_counted counted roomy stepped
  | turn read => exact turn_counted counted stepped

/-- Once the mailbox is empty, the page is the number of presses modulo the number
of pages, exactly when the lost presses are a multiple of it. -/
theorem page_counts_iff (run : Run step Roomy start ls t) (drained : t.pageMail.entries = []) :
    t.ui.pageIndex.toNat = presses .high t.sampled % (pageMax.toNat + 1) ↔
      t.lost % (pageMax.toNat + 1) = 0 := by
  have counted := run.invariant (fun counted roomy stepped => step_counted counted roomy stepped)
    start_counted
  have count := counted.count
  have index := UInt32.le_iff_toNat_le.mp counted.index
  have four : pageMax.toNat = 3 := rfl
  rw [drained, List.length_nil, Nat.add_zero] at count
  rw [four] at index ⊢
  omega

theorem page_counts_iff_press : ∃ t, Run step Roomy start [.sample .low, .turn true] t ∧
    (t.ui.pageIndex.toNat = presses .high t.sampled % (pageMax.toNat + 1) ↔
      t.lost % (pageMax.toNat + 1) = 0) := by
  have run : Run step Roomy start [.sample .low, .turn true] _ :=
    .next (fun _ _ => by decide) rfl (.next trivial rfl (.refl _))
  exact ⟨_, run, page_counts_iff run rfl⟩

/-- Two presses, and a first read that fails: the display is on page 1. -/
theorem press_lost : ∃ t, Run step Roomy start
      [.sample .low, .turn false, .sample .high, .sample .low, .turn true] t ∧
    t.pageMail.entries = [] ∧
    t.ui.pageIndex.toNat ≠ presses .high t.sampled % (pageMax.toNat + 1) := by
  refine ⟨_, .next (fun _ _ => by decide) rfl (.next trivial rfl (.next (fun _ _ => by decide) rfl
    (.next (fun _ _ => by decide) rfl (.next trivial rfl (.refl _))))), rfl, ?_⟩
  decide

/-- No press is lost while every page is drawn before the next press is taken. -/
theorem settled_lost (run : Run step Settled start ls t) : t.lost = 0 := by
  refine run.invariant (P := fun s => s.lost = 0) ?_ rfl
  intro s l u none settled stepped
  cases l with
  | sample keyValue =>
    cases stepped
    exact none
  | turn read =>
    cases mail : s.pageMail.recv with
    | none =>
      simp only [step, mail] at stepped
      cases stepped
      exact none
    | some received =>
      obtain ⟨value, rest⟩ := received
      simp only [step, mail] at stepped
      cases stepped
      have waiting : s.pageMail.entries ≠ [] := by
        rw [Mailbox.recv_eq_some mail]
        exact List.cons_ne_nil _ _
      rw [if_neg (settled.2 read rfl waiting), Nat.add_zero]
      exact none

end Keys
end RemoteBoot.Ui
