import RemoteBoot.Transition
import RemoteBoot.Kernel.Mailbox
import RemoteBoot.Monitor.BootCheck

/-! The way of a status change: the check thread detects it and mails it, the
report thread takes it from the mailbox and keeps it until a publish succeeds.
A change that meets a full mailbox goes nowhere, since the check thread takes
note of the new status without looking at the result of its send. -/
namespace RemoteBoot.Monitor
open Transition Kernel

/-- Where `status_report_thread` is: at `rt_mb_recv`, at the two tests, or in
`paho_mqtt_publish`. -/
inductive Reporter where
  | waiting
  | testStarted (status : Nat)
  | testOnline (status : Nat)
  | publishing (status : Nat)
  deriving DecidableEq

def Reporter.held : Reporter → List Nat
  | .waiting => []
  | .testStarted status | .testOnline status | .publishing status => [status]

/-- Both threads, their mailbox and the two MQTT flags. `detected` and
`published` record the changes found and the values that went out. -/
structure Reporting where
  check : CheckThread
  atHead : Bool
  mail : Mailbox Nat 10
  reporter : Reporter
  isStarted : Bool
  isOnline : Bool
  detected : List Nat
  published : List Nat

inductive Move where
  | compare
  /-- `ping_and_find_ip` or `ping` returns. -/
  | verdict (result : Int)
  /-- The report thread goes one step; the result of a publish it is in. -/
  | reporter (sent : Bool)
  | started (flag : Bool)
  | online (flag : Bool)

namespace Reporting

def start (computerIpAddr : UInt32) (isStarted isOnline : Bool) : Reporting where
  check := .start computerIpAddr
  atHead := true
  mail := .empty
  reporter := .waiting
  isStarted := isStarted
  isOnline := isOnline
  detected := []
  published := []

/-- The head of the check thread's loops. The result of `rt_mb_send` is dropped. -/
def compare (s : Reporting) : Reporting :=
  match s.check.report with
  | (none, check) => { s with check, atHead := false }
  | (some status, check) =>
    { s with check, atHead := false, detected := s.detected ++ [status],
             mail := (s.mail.send status).getD s.mail }

def reporterStep (s : Reporting) (sent : Bool) : Option Reporting :=
  match s.reporter with
  | .waiting => do
    let (status, mail) ← s.mail.recv
    some { s with mail, reporter := .testStarted status }
  | .testStarted status =>
    some { s with reporter := if s.isStarted then .testOnline status else .testStarted status }
  | .testOnline status =>
    some { s with reporter := if s.isOnline then .publishing status else .testStarted status }
  | .publishing status =>
    if sent then some { s with reporter := .waiting, published := s.published ++ [status] }
    else some { s with reporter := .testStarted status }

def step (s : Reporting) : Move → Option Reporting
  | .compare => if s.atHead then some s.compare else none
  | .verdict result =>
    if s.atHead then none else some { s with check := s.check.verdict result, atHead := true }
  | .reporter sent => s.reporterStep sent
  | .started flag => some { s with isStarted := flag }
  | .online flag => some { s with isOnline := flag }

/-- What is on its way: published, held and mailed, oldest first. -/
def delivered (s : Reporting) : List Nat := s.published ++ s.reporter.held ++ s.mail.entries

def Conserved (s : Reporting) : Prop := s.detected = s.delivered

def Room (s : Reporting) : Move → Prop
  | .compare => s.check.computerStatus ≠ s.check.computerStatusBak → s.mail.entries.length < 10
  | _ => True

/-- Published values are a prefix of the changes; when nothing is on its way, the
last of both is the same. -/
def Faithful (s : Reporting) : Prop :=
  s.published <+: s.detected ∧
    (s.mail.entries = [] → s.reporter = .waiting → s.published.getLast? = s.detected.getLast?)

theorem Conserved.faithful {s : Reporting} (conserved : s.Conserved) : s.Faithful := by
  rw [Conserved, delivered] at conserved
  refine ⟨?_, ?_⟩
  · rw [conserved, List.append_assoc]
    exact List.prefix_append _ _
  · intro empty waiting
    rw [conserved, empty, waiting, Reporter.held, List.append_nil, List.append_nil]

theorem reporterStep_delivered {s t : Reporting} (moved : s.reporterStep sent = some t) :
    t.delivered = s.delivered ∧ t.detected = s.detected := by
  cases at_ : s.reporter with
  | waiting =>
    simp only [reporterStep, at_, Option.bind_eq_bind, Option.bind_eq_some_iff, Prod.exists,
      Option.some.injEq] at moved
    obtain ⟨status, mail, received, rfl⟩ := moved
    refine ⟨?_, rfl⟩
    simp only [delivered, at_, Reporter.held, Mailbox.recv_eq_some received, List.append_nil,
      List.append_assoc, List.singleton_append]
  | testStarted status =>
    simp only [reporterStep, at_, Option.some.injEq] at moved
    subst moved
    refine ⟨?_, rfl⟩
    simp only [delivered, at_]
    split <;> rfl
  | testOnline status =>
    simp only [reporterStep, at_, Option.some.injEq] at moved
    subst moved
    refine ⟨?_, rfl⟩
    simp only [delivered, at_]
    split <;> rfl
  | publishing status =>
    simp only [reporterStep, at_] at moved
    split at moved
    · cases moved
      simp only [delivered, at_, Reporter.held, List.append_nil, and_self]
    · cases moved
      simp only [delivered, at_, Reporter.held, and_self]

def Bounded (s : Reporting) : Prop := s.delivered.length ≤ s.detected.length

/-- What one move does to the two records: most moves nothing, a comparison that
finds a change adds it to the changes and, if there is room, to the mail. -/
theorem step_cases {s t : Reporting} {m : Move} (moved : s.step m = some t) :
    (t.delivered = s.delivered ∧ t.detected = s.detected ∧ s.Room m) ∨
    (∃ status, t.detected = s.detected ++ [status] ∧ t.delivered = s.delivered ++ [status] ∧ s.Room m) ∨
    (∃ status, t.detected = s.detected ++ [status] ∧ t.delivered = s.delivered ∧ ¬ s.Room m) := by
  cases m with
  | compare =>
    simp only [step] at moved
    split at moved
    · cases moved
      by_cases changed : s.check.computerStatus ≠ s.check.computerStatusBak
      · by_cases room : s.mail.entries.length < 10
        · obtain ⟨mail, sent⟩ := Option.isSome_iff_exists.mp
            ((s.mail.send_isSome s.check.computerStatus).mpr room)
          refine .inr (.inl ⟨s.check.computerStatus, ?_, ?_, fun _ => room⟩)
          · simp only [compare, CheckThread.report, if_pos changed]
          · simp only [compare, CheckThread.report, if_pos changed, delivered, sent,
              Option.getD_some, Mailbox.send_eq_some sent, List.append_assoc]
        · have full : s.mail.send s.check.computerStatus = none := by
            rw [← Option.not_isSome_iff_eq_none, s.mail.send_isSome]
            exact room
          refine .inr (.inr ⟨s.check.computerStatus, ?_, ?_, fun found => room (found changed)⟩)
          · simp only [compare, CheckThread.report, if_pos changed]
          · simp only [compare, CheckThread.report, if_pos changed, delivered, full,
              Option.getD_none]
      · refine .inl ⟨?_, ?_, fun found => absurd found changed⟩
        · simp only [compare, CheckThread.report, if_neg changed, delivered]
        · simp only [compare, CheckThread.report, if_neg changed]
    · cases moved
  | verdict result =>
    simp only [step] at moved
    split at moved
    · cases moved
    · cases moved
      exact .inl ⟨rfl, rfl, trivial⟩
  | reporter sent =>
    obtain ⟨kept, same⟩ := reporterStep_delivered moved
    exact .inl ⟨kept, same, trivial⟩
  | started flag =>
    cases moved
    exact .inl ⟨rfl, rfl, trivial⟩
  | online flag =>
    cases moved
    exact .inl ⟨rfl, rfl, trivial⟩

theorem step_bounded {s t : Reporting} {m : Move} (bounded : s.Bounded) (moved : s.step m = some t) :
    t.Bounded := by
  unfold Bounded at bounded ⊢
  rcases step_cases moved with ⟨kept, same, _⟩ | ⟨status, found, mailed, _⟩ | ⟨status, found, kept, _⟩
  · rwa [kept, same]
  · rw [found, mailed, List.length_append, List.length_append]
    exact Nat.add_le_add_right bounded _
  · rw [found, kept, List.length_append]
    exact Nat.le_add_right_of_le bounded

theorem step_conserved {s t : Reporting} {m : Move} (bounded : s.Bounded)
    (moved : s.step m = some t) : t.Conserved ↔ s.Conserved ∧ s.Room m := by
  unfold Conserved
  rcases step_cases moved with
    ⟨kept, same, room⟩ | ⟨status, found, mailed, room⟩ | ⟨status, found, kept, full⟩
  · rw [kept, same, and_iff_left room]
  · rw [found, mailed, List.append_left_inj, and_iff_left room]
  · rw [found, kept]
    refine iff_of_false (fun equal => ?_) (fun both => full both.2)
    -- The lost change stays missing: the record of changes is longer for good.
    have := congrArg List.length equal
    rw [List.length_append, List.length_singleton] at this
    unfold Bounded at bounded
    omega

end Reporting

/-- Every change is accounted for, in order, exactly when every detected change
of the run found room in the mailbox; then what was published is a prefix of what
was detected, and nothing is missing from it when nothing is on its way. -/
theorem changes_conserved_iff (ip : UInt32) (isStarted isOnline : Bool)
    (run : Run Reporting.step Free (.start ip isStarted isOnline) moves t) :
    (t.Conserved ↔ Run Reporting.step Reporting.Room (.start ip isStarted isOnline) moves t) ∧
    (Run Reporting.step Reporting.Room (.start ip isStarted isOnline) moves t → t.Faithful) := by
  have exactly := run.good_iff Reporting.Bounded Reporting.Conserved
    Reporting.step_bounded Reporting.step_conserved (Nat.le_refl 0) rfl
  exact ⟨exactly, fun admitted => (exactly.mpr admitted).faithful⟩

/-- Twelve changes while the board is offline, then all mail is published. -/
def outage : List Move :=
  [.compare, .reporter false, .reporter false] ++
  (List.replicate 5 [.verdict 1, .compare, .verdict 0, .compare]).flatten ++
  [.verdict 1, .compare, .online true] ++ List.replicate 42 (.reporter true)

/-- The first status is published, then two changes wait for the connection. -/
def shortOutage : List Move :=
  [.compare, .reporter false, .reporter false, .reporter false, .reporter true, .online false,
    .verdict 1, .compare, .reporter false, .verdict 0, .compare, .reporter false]

theorem changes_conserved_iff_outage :
    (∃ t : Reporting, t.published = [0] ∧ t.detected = [0, 1, 0] ∧
      (t.Conserved ↔ Run Reporting.step Reporting.Room (.start 1 true true) shortOutage t) ∧
      (Run Reporting.step Reporting.Room (.start 1 true true) shortOutage t → t.Faithful)) ∧
    ∃ t : Reporting, t.published.length = 11 ∧ t.detected.length = 12 ∧
      (t.Conserved ↔ Run Reporting.step Reporting.Room (.start 1 true false) outage t) ∧
      (Run Reporting.step Reporting.Room (.start 1 true false) outage t → t.Faithful) := by
  have short : (shortOutage.foldlM Reporting.step (.start 1 true true)).any
      (fun t => t.published == [0] && t.detected == [0, 1, 0]) = true := by decide
  have long : (outage.foldlM Reporting.step (.start 1 true false)).any
      (fun t => t.published.length == 11 && t.detected.length == 12) = true := by decide
  obtain ⟨t, run, final⟩ := Run.of_any short
  obtain ⟨u, longer, last⟩ := Run.of_any long
  simp only [Bool.and_eq_true, beq_iff_eq] at final last
  exact ⟨⟨t, final.1, final.2, changes_conserved_iff 1 true true run⟩,
    u, last.1, last.2, changes_conserved_iff 1 true false longer⟩

/-- After a long outage the last change was never published, with nothing on its way. -/
theorem outage_loses_change : ∃ t, Run Reporting.step Free (.start 1 true false) outage t ∧
    t.mail.entries = [] ∧ t.reporter = .waiting ∧ t.published.getLast? = some 0 ∧
    t.detected.getLast? = some 1 ∧ ¬ t.Faithful := by
  have executed : (outage.foldlM Reporting.step (.start 1 true false)).any (fun t =>
      t.mail.entries == [] && t.reporter == .waiting && t.published.getLast? == some 0 &&
        t.detected.getLast? == some 1) = true := by decide
  obtain ⟨t, run, final⟩ := Run.of_any executed
  simp only [Bool.and_eq_true, beq_iff_eq] at final
  obtain ⟨⟨⟨empty, waiting⟩, published⟩, detected⟩ := final
  refine ⟨t, run, empty, waiting, published, detected, fun faithful => ?_⟩
  have same := faithful.2 empty waiting
  rw [published, detected] at same
  cases same

end RemoteBoot.Monitor
