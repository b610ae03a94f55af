import RemoteBoot.Transition
import RemoteBoot.Kernel.MsgPool
import RemoteBoot.Kernel.WaitQueue

/-! One mailbox between any number of threads, in every order that the scheduler
and the timers allow. A thread that finds the mailbox full or empty is suspended;
when it is resumed it looks again, and another thread may have been faster. -/
namespace RemoteBoot.Kernel
open Transition
variable {α : Type} {size : Nat}

/-- The mailbox, who waits to receive and who to send, and what went in and out. -/
structure MailQueue (α : Type) (size : Nat) where
  mb : MsgPool α size
  receivers : WaitQueue Unit
  senders : WaitQueue α
  sent : List α
  received : List α

inductive MailStep (α : Type) where
  | send (thread currentPriority : Nat) (value : α) (timeout : Timeout)
  | recv (thread currentPriority : Nat) (timeout : Timeout)
  /-- A resumed thread runs on. Its time may be up by then. -/
  | runSender (i : Nat) (expired : Bool)
  | runReceiver (i : Nat) (expired : Bool)
  | expireSender (i : Nat)
  | expireReceiver (i : Nat)

/-- `timeout` when the thread looks again. -/
def Waiter.left {β : Type} (w : Waiter β) (expired : Bool) : Timeout :=
  match w.timeout, expired with
  | .ticks, true => .none
  | timeout, _ => timeout

namespace MailQueue

def create (memory : List α) (width : memory.length = size) (positive : 0 < size) (flag : IpcFlag) :
    MailQueue α size :=
  ⟨.create memory width positive, .create flag, .create flag, [], []⟩

/-- `rt_mb_send_wait`, from the look at `entry` to the return or to the suspension. -/
def rtMbSendWait (s : MailQueue α size) (thread currentPriority : Nat) (value : α) (timeout : Timeout) :
    MailQueue α size :=
  if room : s.mb.entry < size then
    { s with mb := s.mb.put value room, receivers := s.receivers.resume, sent := s.sent ++ [value] }
  else
    match timeout with
    | .none => s
    | timeout => { s with senders := s.senders.suspend thread currentPriority timeout value }

/-- `rt_mb_recv`, likewise. -/
def rtMbRecv (s : MailQueue α size) (thread currentPriority : Nat) (timeout : Timeout) : MailQueue α size :=
  if some_mail : 0 < s.mb.entry then
    { s with
      mb := (s.mb.get some_mail).2
      senders := s.senders.resume
      received := s.received ++ [(s.mb.get some_mail).1] }
  else
    match timeout with
    | .none => s
    | timeout => { s with receivers := s.receivers.suspend thread currentPriority timeout () }

def blocked (s : MailQueue α size) (thread : Nat) : Prop := s.receivers.holds thread ∨ s.senders.holds thread

instance (s : MailQueue α size) (thread : Nat) : Decidable (s.blocked thread) :=
  inferInstanceAs (Decidable (_ ∨ _))

def step (s : MailQueue α size) : MailStep α → Option (MailQueue α size)
  | .send thread currentPriority value timeout =>
    if s.blocked thread then none else some (s.rtMbSendWait thread currentPriority value timeout)
  | .recv thread currentPriority timeout =>
    if s.blocked thread then none else some (s.rtMbRecv thread currentPriority timeout)
  | .runSender i expired =>
    s.senders.resumed[i]?.map fun w =>
      { s with senders := s.senders.run i }.rtMbSendWait w.thread w.currentPriority w.value (w.left expired)
  | .runReceiver i expired =>
    s.receivers.resumed[i]?.map fun w =>
      { s with receivers := s.receivers.run i }.rtMbRecv w.thread w.currentPriority (w.left expired)
  | .expireSender i =>
    match s.senders.suspended[i]? with
    | some w => if w.timeout = .ticks then some { s with senders := s.senders.expire i } else none
    | none => none
  | .expireReceiver i =>
    match s.receivers.suspended[i]? with
    | some w => if w.timeout = .ticks then some { s with receivers := s.receivers.expire i } else none
    | none => none

/-- A send goes in, or finds the mailbox full and maybe waits. -/
theorem rtMbSendWait_cases (s : MailQueue α size) (thread currentPriority : Nat) (value : α)
    (timeout : Timeout) :
    (∃ room, s.rtMbSendWait thread currentPriority value timeout =
      { s with mb := s.mb.put value room, receivers := s.receivers.resume, sent := s.sent ++ [value] }) ∨
    (s.mb.entry = size ∧ ∃ senders : WaitQueue α, s.rtMbSendWait thread currentPriority value timeout =
      { s with senders }) := by
  unfold rtMbSendWait
  by_cases room : s.mb.entry < size
  · rw [dif_pos room]
    exact .inl ⟨room, rfl⟩
  · rw [dif_neg room]
    refine .inr ⟨Nat.le_antisymm s.mb.fits (Nat.le_of_not_lt room), ?_⟩
    cases timeout with
    | none => exact ⟨s.senders, rfl⟩
    | ticks => exact ⟨_, rfl⟩
    | forever => exact ⟨_, rfl⟩

theorem rtMbRecv_cases (s : MailQueue α size) (thread currentPriority : Nat) (timeout : Timeout) :
    (∃ some_mail, s.rtMbRecv thread currentPriority timeout =
      { s with
        mb := (s.mb.get some_mail).2
        senders := s.senders.resume
        received := s.received ++ [(s.mb.get some_mail).1] }) ∨
    (s.mb.entry = 0 ∧ ∃ receivers : WaitQueue Unit, s.rtMbRecv thread currentPriority timeout =
      { s with receivers }) := by
  unfold rtMbRecv
  by_cases some_mail : 0 < s.mb.entry
  · rw [dif_pos some_mail]
    exact .inl ⟨some_mail, rfl⟩
  · rw [dif_neg some_mail]
    refine .inr ⟨Nat.eq_zero_of_not_pos some_mail, ?_⟩
    cases timeout with
    | none => exact ⟨s.receivers, rfl⟩
    | ticks => exact ⟨_, rfl⟩
    | forever => exact ⟨_, rfl⟩

/-- What a step does to the mails: one goes in, one comes out, or none moves. -/
inductive Moves (s t : MailQueue α size) : Prop where
  | put (value : α) (sent : s.mb.toMailbox.send value = some t.mb.toMailbox)
      (into : t.sent = s.sent ++ [value]) (out : t.received = s.received)
  | get (value : α) (received : s.mb.toMailbox.recv = some (value, t.mb.toMailbox))
      (into : t.sent = s.sent) (out : t.received = s.received ++ [value])
  | stay (same : t.mb = s.mb) (into : t.sent = s.sent) (out : t.received = s.received)

theorem rtMbSendWait_moves (s : MailQueue α size) (senders : WaitQueue α) (thread currentPriority : Nat)
    (value : α) (timeout : Timeout) :
    Moves s ({ s with senders }.rtMbSendWait thread currentPriority value timeout) := by
  rcases rtMbSendWait_cases { s with senders } thread currentPriority value timeout with
    ⟨room, after⟩ | ⟨_, _, after⟩
  · rw [after]
    exact .put value (s.mb.toMailbox_put value room) rfl rfl
  · rw [after]
    exact .stay rfl rfl rfl

theorem rtMbRecv_moves (s : MailQueue α size) (receivers : WaitQueue Unit) (thread currentPriority : Nat)
    (timeout : Timeout) : Moves s ({ s with receivers }.rtMbRecv thread currentPriority timeout) := by
  rcases rtMbRecv_cases { s with receivers } thread currentPriority timeout with
    ⟨some_mail, after⟩ | ⟨_, _, after⟩
  · rw [after]
    exact .get _ (s.mb.toMailbox_get some_mail) rfl rfl
  · rw [after]
    exact .stay rfl rfl rfl

/-- The mailbox of lists goes along with every step. -/
theorem step_moves {s t : MailQueue α size} (stepped : s.step l = some t) : Moves s t := by
  cases l with
  | send thread currentPriority value timeout =>
    simp only [step] at stepped
    split at stepped <;> cases stepped
    exact s.rtMbSendWait_moves s.senders thread currentPriority value timeout
  | recv thread currentPriority timeout =>
    simp only [step] at stepped
    split at stepped <;> cases stepped
    exact s.rtMbRecv_moves s.receivers thread currentPriority timeout
  | runSender i expired =>
    obtain ⟨w, _, rfl⟩ := Option.map_eq_some_iff.mp stepped
    exact s.rtMbSendWait_moves _ _ _ _ _
  | runReceiver i expired =>
    obtain ⟨w, _, rfl⟩ := Option.map_eq_some_iff.mp stepped
    exact s.rtMbRecv_moves _ _ _ _
  | expireSender i =>
    simp only [step] at stepped
    split at stepped
    · split at stepped <;> cases stepped
      exact .stay rfl rfl rfl
    · cases stepped
  | expireReceiver i =>
    simp only [step] at stepped
    split at stepped
    · split at stepped <;> cases stepped
      exact .stay rfl rfl rfl
    · cases stepped

def InOrder (s : MailQueue α size) : Prop := s.sent = s.received ++ s.mb.contents

theorem step_inOrder {s t : MailQueue α size} (inOrder : s.InOrder) (stepped : s.step l = some t) :
    t.InOrder := by
  unfold InOrder at *
  cases step_moves stepped with
  | put value sent into out =>
    have entries : t.mb.contents = s.mb.contents ++ [value] := Mailbox.send_eq_some sent
    rw [into, out, entries, inOrder, List.append_assoc]
  | get value received into out =>
    have entries : s.mb.contents = value :: t.mb.contents := Mailbox.recv_eq_some received
    rw [into, out, inOrder, entries, List.append_assoc, List.singleton_append]
  | stay same into out => rw [into, out, same, inOrder]

/-- Nobody is left waiting for a mail that is there, or for room that is there,
without a resumed thread on its way for each. -/
structure Awake (s : MailQueue α size) : Prop where
  mails : s.receivers.suspended ≠ [] → s.mb.entry ≤ s.receivers.resumed.length
  rooms : s.senders.suspended ≠ [] → size - s.mb.entry ≤ s.senders.resumed.length

/-- A thread that came to send, or was resumed to and counts no more. -/
theorem rtMbSendWait_awake {s : MailQueue α size} (thread currentPriority : Nat) (value : α)
    (timeout : Timeout) (mails : s.receivers.suspended ≠ [] → s.mb.entry ≤ s.receivers.resumed.length)
    (rooms : s.senders.suspended ≠ [] → size - s.mb.entry ≤ s.senders.resumed.length + 1) :
    (s.rtMbSendWait thread currentPriority value timeout).Awake := by
  rcases s.rtMbSendWait_cases thread currentPriority value timeout with ⟨room, after⟩ | ⟨full, _, after⟩
  · rw [after]
    constructor
    · intro left
      have waiting : s.receivers.suspended ≠ [] := fun none =>
        left (WaitQueue.resume_of_nil none).1
      have before := mails waiting
      rw [WaitQueue.length_resume waiting]
      exact Nat.succ_le_succ before
    · intro waiting
      have before := rooms waiting
      simp only [MsgPool.put]
      omega
  · rw [after]
    constructor
    · exact mails
    · intro _
      simp only [full, Nat.sub_self, Nat.zero_le]

theorem rtMbRecv_awake {s : MailQueue α size} (thread currentPriority : Nat) (timeout : Timeout)
    (mails : s.receivers.suspended ≠ [] → s.mb.entry ≤ s.receivers.resumed.length + 1)
    (rooms : s.senders.suspended ≠ [] → size - s.mb.entry ≤ s.senders.resumed.length) :
    (s.rtMbRecv thread currentPriority timeout).Awake := by
  rcases s.rtMbRecv_cases thread currentPriority timeout with ⟨some_mail, after⟩ | ⟨empty, _, after⟩
  · rw [after]
    constructor
    · intro waiting
      have before := mails waiting
      simp only [MsgPool.get]
      omega
    · intro left
      have waiting : s.senders.suspended ≠ [] := fun none =>
        left (WaitQueue.resume_of_nil none).1
      have before := rooms waiting
      rw [WaitQueue.length_resume waiting]
      simp only [MsgPool.get]
      omega
  · rw [after]
    constructor
    · intro _
      simp only [empty, Nat.zero_le]
    · exact rooms

theorem step_awake {s t : MailQueue α size} (awake : s.Awake) (stepped : s.step l = some t) : t.Awake := by
  cases l with
  | send thread currentPriority value timeout =>
    simp only [step] at stepped
    split at stepped <;> cases stepped
    exact rtMbSendWait_awake _ _ _ _ awake.mails fun waiting => Nat.le_succ_of_le (awake.rooms waiting)
  | recv thread currentPriority timeout =>
    simp only [step] at stepped
    split at stepped <;> cases stepped
    exact rtMbRecv_awake _ _ _ (fun waiting => Nat.le_succ_of_le (awake.mails waiting)) awake.rooms
  | runSender i expired =>
    obtain ⟨w, found, rfl⟩ := Option.map_eq_some_iff.mp stepped
    refine rtMbSendWait_awake _ _ _ _ awake.mails fun waiting => ?_
    rw [WaitQueue.length_run found]
    exact awake.rooms waiting
  | runReceiver i expired =>
    obtain ⟨w, found, rfl⟩ := Option.map_eq_some_iff.mp stepped
    refine rtMbRecv_awake _ _ _ (fun waiting => ?_) awake.rooms
    rw [WaitQueue.length_run found]
    exact awake.mails waiting
  | expireSender i =>
    simp only [step] at stepped
    split at stepped
    · split at stepped <;> cases stepped
      refine ⟨awake.mails, fun waiting => awake.rooms fun none => waiting ?_⟩
      exact List.eq_nil_of_length_eq_zero (by simp [WaitQueue.expire, none])
    · cases stepped
  | expireReceiver i =>
    simp only [step] at stepped
    split at stepped
    · split at stepped <;> cases stepped
      refine ⟨fun waiting => awake.mails fun none => waiting ?_, awake.rooms⟩
      exact List.eq_nil_of_length_eq_zero (by simp [WaitQueue.expire, none])
    · cases stepped

section
variable {memory : List α} {width : memory.length = size} {positive : 0 < size} {flag : IpcFlag}

/-- No mail is lost, doubled or overtaken, whoever sends and receives and in
whatever order. -/
theorem mails_in_order (run : Run step Free (create memory width positive flag) ls t) :
    t.sent = t.received ++ t.mb.contents ∧ t.mb.contents.length ≤ size := by
  have inOrder : t.InOrder := by
    refine run.invariant (fun inOrder _ stepped => step_inOrder inOrder stepped) ?_
    exact (MsgPool.contents_create memory width positive).symm
  exact ⟨inOrder, by rw [MsgPool.length_contents]; exact t.mb.fits⟩

/-- No wake-up is lost: for each mail that is there while threads wait for mail, and
for each free place while threads wait for room, a thread is on its way. -/
theorem no_lost_wakeup (run : Run step Free (create memory width positive flag) ls t) :
    (t.receivers.suspended ≠ [] → t.mb.contents.length ≤ t.receivers.resumed.length) ∧
    (t.senders.suspended ≠ [] → size ≤ t.mb.contents.length + t.senders.resumed.length) := by
  have awake : t.Awake := by
    refine run.invariant (fun awake _ stepped => step_awake awake stepped) ?_
    exact ⟨fun none => absurd rfl none, fun none => absurd rfl none⟩
  simp only [MsgPool.length_contents]
  exact ⟨awake.mails, fun waiting => Nat.sub_le_iff_le_add'.mp (awake.rooms waiting)⟩

end

/-- Two receivers wait, two mails come, and a third thread is faster than both. -/
def sampleRush : List (MailStep Nat) :=
  [.recv 1 10 .forever, .recv 2 5 .forever, .send 3 8 70 .none, .send 3 8 71 .none, .recv 4 3 .none,
    .runReceiver 0 false, .runReceiver 0 false]

theorem mails_in_order_rush : ∃ t : MailQueue Nat 2,
    Run step Free (create [0, 0] rfl (by decide) .prio) sampleRush t ∧
      t.sent = t.received ++ t.mb.contents ∧ t.mb.contents.length ≤ 2 := by
  have run : Run step Free (create [0, 0] rfl (by decide) .prio : MailQueue Nat 2) sampleRush _ :=
    .of_foldlM rfl
  exact ⟨_, run, mails_in_order run⟩

theorem no_lost_wakeup_rush : ∃ t : MailQueue Nat 2,
    Run step Free (create [0, 0] rfl (by decide) .prio) (sampleRush.take 4) t ∧
      (t.receivers.suspended ≠ [] → t.mb.contents.length ≤ t.receivers.resumed.length) ∧
      (t.senders.suspended ≠ [] → 2 ≤ t.mb.contents.length + t.senders.resumed.length) := by
  have run : Run step Free (create [0, 0] rfl (by decide) .prio : MailQueue Nat 2)
      (sampleRush.take 4) _ := .of_foldlM rfl
  exact ⟨_, run, no_lost_wakeup run⟩

end MailQueue
end RemoteBoot.Kernel
