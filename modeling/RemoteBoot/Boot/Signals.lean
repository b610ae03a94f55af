import RemoteBoot.Boot.Progress

/-! The signals of the MQTT callback and the objects they go to. The worker is
started before `common_param_init` and outlives a boot that gives up waiting. -/
namespace RemoteBoot.Boot
open Transition Mqtt

variable {Item : Type}

/-- The run has `computer_on_sem` behind it. -/
def Pc.semCreated : Pc → Bool
  | .create .pageMail | .spawn _ | .running => true
  | _ => false

/-- The run has `page_mail` behind it, the last creation of `common_param_init`. -/
def Pc.mailCreated : Pc → Bool
  | .spawn _ | .running => true
  | _ => false

theorem Pc.semCreated_iff (pc : Pc) : pc.semCreated ↔ Ipc.computerOnSem.rank < pc.stage := by
  cases pc with
  | create object => cases object <;> decide
  | spawn kind => cases kind <;> decide
  | _ => simp [Pc.semCreated, Pc.stage, Ipc.rank]

theorem Pc.mailCreated_iff (pc : Pc) : pc.mailCreated ↔ Ipc.pageMail.rank < pc.stage := by
  cases pc with
  | create object => cases object <;> decide
  | spawn kind => cases kind <;> decide
  | _ => simp [Pc.mailCreated, Pc.stage, Ipc.rank]

namespace System

/-- A document that passes the test of `turn_on` comes when some run of
`system_boot` has created the semaphore, one with a page when some run has created
the mailbox. -/
def Timely (json : CJson Item) (s : System) : Move → Prop
  | .deliver _ payload =>
    (TurnsOn json payload → ∃ a ∈ s.boots, a.pc.semCreated) ∧
      (NamesPage json payload → ∃ a ∈ s.boots, a.pc.mailCreated)
  | _ => True

def targets (json : CJson Item) (payload : List UInt8) : List Ipc :=
  (mqttSubCallback json payload).filterMap target

def Received (s : System) : Prop := ∀ handle ∈ s.signals, handle.isSome

theorem handle_isSome {s : System} (accounted : s.Accounted) (object : Ipc) :
    (s.handles object).isSome ↔ ∃ a ∈ s.boots, object.rank < a.pc.stage := by
  rw [accounted.handles, past, List.countP_pos_iff]
  simp only [decide_eq_true_eq]

theorem computerOnSem_mem_targets (json : CJson Item) (payload : List UInt8) :
    .computerOnSem ∈ targets json payload ↔ TurnsOn json payload := by
  rw [← releaseOn_mem_iff, targets, List.mem_filterMap]
  constructor
  · rintro ⟨effect, member, signals⟩
    cases effect with
    | releaseOn => exact member
    | jsonError | echoPage | mailPage => cases signals
  · exact fun member => ⟨_, member, rfl⟩

theorem pageMail_mem_targets (json : CJson Item) (payload : List UInt8) :
    .pageMail ∈ targets json payload ↔ NamesPage json payload := by
  rw [← mailPage_mem_iff, targets, List.mem_filterMap]
  constructor
  · rintro ⟨effect, member, signals⟩
    cases effect with
    | mailPage page => exact ⟨page, member⟩
    | jsonError | echoPage | releaseOn => cases signals
  · exact fun ⟨page, member⟩ => ⟨_, member, rfl⟩

theorem computerStatusMail_not_mem_targets (json : CJson Item) (payload : List UInt8) :
    .computerStatusMail ∉ targets json payload := by
  rw [targets, List.mem_filterMap]
  rintro ⟨effect, _, signals⟩
  cases effect <;> cases signals

/-- What a document signals is there. -/
theorem targets_created_iff {s : System} (accounted : s.Accounted) (json : CJson Item)
    (payload : List UInt8) :
    (∀ object ∈ targets json payload, (s.handles object).isSome) ↔
      (TurnsOn json payload → ∃ a ∈ s.boots, a.pc.semCreated) ∧
        (NamesPage json payload → ∃ a ∈ s.boots, a.pc.mailCreated) := by
  simp only [Pc.semCreated_iff, Pc.mailCreated_iff, ← handle_isSome accounted,
    ← computerOnSem_mem_targets, ← pageMail_mem_targets]
  constructor
  · exact fun all => ⟨all _, all _⟩
  · rintro ⟨sem, mail⟩ object member
    cases object with
    | computerStatusMail => exact absurd member (computerStatusMail_not_mem_targets json payload)
    | computerOnSem => exact sem member
    | pageMail => exact mail member

theorem step_signals {json : CJson Item} {s t : System} {m : Move}
    (moved : step json s m = some t) :
    t.signals = s.signals ++ match m with
      | .deliver _ payload => (targets json payload).map s.handles
      | _ => [] := by
  cases m with
  | boot k outcome =>
    simp only [step, Option.bind_eq_bind, Option.bind_eq_some_iff, Option.some.injEq,
      Prod.exists] at moved
    obtain ⟨a, _, u, b, done, rfl⟩ := moved
    rcases bootStep_cases done with ⟨_, _, _, rfl⟩ | ⟨_, _, _, rfl⟩ | ⟨_, _, _, rfl⟩ <;>
      exact (List.append_nil _).symm
  | shell =>
    simp only [step] at moved
    split at moved
    · cases moved
      exact (List.append_nil _).symm
    · cases moved
  | stop written =>
    cases moved
    exact (List.append_nil _).symm
  | worker k outcome =>
    simp only [step, Option.bind_eq_bind, Option.bind_eq_some_iff, Option.some.injEq] at moved
    obtain ⟨client, _, rfl⟩ := moved
    exact (List.append_nil _).symm
  | deliver k payload =>
    simp only [step] at moved
    split at moved
    · cases moved
      rfl
    · cases moved
  | thread j =>
    simp only [step, Option.bind_eq_bind, Option.bind_eq_some_iff, Option.some.injEq] at moved
    obtain ⟨_, _, _, _, rfl⟩ := moved
    exact (List.append_nil _).symm

theorem step_received {json : CJson Item} {s t : System} {m : Move} (accounted : s.Accounted)
    (moved : step json s m = some t) : t.Received ↔ s.Received ∧ Timely json s m := by
  unfold Received
  rw [step_signals moved]
  cases m with
  | deliver k payload =>
    simp only [List.forall_mem_append, List.forall_mem_map, targets_created_iff accounted, Timely]
  | _ => simp only [List.append_nil, Timely, and_true]

end System

def startMqtt : List Move := List.replicate 6 (.boot 0 .smooth)

def giveUp : List Move := List.replicate 100 (.boot 0 .smooth)

def connectAndDeliver : List Move :=
  List.replicate 3 (.worker 0 .succeed) ++ [.deliver 0 turnOnText]

def bootAndDeliver : List Move :=
  startMqtt ++ List.replicate 3 (.worker 0 .succeed) ++ List.replicate 9 (.boot 0 .smooth) ++
    [.deliver 0 turnOnText]

end RemoteBoot.Boot
