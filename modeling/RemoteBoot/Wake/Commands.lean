import RemoteBoot.Transition
import RemoteBoot.Kernel.Semaphore
import RemoteBoot.Mqtt.Callback
import RemoteBoot.Wake.Packet

/-! The way of a command: the callback tests a document and releases
`computer_on_sem`, the thread takes it and makes one attempt for each unit. A turn
whose read fails ends early, and counts as an attempt all the same. -/
namespace RemoteBoot.Wake
open Transition Kernel Config Mqtt

variable {Item : Type}

/-- A magic packet handed to `sendto`, or a failed read. -/
def Action.isAttempt : Action → Bool
  | .sendto _ data _ => IsMagicPacket data
  | .initFromFile eok => !eok
  | _ => false

/-- The semaphore, both threads and what they have done. `document` is a payload
that the callback has not tested yet, `callback` the effects left of one that it
has, and `tested` are all of these; `turn` holds the actions left of a turn of
`wol_thread`, `none` while that is at `rt_sem_take`. -/
structure Commands where
  sem : Semaphore
  document : Option (List UInt8)
  callback : List Effect
  tested : List (List UInt8)
  turn : Option (List Action)
  config : ConfigInfo
  performed : List Action

inductive CommandMove where
  /-- A message arrives for `mqtt_sub_callback`. -/
  | message (payload : List UInt8)
  /-- The callback up to the end of its `turn_on` part. -/
  | turnOn
  | callback
  | take
  /-- `rt_sem_take` returns. The turn meets this network, socket and file. -/
  | begin (netdev : Netdev) (sockfd : Int) (file : Option (List UInt8))
  /-- The next action of the turn, or the way back to the head of the loop. -/
  | act

namespace Commands

def start (config : ConfigInfo) : Commands := ⟨.empty, none, [], [], none, config, []⟩

def effect (s : Commands) : Effect → Commands
  | .releaseOn => { s with sem := s.sem.release }
  | .jsonError | .echoPage _ | .mailPage _ => s

def step (json : CJson Item) (s : Commands) : CommandMove → Option Commands
  | .message payload =>
    if s.document = none ∧ s.callback = [] then some { s with document := some payload } else none
  | .turnOn =>
    match s.document with
    | none => none
    | some payload =>
      some ((mqttSubTurnOn json payload).foldl effect { s with
        document := none
        callback := mqttSubPage json payload
        tested := s.tested ++ [payload] })
  | .callback =>
    match s.callback with
    | [] => none
    | effect :: rest => some ({ s with callback := rest }.effect effect)
  | .take =>
    if s.turn = none then do
      let sem ← s.sem.take
      some { s with sem }
    else none
  | .begin netdev sockfd file => do
    let sem ← s.sem.finish
    let (config, actions) ← wolThread netdev sockfd file s.config
    some { s with sem, config, turn := some actions }
  | .act =>
    match s.turn with
    | none => none
    | some [] => some { s with turn := none }
    | some (action :: rest) => some { s with turn := some rest, performed := s.performed ++ [action] }

/-- The commands that the callback accepted: documents that pass its test. -/
def accepted (json : CJson Item) (s : Commands) : Nat := s.tested.countP fun payload => TurnsOn json payload

def attempts (s : Commands) : Nat := s.performed.countP Action.isAttempt

def unserved (json : CJson Item) (s : Commands) : Nat := s.accepted json - s.attempts

/-- The attempts that the turn has still to make. -/
def due (s : Commands) : Nat := (s.turn.getD []).countP Action.isAttempt

/-- Each accepted command is an attempt made, one under way, or a unit left. -/
structure Conserved (json : CJson Item) (s : Commands) : Prop where
  away : s.turn.isSome → s.sem.taker = .away
  quiet : .releaseOn ∉ s.callback
  accounted : s.accepted json = s.attempts + s.due + s.sem.pending

end Commands

theorem parseMac_length (config : ConfigInfo) : (parseMac config).length = 6 := rfl

theorem wolThread_attempt {netdev : Netdev} {sockfd : Int} {file : Option (List UInt8)}
    {config left : ConfigInfo} {actions : List Action}
    (turn : wolThread netdev sockfd file config = some (left, actions)) :
    actions.countP Action.isAttempt = 1 := by
  simp only [wolThread, Option.bind_eq_bind, Option.bind_eq_some_iff] at turn
  obtain ⟨cleared, _, result, _, turn⟩ := turn
  cases result with
  | error text =>
    cases turn
    rfl
  | ok info =>
    simp only [Option.bind_eq_some_iff, Option.some.injEq, Prod.mk.injEq] at turn
    obtain ⟨dots, _, _, rfl⟩ := turn
    have magic : IsMagicPacket (magicPacket (parseMac dots)) := ⟨_, parseMac_length dots, rfl⟩
    by_cases lacking : sockfd = -1
    · simp [lacking, Action.isAttempt, magic]
    · simp [lacking, Action.isAttempt, magic]

namespace Commands

theorem start_conserved (json : CJson Item) (config : ConfigInfo) : (start config).Conserved json :=
  ⟨nofun, List.not_mem_nil, rfl⟩

theorem effect_quiet {s : Commands} {effect : Effect} (quiet : effect ≠ .releaseOn) : s.effect effect = s := by
  cases effect with
  | releaseOn => exact absurd rfl quiet
  | jsonError | echoPage | mailPage => rfl

/-- One document is tested: a command it accepts is one unit more. -/
theorem Conserved.turnOn {json : CJson Item} {s t : Commands} (conserved : s.Conserved json)
    (few : t.unserved json < 65536) (moved : step json s .turnOn = some t) : t.Conserved json := by
  have accounted := conserved.accounted
  simp only [step] at moved
  split at moved
  · cases moved
  · rename_i payload _
    rw [mqttSubTurnOn_eq] at moved
    have quiet := releaseOn_not_mem_mqttSubPage json payload
    by_cases on : TurnsOn json payload
    · rw [if_pos on] at moved
      cases moved
      have room : s.sem.pending + 1 < 65536 := by
        simp only [List.foldl_cons, List.foldl_nil, effect, unserved, accepted, attempts,
          List.countP_append, List.countP_singleton, decide_eq_true on, if_true] at few accounted
        omega
      refine ⟨fun busy => Semaphore.release_away (conserved.away busy), quiet, ?_⟩
      simp only [List.foldl_cons, List.foldl_nil, effect, accepted, attempts, due,
        List.countP_append, List.countP_singleton, decide_eq_true on, if_true,
        s.sem.release_pending room] at accounted ⊢
      omega
    · rw [if_neg on] at moved
      cases moved
      refine ⟨conserved.away, quiet, ?_⟩
      simpa [accepted, attempts, due, on] using accounted

theorem step_conserved {json : CJson Item} {s t : Commands} {m : CommandMove}
    (conserved : s.Conserved json) (few : t.unserved json < 65536) (moved : step json s m = some t) :
    t.Conserved json := by
  have accounted := conserved.accounted
  cases m with
  | message payload =>
    simp only [step, Option.ite_none_right_eq_some, Option.some.injEq] at moved
    obtain ⟨_, rfl⟩ := moved
    exact ⟨conserved.away, conserved.quiet, accounted⟩
  | turnOn => exact conserved.turnOn few moved
  | callback =>
    simp only [step] at moved
    split at moved
    · cases moved
    · rename_i effect rest left
      cases moved
      -- The release of a command is in its `turn_on` part, behind the test.
      have quiet := conserved.quiet
      rw [left, List.mem_cons, not_or] at quiet
      rw [effect_quiet (Ne.symm quiet.1)]
      exact ⟨conserved.away, quiet.2, accounted⟩
  | take =>
    simp only [step, Option.ite_none_right_eq_some, Option.bind_eq_bind, Option.bind_eq_some_iff,
      Option.some.injEq] at moved
    obtain ⟨idle, sem, taken, rfl⟩ := moved
    obtain ⟨_, _, same⟩ := Semaphore.take_spec taken
    refine ⟨fun busy => ?_, conserved.quiet, ?_⟩
    · simp [idle] at busy
    · simp only [accepted, attempts, due, same] at accounted ⊢
      exact accounted
  | begin netdev sockfd file =>
    simp only [step, Option.bind_eq_bind, Option.bind_eq_some_iff, Option.some.injEq,
      Prod.exists] at moved
    obtain ⟨sem, finished, config, actions, turn, rfl⟩ := moved
    obtain ⟨away, unit⟩ := Semaphore.finish_spec finished
    have one := wolThread_attempt turn
    have idle : s.turn = none := by
      by_contra busy
      have := conserved.away (Option.isSome_iff_ne_none.mpr busy)
      simp [Semaphore.finish, this] at finished
    refine ⟨fun _ => away, conserved.quiet, ?_⟩
    simp only [accepted, attempts, due, idle, unit, one, Option.getD_none, Option.getD_some,
      List.countP_nil] at accounted ⊢
    omega
  | act =>
    simp only [step] at moved
    split at moved
    · cases moved
    · rename_i ended
      cases moved
      refine ⟨nofun, conserved.quiet, ?_⟩
      simpa [accepted, attempts, due, ended] using accounted
    · rename_i action rest busy
      cases moved
      refine ⟨fun _ => conserved.away (by rw [busy]; rfl), conserved.quiet, ?_⟩
      simp only [accepted, attempts, due, busy, Option.getD_some, List.countP_append, List.countP_cons,
        List.countP_nil] at accounted ⊢
      omega

/-- One command, one attempt: attempts never outrun the accepted commands, and
have caught up with them whenever the thread waits on an empty semaphore. -/
theorem one_command_one_attempt (json : CJson Item) (config : ConfigInfo)
    (run : Run (step json) Free (start config) moves t)
    (few : Always (step json) (fun s => s.unserved json < 65536) (start config) moves) :
    t.attempts ≤ t.accepted json ∧
      (t.sem.taker = .suspended → t.sem.value = 0 → t.attempts = t.accepted json) := by
  have conserved : t.Conserved json :=
    run.invariant_always few step_conserved (start_conserved json config)
  have accounted := conserved.accounted
  refine ⟨by omega, fun waiting _ => ?_⟩
  have idle : t.turn = none := by
    by_contra busy
    have away := conserved.away (Option.isSome_iff_ne_none.mpr busy)
    rw [waiting] at away
    cases away
  rw [Semaphore.pending_suspended waiting, due, idle] at accounted
  exact accounted.symm

/-- A document that is no command, a command that meets no file and one that is
sent: the thread waits again after two attempts. -/
def twoCommands : List CommandMove :=
  [.message [], .turnOn, .callback, .message turnOnText, .take, .turnOn, .message turnOnText,
    .begin ⟨0, 0⟩ 3 none, .turnOn, .act, .act, .act, .act, .act, .take,
    .begin ⟨0, 0⟩ 3 (some (List.replicate 5 newline))] ++ List.replicate 8 .act ++ [.take]

theorem one_command_one_attempt_two :
    ∃ t, Run (step turnOnJson) Free (start .zeroed) twoCommands t ∧
      t.sem.taker = .suspended ∧ t.accepted turnOnJson = 2 ∧
      t.attempts ≤ t.accepted turnOnJson ∧
      (t.sem.taker = .suspended → t.sem.value = 0 → t.attempts = t.accepted turnOnJson) := by
  obtain ⟨t, run, waiting⟩ := Run.of_any
    (show ((twoCommands.foldlM (step turnOnJson) (start .zeroed)).any
      fun t => t.sem.taker == .suspended && t.accepted turnOnJson == 2) = true by decide +kernel)
  rw [Bool.and_eq_true, beq_iff_eq, beq_iff_eq] at waiting
  exact ⟨t, run, waiting.1, waiting.2,
    one_command_one_attempt turnOnJson .zeroed run (by decide +kernel)⟩

end Commands
end RemoteBoot.Wake
