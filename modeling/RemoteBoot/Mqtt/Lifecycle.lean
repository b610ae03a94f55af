import RemoteBoot.Transition
import RemoteBoot.Mqtt.Client

/-! When the two flags tell the truth about the worker. A stop clears
`is_started` before it asks the worker, who refuses while not connected and
calls no callback when it goes; a start sets the flag without looking at what it
started. -/
namespace RemoteBoot.Mqtt
open Transition

inductive Move where
  | start (alloc : Client.Alloc)
  | stop (written : Bool)
  | worker (k : Nat) (outcome : Client.Outcome)

namespace Client

def step (c : Client) : Move → Option Client
  | .start alloc => some (c.mqttStart alloc).2
  | .stop written => some (c.mqttStop written).2
  | .worker k outcome => c.workerStep k outcome

/-- `is_started` says that one worker runs, there are never two, and `is_online`
is set only while the worker is connected. -/
structure Truthful (c : Client) : Prop where
  started : c.isStarted = true ↔ c.workers.length = 1
  single : c.workers.length ≤ 1
  online : c.isOnline = true → ∃ w ∈ c.workers, w.Connected

/-- No stop while a worker runs, and whatever a start needs is there. -/
def Safe (c : Client) : Move → Prop
  | .start alloc => c.isStarted = false → alloc.buf = true → alloc.readbuf = true →
      alloc.mutex = true ∧ alloc.thread = true
  | .stop _ => c.workers = []
  | .worker k outcome => c.workers[k]? = some .creatingPipe → outcome = .succeed

/-- The client's own state agrees with its worker, and no command is waiting. -/
structure Synced (c : Client) : Prop where
  connected : c.isconnected = true ↔ ∃ w ∈ c.workers, w.Connected
  quiet : c.commands = 0

theorem truthful_idle {c : Client} (idle : c.workers = []) :
    c.Truthful ↔ c.isStarted = false ∧ c.isOnline = false := by
  constructor
  · rintro ⟨started, _, online⟩
    rw [idle] at started online
    exact ⟨by simpa using started, by simpa using online⟩
  · rintro ⟨stopped, offline⟩
    refine ⟨?_, ?_, ?_⟩ <;> simp [idle, stopped, offline]

theorem truthful_one {c : Client} (one : c.workers = [w]) :
    c.Truthful ↔ c.isStarted = true ∧ (c.isOnline = true → w.Connected) := by
  constructor
  · rintro ⟨started, _, online⟩
    rw [one] at started online
    exact ⟨by simpa using started, by simpa using online⟩
  · rintro ⟨running, online⟩
    refine ⟨?_, ?_, ?_⟩
    · simp [one, running]
    · simp [one]
    · simpa [one] using online

theorem Truthful.cases {c : Client} (truthful : c.Truthful) :
    c.workers = [] ∨ ∃ w, c.workers = [w] := by
  match workers : c.workers with
  | [] => exact .inl rfl
  | [w] => exact .inr ⟨w, rfl⟩
  | first :: second :: rest =>
    have := truthful.single
    rw [workers, List.length_cons, List.length_cons] at this
    omega

theorem synced_idle {c : Client} (idle : c.workers = []) :
    c.Synced ↔ c.isconnected = false ∧ c.commands = 0 := by
  constructor
  · rintro ⟨connected, quiet⟩
    rw [idle] at connected
    exact ⟨by simpa using connected, quiet⟩
  · rintro ⟨apart, quiet⟩
    exact ⟨by simp [idle, apart], quiet⟩

theorem synced_one {c : Client} (one : c.workers = [w]) :
    c.Synced ↔ (c.isconnected = true ↔ w.Connected) ∧ c.commands = 0 := by
  constructor
  · rintro ⟨connected, quiet⟩
    rw [one] at connected
    exact ⟨by simpa using connected, quiet⟩
  · rintro ⟨connected, quiet⟩
    exact ⟨by simpa [one] using connected, quiet⟩

theorem initial_truthful : initial.Truthful := (truthful_idle rfl).mpr ⟨rfl, rfl⟩

theorem initial_synced : initial.Synced := (synced_idle rfl).mpr ⟨rfl, rfl⟩

theorem start_exact {c : Client} (alloc : Alloc) (truthful : c.Truthful) (synced : c.Synced) :
    ((c.mqttStart alloc).2.Truthful ↔ c.Safe (.start alloc)) ∧
      ((c.mqttStart alloc).2.Truthful → (c.mqttStart alloc).2.Synced) := by
  by_cases running : c.isStarted = true
  · have same : (c.mqttStart alloc).2 = c := by rw [mqttStart, if_pos running]
    rw [same]
    exact ⟨iff_of_true truthful (fun stopped => by simp [running] at stopped), fun _ => synced⟩
  · have idle : c.workers = [] := by
      rcases truthful.cases with idle | ⟨w, one⟩
      · exact idle
      · exact absurd ((truthful_one one).mp truthful).1 running
    have offline := ((truthful_idle idle).mp truthful).2
    have quiet := ((synced_idle idle).mp synced).2
    simp only [mqttStart, if_neg running, Safe]
    by_cases buffers : (alloc.buf && alloc.readbuf) = true
    · rw [if_pos buffers]
      simp only [Bool.and_eq_true] at buffers
      by_cases both : alloc.mutex = true ∧ alloc.thread = true
      · have one : (c.workers ++ [Worker.creatingPipe]) = [.creatingPipe] := by rw [idle]; rfl
        simp only [pahoMqttStart, if_pos both.1, if_pos both.2]
        rw [truthful_one (by exact one), synced_one (by exact one)]
        exact ⟨iff_of_true ⟨rfl, by simp [offline]⟩ (fun _ _ _ => both),
          fun _ => ⟨by simp [Worker.Connected], quiet⟩⟩
      · have same : (pahoMqttStart alloc { c with isconnected := false }).2 =
            { c with isconnected := false } := by
          simp only [pahoMqttStart]
          split
          · split
            · rename_i mutex thread
              exact absurd ⟨mutex, thread⟩ both
            · rfl
          · rfl
        rw [same, truthful_idle (by exact idle)]
        exact ⟨iff_of_false (by simp) (fun safe =>
          both (safe (by simpa using running) buffers.1 buffers.2)), fun lies => by simp at lies⟩
    · rw [if_neg buffers, truthful_idle (by exact idle), synced_idle (by exact idle)]
      simp only [Bool.and_eq_true] at buffers
      exact ⟨iff_of_true ⟨by simpa using running, offline⟩
        (fun _ buf readbuf => absurd ⟨buf, readbuf⟩ buffers), fun _ => ⟨rfl, quiet⟩⟩

theorem stop_exact {c : Client} (written : Bool) (truthful : c.Truthful) (synced : c.Synced) :
    ((c.mqttStop written).2.Truthful ↔ c.Safe (.stop written)) ∧
      ((c.mqttStop written).2.Truthful → (c.mqttStop written).2.Synced) := by
  have kept : (c.mqttStop written).2.workers = c.workers := by
    simp only [mqttStop, mqttCmd]
    split <;> rfl
  have cleared : (c.mqttStop written).2.isStarted = false := by
    simp only [mqttStop, mqttCmd]
    split <;> rfl
  rcases truthful.cases with idle | ⟨w, one⟩
  · have apart := ((synced_idle idle).mp synced).1
    have refused : (c.mqttStop written).2 = { c with isStarted := false } := by
      rw [mqttStop, mqttCmd, if_neg (by simp [apart])]
    rw [refused, truthful_idle (by exact idle), synced_idle (by exact idle)]
    exact ⟨iff_of_true ⟨rfl, ((truthful_idle idle).mp truthful).2⟩ idle,
      fun _ => (synced_idle idle).mp synced⟩
  · have lies : ¬ (c.mqttStop written).2.Truthful := by
      rw [truthful_one (kept.trans one), cleared]
      simp
    exact ⟨iff_of_false lies (by simp [Safe, one]), fun holds => absurd holds lies⟩

/-- What a step of the only worker does, as long as the client agrees with it:
the worker goes for want of a pipe, or it stays and the client still agrees. -/
theorem workerStep_one {c t : Client} {w : Worker} {outcome : Outcome} (one : c.workers = [w])
    (online : c.isOnline = true → w.Connected) (connected : c.isconnected = true ↔ w.Connected)
    (quiet : c.commands = 0) (stepped : c.workerStep 0 outcome = some t) :
    t.isStarted = c.isStarted ∧
      ((w = .creatingPipe ∧ outcome = .fail ∧ t.workers = []) ∨
        ((w = .creatingPipe → outcome = .succeed) ∧ ∃ w', t.workers = [w'] ∧
          (t.isOnline = true → w'.Connected) ∧ (t.isconnected = true ↔ w'.Connected) ∧
          t.commands = 0)) := by
  simp only [workerStep, one, List.getElem?_cons_zero, Option.bind_eq_bind, Option.bind_some,
    List.set_cons_zero, List.eraseIdx_cons_zero] at stepped
  cases w with
  | creatingPipe =>
    cases outcome with
    | succeed =>
      cases stepped
      exact ⟨rfl, .inr ⟨fun _ => rfl, .connecting, rfl, online, connected, rfl⟩⟩
    | fail =>
      cases stepped
      exact ⟨rfl, .inl ⟨rfl, rfl, rfl⟩⟩
    | command => cases stepped
  | connecting =>
    cases outcome with
    | succeed =>
      have apart : ¬ c.isconnected = true := connected.mp
      simp only [if_neg apart] at stepped
      cases stepped
      exact ⟨rfl, .inr ⟨nofun, .subscribing, rfl, fun _ => trivial, iff_of_true rfl trivial, quiet⟩⟩
    | fail =>
      cases stepped
      exact ⟨rfl, .inr ⟨nofun, .connecting, rfl, nofun, connected, quiet⟩⟩
    | command => cases stepped
  | subscribing =>
    cases outcome with
    | succeed =>
      have joined : c.isconnected = true := connected.mpr trivial
      simp only [if_pos joined] at stepped
      cases stepped
      refine ⟨c.onlineCallback_isStarted, .inr ⟨nofun, .looping, rfl, fun _ => trivial, ?_, ?_⟩⟩
      · exact iff_of_true (c.onlineCallback_isconnected.trans joined) trivial
      · exact c.onlineCallback_commands.trans quiet
    | fail =>
      cases stepped
      exact ⟨rfl, .inr ⟨nofun, .connecting, rfl, nofun, iff_of_false Bool.false_ne_true id, quiet⟩⟩
    | command => cases stepped
  | looping =>
    cases outcome with
    | succeed =>
      cases stepped
      exact ⟨rfl, .inr ⟨nofun, .looping, one, online, connected, quiet⟩⟩
    | fail =>
      cases stepped
      exact ⟨rfl, .inr ⟨nofun, .connecting, rfl, nofun, iff_of_false Bool.false_ne_true id, quiet⟩⟩
    | command =>
      -- No stop was asked for, so the pipe is empty.
      simp only [if_pos quiet] at stepped
      cases stepped

theorem worker_exact {c t : Client} {k : Nat} {outcome : Outcome} (truthful : c.Truthful)
    (synced : c.Synced) (stepped : c.workerStep k outcome = some t) :
    (t.Truthful ↔ c.Safe (.worker k outcome)) ∧ (t.Truthful → t.Synced) := by
  have ⟨w, found, _⟩ := Option.bind_eq_some_iff.mp stepped
  obtain ⟨one, rfl⟩ : c.workers = [w] ∧ k = 0 := by
    rcases truthful.cases with idle | ⟨w', one⟩
    · simp [idle] at found
    · rw [one, List.getElem?_singleton] at found
      split at found
      · rename_i first
        cases found
        exact ⟨one, first⟩
      · cases found
  obtain ⟨running, online⟩ := (truthful_one one).mp truthful
  obtain ⟨connected, quiet⟩ := (synced_one one).mp synced
  obtain ⟨same, gone | stays⟩ := workerStep_one one online connected quiet stepped
  · obtain ⟨rfl, rfl, idle⟩ := gone
    have lies : ¬ t.Truthful := by
      rw [truthful_idle idle, same, running]
      simp
    exact ⟨iff_of_false lies fun safe => (by cases safe found), fun holds => absurd holds lies⟩
  · obtain ⟨piped, w', one', online', connected', quiet'⟩ := stays
    have holds : t.Truthful := (truthful_one one').mpr ⟨same.trans running, online'⟩
    have safe : c.Safe (.worker 0 outcome) :=
      fun here => piped (Option.some.inj (found.symm.trans here))
    exact ⟨iff_of_true holds safe, fun _ => (synced_one one').mpr ⟨connected', quiet'⟩⟩

theorem step_exact {c t : Client} {m : Move} (synced : c.Synced) (truthful : c.Truthful)
    (stepped : c.step m = some t) : (t.Truthful ↔ c.Safe m) ∧ (t.Truthful → t.Synced) := by
  cases m with
  | start alloc =>
    cases stepped
    exact start_exact alloc truthful synced
  | stop written =>
    cases stepped
    exact stop_exact written truthful synced
  | worker k outcome => exact worker_exact truthful synced stepped

end Client

/-- The flags tell the truth in every state of a run exactly when nobody stops a
running worker, every start that gets its buffers gets its mutex and its thread,
and every worker gets its pipe. -/
theorem flags_truthful_iff (run : Run Client.step Free .initial moves t) :
    Always Client.step Client.Truthful .initial moves ↔
      Run Client.step Client.Safe .initial moves t :=
  run.always_iff Client.Synced
    (fun synced truthful stepped => (Client.step_exact synced truthful stepped).2)
    (fun synced truthful stepped => (Client.step_exact synced truthful stepped).1)
    Client.initial_synced Client.initial_truthful

def plentiful : Client.Alloc := ⟨true, true, true, true⟩

/-- A stop before anything runs, then a connection, its loss and the next one. -/
def lostConnection : List Move :=
  [.stop true, .start plentiful, .worker 0 .succeed, .worker 0 .succeed, .worker 0 .succeed,
    .worker 0 .fail, .worker 0 .succeed, .worker 0 .succeed]

def stoppedAfterLoss : List Move := lostConnection ++ [.stop true]

theorem flags_truthful_iff_lost :
    (∃ t : Client, t.workers = [.looping] ∧ t.isOnline = true ∧
      (Always Client.step Client.Truthful .initial lostConnection ↔
        Run Client.step Client.Safe .initial lostConnection t)) ∧
    ∃ t : Client, t.workers = [.looping] ∧ t.isStarted = false ∧
      (Always Client.step Client.Truthful .initial stoppedAfterLoss ↔
        Run Client.step Client.Safe .initial stoppedAfterLoss t) := by
  have online : (lostConnection.foldlM Client.step .initial).any
      (fun t => t.workers == [.looping] && t.isOnline) = true := by decide
  have stopped : (stoppedAfterLoss.foldlM Client.step .initial).any
      (fun t => t.workers == [.looping] && !t.isStarted) = true := by decide
  obtain ⟨t, run, final⟩ := Run.of_any online
  obtain ⟨u, longer, last⟩ := Run.of_any stopped
  simp only [Bool.and_eq_true, beq_iff_eq, Bool.not_eq_true'] at final last
  exact ⟨⟨t, final.1, final.2, flags_truthful_iff run⟩, u, last.1, last.2, flags_truthful_iff longer⟩

/-- The worker refuses a stop before it is connected; the next start makes two. -/
def refusedStop : List Move := [.start plentiful, .worker 0 .succeed, .stop true, .start plentiful]

/-- The worker obeys a stop after it went online; the flag stays. -/
def obeyedStop : List Move :=
  [.start plentiful, .worker 0 .succeed, .worker 0 .succeed, .worker 0 .succeed, .stop true,
    .worker 0 .command]

theorem stop_breaks_flags :
    (∃ t, Run Client.step Free .initial refusedStop t ∧ t.workers.length = 2 ∧ ¬ t.Truthful) ∧
    ∃ t, Run Client.step Free .initial obeyedStop t ∧ t.workers = [] ∧ t.isOnline = true ∧
      ¬ t.Truthful := by
  have refused : (refusedStop.foldlM Client.step .initial).any
      (fun t => t.workers.length == 2) = true := by decide
  have obeyed : (obeyedStop.foldlM Client.step .initial).any
      (fun t => t.workers == [] && t.isOnline) = true := by decide
  constructor
  · obtain ⟨t, run, final⟩ := Run.of_any refused
    rw [beq_iff_eq] at final
    refine ⟨t, run, final, fun truthful => ?_⟩
    have := truthful.single
    omega
  · obtain ⟨t, run, final⟩ := Run.of_any obeyed
    rw [Bool.and_eq_true, beq_iff_eq] at final
    refine ⟨t, run, final.1, final.2, fun truthful => ?_⟩
    obtain ⟨w, member, _⟩ := truthful.online final.2
    rw [final.1] at member
    exact absurd member List.not_mem_nil

end RemoteBoot.Mqtt
