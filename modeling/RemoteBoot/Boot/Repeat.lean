import RemoteBoot.Boot.Progress

/-! What repeated runs of `system_boot` leave behind. Each complete run makes its
own objects and threads; as long as at most one run gets past MQTT, each thread
exists once and waits on the object whose handle is stored. -/
namespace RemoteBoot.Boot
open Transition Mqtt

variable {Item : Type} {json : CJson Item}

namespace System

def Single (s : System) : Prop := ∀ kind, s.threads.countP (fun th => th.kind = kind) ≤ 1

/-- Whatever a thread is blocked on is the object that its handle names now. -/
def Current (s : System) : Prop := ∀ th ∈ s.threads, ∀ blocked ∈ th.blockedOn,
  ∃ object ∈ th.kind.waitsFor, s.handles object = some blocked

theorem step_past_mono {s t : System} {m : Move} (moved : step json s m = some t) :
    s.past 0 ≤ t.past 0 := by
  by_cases boot : ∃ k outcome, m = .boot k outcome
  · obtain ⟨k, outcome, rfl⟩ := boot
    obtain ⟨a, _, kinds⟩ := step_boot moved
    rcases kinds with ⟨_, _, grows, _⟩ | ⟨_, _, counts, _⟩ | ⟨_, _, counts, _⟩
    · exact grows
    · rw [counts 0]
      exact Nat.le_add_right _ _
    · rw [counts 0]
      exact Nat.le_add_right _ _
  · have := (step_other moved (fun k outcome same => boot ⟨k, outcome, same⟩)).1 0
    omega

/-- The run that stands before a creation is not past it: with one run past MQTT
nothing of that rank or later exists. -/
theorem past_eq_zero {s : System} {k n : Nat} {a : Activation} (found : s.boots[k]? = some a)
    (entered : 0 < a.pc.stage) (before : a.pc.stage ≤ n) (alone : s.past 0 ≤ 1) : s.past n = 0 := by
  have first := past_set (n := 0) (b := .fresh) found
  have later := past_set (n := n) (b := .fresh) found
  rw [if_pos entered, if_neg (by simp [Activation.fresh, Pc.stage])] at first
  rw [if_neg (by omega), if_neg (by simp [Activation.fresh, Pc.stage])] at later
  have order := past_anti { s with boots := s.boots.set k .fresh } (Nat.zero_le n)
  simp only [past] at order
  omega

theorem threadStep_current {s : System} {th th' : Thread} (stepped : s.threadStep th = some th') :
    ∀ blocked ∈ th'.blockedOn, ∃ object ∈ th'.kind.waitsFor, s.handles object = some blocked := by
  unfold threadStep at stepped
  split at stepped
  · cases stepped
    intro blocked member
    cases member
  · rename_i object _ waits
    simp only [Option.map_eq_some_iff] at stepped
    obtain ⟨handle, stored, rfl⟩ := stepped
    intro blocked member
    cases member
    exact ⟨object, waits, stored⟩
  · cases stepped

theorem step_current {s t : System} {m : Move} (accounted : s.Accounted) (current : s.Current)
    (alone : s.past 0 ≤ 1) (moved : step json s m = some t) : t.Current := by
  by_cases boot : ∃ k outcome, m = .boot k outcome
  · obtain ⟨k, outcome, rfl⟩ := boot
    obtain ⟨a, found, kinds⟩ := step_boot moved
    rcases kinds with ⟨_, _, _, handles, threads⟩ | ⟨object, at_, _, handles, threads⟩ |
      ⟨kind, at_, _, handles, threads⟩
    · intro th member blocked waits
      rw [threads] at member
      rw [handles]
      exact current th member blocked waits
    · intro th member blocked waits
      rw [threads] at member
      obtain ⟨other, its, stored⟩ := current th member blocked waits
      -- A thread cannot exist before the objects of the only run are all there.
      have none : s.past th.kind.rank = 0 := by
        refine past_eq_zero found ?_ ?_ alone
        · rw [at_]
          exact object.rank_pos
        · rw [at_]
          exact Nat.le_of_lt (object.rank_lt th.kind)
      rw [← accounted.threads, List.countP_eq_zero] at none
      exact absurd (decide_eq_true rfl) (none th member)
    · intro th member blocked waits
      rw [threads, List.mem_append, List.mem_singleton] at member
      rw [handles]
      rcases member with old | rfl
      · exact current th old blocked waits
      · cases waits
  · obtain ⟨_, handles, threads⟩ := step_other moved
      (fun k outcome same => boot ⟨k, outcome, same⟩)
    intro th member blocked waits
    rw [handles]
    rcases threads with same | ⟨j, before, after, _, stepped, set⟩
    · rw [same] at member
      exact current th member blocked waits
    · rw [set] at member
      rcases List.mem_or_eq_of_mem_set member with old | rfl
      · exact current th old blocked waits
      · exact threadStep_current stepped blocked waits

end System

/-- With at most one run of `system_boot` past the MQTT stage, however many there
were and however they ended, every thread exists at most once and waits only on
the object that the others post to. -/
theorem repeated_boot_single (json : CJson Item)
    (run : Run (System.step json) Free .initial moves t) (alone : t.past 0 ≤ 1) :
    t.Single ∧ t.Current := by
  have invariant : t.Accounted ∧ (t.past 0 ≤ 1 → t.Current) := by
    refine run.invariant (P := fun s => s.Accounted ∧ (s.past 0 ≤ 1 → s.Current)) ?_ ?_
    · intro s m u inv _ moved
      refine ⟨System.step_accounted inv.1 moved, fun few => ?_⟩
      have before := Nat.le_trans (System.step_past_mono moved) few
      exact System.step_current inv.1 (inv.2 before) before moved
    · exact ⟨System.initial_accounted, fun _ th member => absurd member List.not_mem_nil⟩
  refine ⟨fun kind => ?_, invariant.2 alone⟩
  rw [invariant.1.threads]
  exact Nat.le_trans (t.past_anti (Nat.zero_le _)) alone

def firstBoot : List Move :=
  List.replicate 6 (.boot 0 .smooth) ++ List.replicate 3 (.worker 0 .succeed) ++
    List.replicate 9 (.boot 0 .smooth)

theorem repeated_boot_single_first : ∃ t : System, t.threads.length = 5 ∧ t.Single ∧ t.Current := by
  have executed : (firstBoot.foldlM (System.step turnOnJson) .initial).any
      (fun t => t.threads.length == 5 && t.past 0 == 1) = true := by decide
  obtain ⟨t, run, final⟩ := Run.of_any executed
  rw [Bool.and_eq_true, beq_iff_eq, beq_iff_eq] at final
  exact ⟨t, final.1, repeated_boot_single turnOnJson run (Nat.le_of_eq final.2)⟩

def secondBoot : List Move :=
  firstBoot ++ [.thread 0, .shell] ++ List.replicate 15 (.boot 1 .smooth)

/-- Two of each thread, and the first report thread waits on a mailbox that
nobody posts to any more. -/
theorem second_boot_doubles : ∃ t, Run (System.step turnOnJson) Free .initial secondBoot t ∧
    t.threads.length = 10 ∧ ¬ t.Single ∧ ¬ t.Current := by
  have executed : (secondBoot.foldlM (System.step turnOnJson) .initial).any
      (fun t => t.threads.length == 10 && t.threads.countP (fun th => th.kind = .statusReport) == 2 &&
        t.threads[0]? == some ⟨.statusReport, some 0⟩ &&
        t.handles .computerStatusMail == some 3) = true := by decide
  obtain ⟨t, run, final⟩ := Run.of_any executed
  simp only [Bool.and_eq_true, beq_iff_eq] at final
  obtain ⟨⟨⟨all, two⟩, first⟩, handle⟩ := final
  refine ⟨t, run, all, fun single => ?_, fun current => ?_⟩
  · have := single .statusReport
    omega
  · obtain ⟨object, waits, stored⟩ := current _ (List.mem_of_getElem? first) 0 rfl
    cases waits
    rw [handle] at stored
    cases stored

end RemoteBoot.Boot
