import RemoteBoot.Boot.System

/-! How far the runs of `system_boot` got accounts for everything they made: the
threads of a kind are the runs past its creation, and a handle is set once some
run is past the creation of its object. -/
namespace RemoteBoot.Boot
open Transition Mqtt

/-- The place of a creation among the creations of a boot. -/
def Ipc.rank : Ipc → Nat
  | .computerStatusMail => 1
  | .computerOnSem => 2
  | .pageMail => 3

def Kind.rank : Kind → Nat
  | .statusReport => 4
  | .statusCheck => 5
  | .wol => 6
  | .ui => 7
  | .keyCheck => 8

/-- The creation a run stands before; 0 until MQTT is connected. -/
def Pc.stage : Pc → Nat
  | .create object => object.rank
  | .spawn kind => kind.rank
  | .running => 9
  | _ => 0

@[simp] theorem Ipc.stage_next (object : Ipc) : object.next.stage = object.rank + 1 := by
  cases object <;> rfl

@[simp] theorem Kind.stage_next (kind : Kind) : kind.next.stage = kind.rank + 1 := by
  cases kind <;> rfl

theorem Ipc.rank_pos (object : Ipc) : 0 < object.rank := by
  cases object <;> decide

theorem Kind.rank_pos (kind : Kind) : 0 < kind.rank := by
  cases kind <;> decide

theorem Ipc.rank_injective {o p : Ipc} (same : o.rank = p.rank) : o = p := by
  cases o <;> cases p <;> first | rfl | cases same

theorem Kind.rank_injective {k l : Kind} (same : k.rank = l.rank) : k = l := by
  cases k <;> cases l <;> first | rfl | cases same

theorem Ipc.rank_lt (object : Ipc) (kind : Kind) : object.rank < kind.rank := by
  cases object <;> cases kind <;> decide

namespace System

/-- How many runs are past the creation of rank `n`. -/
def past (s : System) (n : Nat) : Nat := s.boots.countP fun a => n < a.pc.stage

theorem bootStep_cases {s t : System} {a b : Activation} {outcome : Outcome}
    (done : s.bootStep a outcome = some (t, b)) :
    (a.pc.stage = 0 ∧ b.pc.stage ≤ 1 ∧ ∃ client, t = { s with client }) ∨
    (∃ object, a.pc = .create object ∧ b.pc = object.next ∧
      t = { s with handles := Function.update s.handles object (some s.objects),
                   objects := s.objects + 1 }) ∨
    (∃ kind, a.pc = .spawn kind ∧ b.pc = kind.next ∧
      t = { s with threads := s.threads ++ [⟨kind, none⟩] }) := by
  cases at_ : a.pc
  case create object =>
    simp only [bootStep, at_, Option.some.injEq, Prod.mk.injEq] at done
    obtain ⟨rfl, rfl⟩ := done
    exact .inr (.inl ⟨object, rfl, rfl, rfl⟩)
  case spawn kind =>
    simp only [bootStep, at_, Option.some.injEq, Prod.mk.injEq] at done
    obtain ⟨rfl, rfl⟩ := done
    exact .inr (.inr ⟨kind, rfl, rfl, rfl⟩)
  case running => simp [bootStep, at_] at done
  case failed => simp [bootStep, at_] at done
  -- Up to the connection nothing but the client changes.
  all_goals
    simp only [bootStep, at_] at done
    repeat' split at done
    all_goals
      cases done
      exact .inl ⟨rfl, by simp [Activation.goto, Pc.stage, Ipc.rank, at_], _, rfl⟩

theorem past_set {s : System} {k n : Nat} {a b : Activation} (found : s.boots[k]? = some a) :
    (s.boots.set k b).countP (fun a => n < a.pc.stage) + (if n < a.pc.stage then 1 else 0) =
      s.past n + if n < b.pc.stage then 1 else 0 := by
  obtain ⟨inside, rfl⟩ := List.getElem?_eq_some_iff.mp found
  have counted := List.boole_getElem_le_countP (p := fun a => decide (n < a.pc.stage)) inside
  rw [List.countP_set inside, past]
  simp only [decide_eq_true_eq] at counted ⊢
  omega

theorem past_anti (s : System) {m n : Nat} (less : m ≤ n) : s.past n ≤ s.past m := by
  refine List.countP_mono_left fun a _ beyond => ?_
  simp only [decide_eq_true_eq] at beyond ⊢
  omega

theorem threadStep_kind {s : System} {th th' : Thread} (stepped : s.threadStep th = some th') :
    th'.kind = th.kind := by
  unfold threadStep at stepped
  split at stepped
  · cases stepped
    rfl
  · simp only [Option.map_eq_some_iff] at stepped
    obtain ⟨_, _, rfl⟩ := stepped
    rfl
  · cases stepped

variable {Item : Type} {json : CJson Item}

theorem step_other {s t : System} {m : Move} (moved : step json s m = some t)
    (other : ∀ k outcome, m ≠ .boot k outcome) :
    (∀ n, t.past n = s.past n) ∧ t.handles = s.handles ∧ (t.threads = s.threads ∨
      ∃ j th th', s.threads[j]? = some th ∧ s.threadStep th = some th' ∧
        t.threads = s.threads.set j th') := by
  cases m with
  | boot k outcome => exact absurd rfl (other k outcome)
  | shell =>
    simp only [step] at moved
    split at moved
    · cases moved
      refine ⟨fun n => ?_, rfl, .inl rfl⟩
      simp [past, List.countP_append, Activation.fresh, Pc.stage]
    · cases moved
  | stop written =>
    cases moved
    exact ⟨fun _ => rfl, rfl, .inl rfl⟩
  | worker k outcome =>
    simp only [step, Option.bind_eq_bind, Option.bind_eq_some_iff, Option.some.injEq] at moved
    obtain ⟨client, _, rfl⟩ := moved
    exact ⟨fun _ => rfl, rfl, .inl rfl⟩
  | deliver k payload =>
    simp only [step] at moved
    split at moved
    · cases moved
      exact ⟨fun _ => rfl, rfl, .inl rfl⟩
    · cases moved
  | thread j =>
    simp only [step, Option.bind_eq_bind, Option.bind_eq_some_iff, Option.some.injEq] at moved
    obtain ⟨th, found, th', stepped, rfl⟩ := moved
    exact ⟨fun _ => rfl, rfl, .inr ⟨j, th, th', found, stepped, rfl⟩⟩

theorem step_boot {s t : System} {k : Nat} {outcome : Outcome}
    (moved : step json s (.boot k outcome) = some t) :
    ∃ a, s.boots[k]? = some a ∧
    ((a.pc.stage = 0 ∧ (∀ n, 0 < n → t.past n = s.past n) ∧ s.past 0 ≤ t.past 0 ∧
        t.handles = s.handles ∧ t.threads = s.threads) ∨
    (∃ object, a.pc = .create object ∧
        (∀ n, t.past n = s.past n + if n = object.rank then 1 else 0) ∧
        t.handles = Function.update s.handles object (some s.objects) ∧ t.threads = s.threads) ∨
    (∃ kind, a.pc = .spawn kind ∧ (∀ n, t.past n = s.past n + if n = kind.rank then 1 else 0) ∧
        t.handles = s.handles ∧ t.threads = s.threads ++ [⟨kind, none⟩])) := by
  simp only [step, Option.bind_eq_bind, Option.bind_eq_some_iff, Option.some.injEq,
    Prod.exists] at moved
  obtain ⟨a, found, u, b, done, rfl⟩ := moved
  refine ⟨a, found, ?_⟩
  have boots : u.boots = s.boots := by
    rcases bootStep_cases done with ⟨_, _, _, rfl⟩ | ⟨_, _, _, rfl⟩ | ⟨_, _, _, rfl⟩ <;> rfl
  have counts : ∀ n, ({ u with boots := u.boots.set k b } : System).past n +
      (if n < a.pc.stage then 1 else 0) = s.past n + if n < b.pc.stage then 1 else 0 := by
    intro n
    rw [← past_set found, ← boots]
    rfl
  rcases bootStep_cases done with ⟨early, small, _, rfl⟩ | ⟨object, at_, after, rfl⟩ |
    ⟨kind, at_, after, rfl⟩
  · refine .inl ⟨early, fun n positive => ?_, ?_, rfl, rfl⟩
    · have := counts n
      rw [if_neg (by omega), if_neg (by omega)] at this
      exact this
    · have := counts 0
      rw [if_neg (by omega)] at this
      omega
  · refine .inr (.inl ⟨object, at_, fun n => ?_, rfl, rfl⟩)
    have := counts n
    rw [at_, after, Ipc.stage_next, Pc.stage] at this
    split at this <;> split at this <;> split <;> omega
  · refine .inr (.inr ⟨kind, at_, fun n => ?_, rfl, rfl⟩)
    have := counts n
    rw [at_, after, Kind.stage_next, Pc.stage] at this
    split at this <;> split at this <;> split <;> omega

/-- Everything that was made is accounted for by the runs that are past it. -/
structure Accounted (s : System) : Prop where
  threads : ∀ kind, s.threads.countP (fun th => th.kind = kind) = s.past kind.rank
  handles : ∀ object, (s.handles object).isSome ↔ 0 < s.past object.rank

theorem initial_accounted : initial.Accounted :=
  ⟨fun kind => by cases kind <;> rfl, fun object => by cases object <;> decide⟩

theorem step_accounted {s t : System} {m : Move} (accounted : s.Accounted)
    (moved : step json s m = some t) : t.Accounted := by
  by_cases boot : ∃ k outcome, m = .boot k outcome
  · obtain ⟨k, outcome, rfl⟩ := boot
    obtain ⟨a, _, kinds⟩ := step_boot moved
    rcases kinds with ⟨_, counts, _, handles, threads⟩ | ⟨object, _, counts, handles, threads⟩ |
      ⟨kind, _, counts, handles, threads⟩
    · refine ⟨fun kind => ?_, fun object => ?_⟩
      · rw [threads, counts _ kind.rank_pos]
        exact accounted.threads kind
      · rw [handles, counts _ object.rank_pos]
        exact accounted.handles object
    · refine ⟨fun kind => ?_, fun other => ?_⟩
      · rw [threads, counts, if_neg (Nat.ne_of_gt (object.rank_lt kind))]
        exact accounted.threads kind
      · by_cases same : other = object
        · subst same
          rw [handles, Function.update_self, counts, if_pos rfl]
          simp
        · have apart : other.rank ≠ object.rank := fun ranks => same (Ipc.rank_injective ranks)
          rw [handles, Function.update_of_ne same, counts, if_neg apart]
          exact accounted.handles other
    · refine ⟨fun other => ?_, fun object => ?_⟩
      · rw [threads, counts, List.countP_append, accounted.threads other, List.countP_singleton]
        by_cases same : kind = other
        · simp [same]
        · have apart : other.rank ≠ kind.rank := fun ranks => same (Kind.rank_injective ranks).symm
          simp [same, apart]
      · rw [handles, counts, if_neg (Nat.ne_of_lt (object.rank_lt kind))]
        exact accounted.handles object
  · obtain ⟨counts, handles, threads⟩ := step_other moved
      (fun k outcome same => boot ⟨k, outcome, same⟩)
    refine ⟨fun kind => ?_, fun object => ?_⟩
    · rw [counts, ← accounted.threads kind]
      rcases threads with same | ⟨j, th, th', found, stepped, set⟩
      · rw [same]
      · obtain ⟨inside, rfl⟩ := List.getElem?_eq_some_iff.mp found
        have counted := List.boole_getElem_le_countP (p := fun th => decide (th.kind = kind)) inside
        rw [set, List.countP_set inside, threadStep_kind stepped]
        omega
    · rw [handles, counts]
      exact accounted.handles object

end System
end RemoteBoot.Boot
