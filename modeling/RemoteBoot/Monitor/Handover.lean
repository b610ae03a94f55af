import RemoteBoot.Transition
import RemoteBoot.Monitor.BootCheck

/-! The change from scanning to monitoring while the shell may scan too. Both
threads write the one address at every probe, and the check thread leaves its
first loop for any result but -1, so the address it goes on to ping need not be
the one it found. -/
namespace RemoteBoot.Monitor
open Transition

/-- Where a thread is in `ping_and_find_ip`, with the indices still to come. -/
inductive ScanPoint where
  | entered
  | lookup (left : Nat)
  | test (left : Nat)
  | returned (result : Int)
  deriving DecidableEq, Repr

/-- What a step meets: the interface and the socket, or the ARP table. -/
inductive ScanStep where
  | enter (netifDefault : Option Netif) (stray : Int) (socket : Bool)
  | lookup (netif : Nat) (table : ArpTable)
  | test

def ScanStep.finds : ScanStep → Bool
  | .lookup netif table => getIpFromMac table netif findMac != 0
  | _ => false

namespace ScanPoint

def next : Nat → ScanPoint
  | 0 => .returned (-1)
  | left + 1 => .lookup left

/-- `ping_and_find_ip`, one access to `computer_ip_addr` at a time. -/
def step : ScanPoint → UInt32 → ScanStep → Option (ScanPoint × UInt32)
  | .entered, addr, .enter none stray _ => some (.returned stray, addr)
  | .entered, addr, .enter (some _) _ false => some (.returned (-1), addr)
  | .entered, addr, .enter (some netif) _ true => some (next (hosts netif.netmask), addr)
  | .lookup left, _, .lookup netif table => some (.test left, getIpFromMac table netif findMac)
  | .test left, addr, .test => some (if addr ≠ 0 then .returned 0 else next left, addr)
  | _, _, _ => none

/-- Only a lookup writes the address. -/
theorem step_addr {point after : ScanPoint} {addr addr' : UInt32} {l : ScanStep}
    (stepped : point.step addr l = some (after, addr')) :
    (∃ netif table, l = .lookup netif table ∧ addr' = getIpFromMac table netif findMac) ∨
      ((∀ netif table, l ≠ .lookup netif table) ∧ l.finds = false ∧ addr' = addr) := by
  cases l with
  | enter netifDefault stray socket =>
    refine .inr ⟨fun _ _ => by simp, rfl, ?_⟩
    cases point <;> cases netifDefault <;> cases socket <;> cases stepped <;> rfl
  | lookup netif table =>
    refine .inl ⟨netif, table, rfl, ?_⟩
    cases point <;> cases stepped
    rfl
  | test =>
    refine .inr ⟨fun _ _ => by simp, rfl, ?_⟩
    cases point <;> cases stepped
    rfl

/-- A scan returns 0 with the address, -1, or without an interface anything. -/
theorem step_returned {point : ScanPoint} {addr addr' : UInt32} {l : ScanStep}
    (stepped : point.step addr l = some (.returned result, addr')) :
    (∃ socket, l = .enter none result socket) ∨ result = -1 ∨ result = 0 ∧ addr' ≠ 0 := by
  have ended (left : Nat) (last : next left = .returned result) : result = -1 := by
    cases left <;> cases last
    rfl
  cases l with
  | enter netifDefault stray socket =>
    cases point with
    | entered =>
      cases netifDefault with
      | none =>
        cases stepped
        exact .inl ⟨socket, rfl⟩
      | some netif =>
        cases socket with
        | false =>
          cases stepped
          exact .inr (.inl rfl)
        | true =>
          simp only [step, Option.some.injEq, Prod.mk.injEq] at stepped
          exact .inr (.inl (ended _ stepped.1))
    | lookup | test | returned => cases stepped
  | lookup netif table => cases point <;> cases stepped
  | test =>
    cases point with
    | test left =>
      simp only [step, Option.some.injEq, Prod.mk.injEq] at stepped
      obtain ⟨moved, rfl⟩ := stepped
      split at moved
      · rename_i held
        cases moved
        exact .inr (.inr ⟨rfl, held⟩)
      · exact .inr (.inl (ended left moved))
    | entered | lookup | returned => cases stepped

/-- The steps of a thread that scans alone. -/
def act (s : ScanPoint × UInt32) (l : ScanStep) : Option (ScanPoint × UInt32) := s.1.step s.2 l

theorem loop_alone (netif : Netif) (sent : Nat → Bool) (table : Nat → ArpTable) (addr : UInt32)
    (i n : Nat) : ∃ ls, Run act Free (next n, addr) ls
      (.returned (scanLoop netif sent table addr i n).result,
        (scanLoop netif sent table addr i n).addr) := by
  induction n generalizing i addr with
  | zero => exact ⟨[], .refl _⟩
  | succ n ih =>
    by_cases found : getIpFromMac (table i) netif.index findMac ≠ 0
    · refine ⟨[.lookup netif.index (table i), .test], .next trivial rfl (.next trivial ?_ (.refl _))⟩
      simp only [act, step, scanLoop, if_pos found]
    · obtain ⟨ls, rest⟩ := ih (getIpFromMac (table i) netif.index findMac) (i + 1)
      refine ⟨.lookup netif.index (table i) :: .test :: ls,
        .next trivial rfl (.next (t := (next n, getIpFromMac (table i) netif.index findMac))
          trivial ?_ ?_)⟩
      · simp only [act, step, if_neg found]
      · simpa only [scanLoop, if_neg found] using rest

/-- Undisturbed, the steps come to what the whole function returns and leaves. -/
theorem alone (env : ScanEnv) (addr : UInt32) : ∃ ls, Run act Free (.entered, addr) ls
    (.returned (pingAndFindIp env addr).result, (pingAndFindIp env addr).addr) := by
  cases present : env.netifDefault with
  | none =>
    refine ⟨[.enter none env.stray true], .next trivial ?_ (.refl _)⟩
    simp only [act, step, pingAndFindIp, present]
  | some netif =>
    cases socket : env.socket with
    | false =>
      refine ⟨[.enter (some netif) 0 false], .next trivial ?_ (.refl _)⟩
      simp [act, step, pingAndFindIp, present, socket]
    | true =>
      obtain ⟨ls, rest⟩ := loop_alone netif env.sent env.table addr 1 (hosts netif.netmask)
      refine ⟨.enter (some netif) 0 true :: ls, .next trivial rfl ?_⟩
      simpa only [pingAndFindIp, present, socket, if_true] using rest

end ScanPoint

/-- The address both threads share, the check thread once it runs, where each
thread is in a scan, and whether any lookup so far found the MAC. -/
structure Handover where
  computerIpAddr : UInt32
  thread : Option CheckThread
  point : ScanPoint
  shell : Option ScanPoint
  found : Bool

inductive HandoverStep where
  | start
  | check (l : ScanStep)
  | leave
  | ping (env : PingEnv)
  | command
  | shell (l : ScanStep)
  | finish

namespace Handover

def powerOn : Handover := ⟨0, none, .entered, none, false⟩

def step (s : Handover) : HandoverStep → Option Handover
  | .start =>
    match s.thread with
    | none => some { s with thread := some (.start s.computerIpAddr) }
    | some _ => none
  | .check l =>
    match s.thread with
    | some ⟨.scan, _, _⟩ => (s.point.step s.computerIpAddr l).map fun (point, addr) =>
        { s with point, computerIpAddr := addr, found := s.found || l.finds }
    | _ => none
  | .leave =>
    match s.thread, s.point with
    | some ⟨.scan, status, bak⟩, .returned result =>
      let thread := (CheckThread.mk .scan status bak).report.2
      some { s with thread := some (thread.verdict result), point := .entered }
    | _, _ => none
  | .ping env =>
    match s.thread with
    | some ⟨.monitor, status, bak⟩ =>
      let thread := (CheckThread.mk .monitor status bak).report.2
      some { s with thread := some (thread.verdict (Monitor.ping env)) }
    | _ => none
  | .command =>
    match s.shell with
    | none => some { s with shell := some .entered }
    | some _ => none
  | .shell l =>
    match s.shell with
    | some point => (point.step s.computerIpAddr l).map fun (point, addr) =>
        { s with shell := some point, computerIpAddr := addr, found := s.found || l.finds }
    | none => none
  | .finish =>
    match s.shell with
    | some (.returned _) => some { s with shell := none }
    | _ => none

def Monitoring (s : Handover) : Prop := ∃ thread ∈ s.thread, thread.phase = .monitor

/-- There is an address to ping, and it is no accident. -/
def Monitored (s : Handover) : Prop := s.Monitoring → s.computerIpAddr ≠ 0 ∧ s.found = true

/-- A result other than -1 ends the scan while an address is there, and the shell
misses the MAC at no lookup of the second loop. -/
def Keeps (s : Handover) : HandoverStep → Prop
  | .leave => ∀ result, s.point = .returned result → result ≠ -1 → s.computerIpAddr ≠ 0
  | .shell (.lookup netif table) => s.Monitoring → getIpFromMac table netif findMac ≠ 0
  | _ => True

/-- The address starts out as 0, so whatever it is now was found. -/
def Known (s : Handover) : Prop := s.computerIpAddr ≠ 0 → s.found = true

/-- Entering the second loop, past the first one or out of it. -/
def Enters (s : Handover) : HandoverStep → Prop
  | .start => s.computerIpAddr ≠ 0
  | .leave => ∃ result, s.point = .returned result ∧ result ≠ -1
  | _ => False

theorem step_check {s t : Handover} {l : ScanStep} (stepped : s.step (.check l) = some t) :
    ¬ s.Monitoring ∧ ∃ point addr, s.point.step s.computerIpAddr l = some (point, addr) ∧
      t = { s with point, computerIpAddr := addr, found := s.found || l.finds } := by
  simp only [step] at stepped
  split at stepped
  · rename_i status bak scanning
    simp only [Option.map_eq_some_iff] at stepped
    obtain ⟨⟨point, addr⟩, moved, rfl⟩ := stepped
    exact ⟨by simp [Monitoring, scanning], point, addr, moved, rfl⟩
  · cases stepped

theorem step_shell {s t : Handover} {l : ScanStep} (stepped : s.step (.shell l) = some t) :
    ∃ before after addr, s.shell = some before ∧ before.step s.computerIpAddr l = some (after, addr) ∧
      t = { s with shell := some after, computerIpAddr := addr, found := s.found || l.finds } := by
  simp only [step] at stepped
  split at stepped
  · rename_i before running
    simp only [Option.map_eq_some_iff] at stepped
    obtain ⟨⟨after, addr⟩, moved, rfl⟩ := stepped
    exact ⟨before, after, addr, running, moved, rfl⟩
  · cases stepped

/-- A step looks up and does not change the phase, or leaves the address alone. -/
theorem step_cases {s t : Handover} (stepped : s.step l = some t) :
    (∃ netif table, (l = .shell (.lookup netif table) ∨ l = .check (.lookup netif table) ∧ ¬ s.Monitoring) ∧
      t.computerIpAddr = getIpFromMac table netif findMac ∧
      t.found = (s.found || getIpFromMac table netif findMac != 0) ∧ (t.Monitoring ↔ s.Monitoring)) ∨
    ((∀ netif table, l ≠ .shell (.lookup netif table)) ∧ t.computerIpAddr = s.computerIpAddr ∧
      t.found = s.found ∧ (t.Monitoring ↔ s.Monitoring ∨ s.Enters l)) := by
  cases l with
  | start =>
    simp only [step] at stepped
    split at stepped <;> cases stepped
    rename_i unborn
    refine .inr ⟨fun _ _ => by simp, rfl, rfl, ?_⟩
    simp only [Monitoring, Enters, unborn, CheckThread.start, Option.mem_def, Option.some.injEq,
      exists_eq_left', reduceCtorEq, false_and, exists_false, false_or]
    by_cases zero : s.computerIpAddr = 0 <;> simp [zero]
  | check inner =>
    obtain ⟨early, point, addr, moved, rfl⟩ := step_check stepped
    rcases ScanPoint.step_addr moved with ⟨netif, table, rfl, rfl⟩ | ⟨_, silent, rfl⟩
    · exact .inl ⟨netif, table, .inr ⟨rfl, early⟩, rfl, rfl, Iff.rfl⟩
    · refine .inr ⟨fun _ _ => by simp, rfl, ?_, ?_⟩
      · simp only [silent, Bool.or_false]
      · simp only [Monitoring, Enters, or_false]
  | leave =>
    simp only [step] at stepped
    split at stepped <;> cases stepped
    rename_i status bak result scanning back
    refine .inr ⟨fun _ _ => by simp, rfl, rfl, ?_⟩
    simp only [Monitoring, Enters, scanning, back, CheckThread.report, CheckThread.verdict,
      Option.mem_def, Option.some.injEq, exists_eq_left', ScanPoint.returned.injEq, reduceCtorEq, false_or]
    by_cases failed : result = -1 <;> simp [failed]
  | ping env =>
    simp only [step] at stepped
    split at stepped <;> cases stepped
    rename_i status bak monitoring
    refine .inr ⟨fun _ _ => by simp, rfl, rfl, ?_⟩
    simp [Monitoring, monitoring, CheckThread.report, CheckThread.verdict]
  | command =>
    simp only [step] at stepped
    split at stepped <;> cases stepped
    refine .inr ⟨fun _ _ => by simp, rfl, rfl, ?_⟩
    simp only [Monitoring, Enters, or_false]
  | shell inner =>
    obtain ⟨before, after, addr, _, moved, rfl⟩ := step_shell stepped
    rcases ScanPoint.step_addr moved with ⟨netif, table, rfl, rfl⟩ | ⟨other, silent, rfl⟩
    · exact .inl ⟨netif, table, .inl rfl, rfl, rfl, Iff.rfl⟩
    · refine .inr ⟨fun netif table same => other netif table (by injection same), rfl, ?_, ?_⟩
      · simp only [silent, Bool.or_false]
      · simp only [Monitoring, Enters, or_false]
  | finish =>
    simp only [step] at stepped
    split at stepped <;> cases stepped
    refine .inr ⟨fun _ _ => by simp, rfl, rfl, ?_⟩
    simp only [Monitoring, Enters, or_false]

theorem step_known {s t : Handover} (known : s.Known) (stepped : s.step l = some t) : t.Known := by
  rcases step_cases stepped with ⟨netif, table, _, address, found, _⟩ | ⟨_, address, found, _⟩
  · intro hit
    rw [address] at hit
    rw [found, bne_iff_ne.mpr hit, Bool.or_true]
  · intro held
    rw [address] at held
    rw [found, known held]

theorem step_monitored {s t : Handover} (known : s.Known) (monitored : s.Monitored)
    (stepped : s.step l = some t) : t.Monitored ↔ s.Keeps l := by
  rcases step_cases stepped with ⟨netif, table, rfl | ⟨rfl, early⟩, address, found, phase⟩ |
    ⟨other, address, found, phase⟩
  · simp only [Monitored, Keeps, phase, address, found]
    constructor
    · exact fun kept monitoring => (kept monitoring).1
    · intro kept monitoring
      exact ⟨kept monitoring, by rw [(monitored monitoring).2, Bool.true_or]⟩
  · refine iff_of_true (fun monitoring => ?_) trivial
    exact absurd (phase.mp monitoring) early
  · have entered : t.Monitored ↔ (s.Enters l → s.computerIpAddr ≠ 0) := by
      simp only [Monitored, phase, address, found]
      constructor
      · exact fun kept enters => (kept (.inr enters)).1
      · rintro kept (monitoring | enters)
        · exact monitored monitoring
        · exact ⟨kept enters, known (kept enters)⟩
    rw [entered]
    cases l with
    | start => simp only [Enters, Keeps, imp_self]
    | leave => simp only [Enters, Keeps, forall_exists_index, and_imp]
    | shell inner =>
      cases inner with
      | lookup netif table => exact absurd rfl (other netif table)
      | enter | test => simp only [Enters, Keeps, false_implies]
    | check | ping | command | finish => simp only [Enters, Keeps, false_implies]

theorem powerOn_known : powerOn.Known := fun held => absurd rfl held

theorem powerOn_monitored : powerOn.Monitored := by
  rintro ⟨thread, started, _⟩
  cases started

/-- Whenever the second loop runs there is an address, and a lookup that found it,
exactly when every step of the run keeps it. -/
theorem monitored_iff (run : Run step Free powerOn ls t) :
    Always step Monitored powerOn ls ↔ Run step Keeps powerOn ls t := by
  refine run.always_iff Known ?_ ?_ powerOn_known powerOn_monitored
  · intro s l u known _ stepped _
    exact step_known known stepped
  · intro s l u known monitored stepped
    exact step_monitored known monitored stepped

def sampleScan : List HandoverStep :=
  [.start, .check (.enter (some ⟨0, 0x0101a8c0, 0xfcffffff⟩) 0 true),
    .check (.lookup 0 [⟨.stable, 0, 0x0201a8c0, findMac⟩]), .check .test, .leave]

theorem monitored_iff_sample :
    Always step Monitored powerOn sampleScan ↔
      Run step Keeps powerOn sampleScan ⟨0x0201a8c0, some ⟨.monitor, 1, 0⟩, .entered, none, true⟩ :=
  monitored_iff (.of_foldlM rfl)

/-- Without an interface the result is whatever a register held, and the thread
monitors the address 0. -/
theorem stray_result_monitored :
    ∃ t, Run step Free powerOn [.start, .check (.enter none 7 true), .leave] t ∧ ¬ t.Monitored := by
  refine ⟨_, .next trivial rfl (.next trivial rfl (.next trivial rfl (.refl _))), ?_⟩
  intro monitored
  exact (monitored ⟨_, rfl, rfl⟩).1 rfl

/-- What is enough: no stray result ends a scan, and the shell misses nothing
once the check thread has found the address. -/
def Careful (s : Handover) : HandoverStep → Prop
  | .check (.enter none stray _) => stray = -1
  | .shell (.lookup netif table) =>
    s.Monitoring ∨ s.point = .returned 0 → getIpFromMac table netif findMac ≠ 0
  | _ => True

def Sure (s : Handover) : Prop :=
  ∀ result, s.point = .returned result → result = -1 ∨ result = 0 ∧ s.computerIpAddr ≠ 0

theorem step_sure {s t : Handover} (sure : s.Sure) (careful : s.Careful l)
    (stepped : s.step l = some t) : t.Sure := by
  cases l with
  | check inner =>
    obtain ⟨_, point, addr, moved, rfl⟩ := step_check stepped
    rintro result rfl
    rcases ScanPoint.step_returned moved with ⟨socket, rfl⟩ | failed | held
    · exact .inl careful
    · exact .inl failed
    · exact .inr held
  | shell inner =>
    obtain ⟨before, after, addr, _, moved, rfl⟩ := step_shell stepped
    intro result back
    rcases ScanPoint.step_addr moved with ⟨netif, table, rfl, rfl⟩ | ⟨_, _, rfl⟩
    · rcases sure result back with failed | ⟨rfl, _⟩
      · exact .inl failed
      · exact .inr ⟨rfl, careful (.inr back)⟩
    · exact sure result back
  | leave =>
    simp only [step] at stepped
    split at stepped <;> cases stepped
    rintro result back
    cases back
  | start | ping | command | finish =>
    simp only [step] at stepped
    split at stepped <;> cases stepped
    exact sure

theorem careful_keeps (run : Run step Careful powerOn ls t) : Run step Keeps powerOn ls t := by
  refine run.weaken Sure ?_ ?_ (fun result back => by cases back)
  · intro s l u sure careful stepped
    exact step_sure sure careful stepped
  · intro s l sure careful
    cases l with
    | leave =>
      intro result back other
      exact ((sure result back).resolve_left other).2
    | shell inner =>
      cases inner with
      | lookup netif table => exact fun monitoring => careful (.inl monitoring)
      | enter | test => trivial
    | start | check | ping | command | finish => trivial

end Handover
end RemoteBoot.Monitor
