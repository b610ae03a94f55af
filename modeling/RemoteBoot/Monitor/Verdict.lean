import RemoteBoot.Transition
import RemoteBoot.Wake.Packet
import RemoteBoot.Monitor.BootCheck

/-! What the reported status says about the saved address. The thread looks for
`find_mac`, scans once and then only pings, so its verdicts agree with the ARP
table exactly when what the network does makes these differences invisible. -/
namespace RemoteBoot.Monitor
open Transition Config Wake

structure Network extends ScanEnv where
  ping : PingEnv

/-- The status an iteration computed and the ARP table at that check: the one at
the last lookup of a scan, or the current one. -/
structure Check where
  status : Nat
  table : ArpTable
  deriving DecidableEq

structure Watch where
  thread : CheckThread
  computerIpAddr : UInt32
  checks : List Check

namespace Watch

def start (computerIpAddr : UInt32) : Watch := ⟨.start computerIpAddr, computerIpAddr, []⟩

def check (s : Watch) (net : Network) : Watch :=
  let thread := s.thread.report.2
  match thread.phase with
  | .scan =>
    let r := pingAndFindIp net.toScanEnv s.computerIpAddr
    let thread := thread.verdict r.result
    ⟨thread, r.addr, s.checks ++ [⟨thread.computerStatus, net.table r.probed.length⟩]⟩
  | .monitor =>
    let thread := thread.verdict (Monitor.ping net.ping)
    ⟨thread, s.computerIpAddr, s.checks ++ [⟨thread.computerStatus, net.table 0⟩]⟩

def step (s : Watch) (net : Network) : Option Watch := some (s.check net)

end Watch

/-- Every status so far was 1 exactly when the table resolved the address. -/
def Truthful (mac : List UInt8) (checks : List Check) : Prop :=
  ∀ c ∈ checks, c.status = if Resolved mac c.table then 1 else 0

/-- Some lookup of the scan finds the address, or the last one misses nothing. -/
def ScanEnv.Exact (env : ScanEnv) : Prop :=
  match env.netifDefault with
  | none => env.stray ≠ -1 ↔ Resolved findMac (env.table 0)
  | some netif =>
    if env.socket then
      (∃ k < hosts netif.netmask, getIpFromMac (env.table (1 + k)) netif.index findMac ≠ 0) ∨
        ¬ Resolved findMac (env.table (hosts netif.netmask))
    else ¬ Resolved findMac (env.table 0)

def PingEnv.Answered (env : PingEnv) : Prop :=
  env.socket ∧ env.sent ∧ ∃ packet ∈ env.delivered.head?, packet.type = icmpEr

/-- The network hides none of the differences between the two rules. -/
def Watch.Agrees (s : Watch) (net : Network) : Prop :=
  match s.thread.phase with
  | .scan => net.Exact
  | .monitor => net.ping.Answered ↔ Resolved findMac (net.table 0)

theorem ping_answered (env : PingEnv) : ping env = 1 ↔ env.Answered := by
  cases sent : env.socket && env.sent with
  | false =>
    simp only [Bool.and_eq_false_iff] at sent
    simp only [ping, PingEnv.Answered]
    rcases sent with none | none <;> simp [none]
  | true =>
    simp only [Bool.and_eq_true] at sent
    simp only [ping, PingEnv.Answered, sent, Bool.and_self, if_true, true_and]
    cases env.delivered.head? with
    | none => simp
    | some packet => by_cases reply : packet.type = icmpEr <;> simp [reply]

theorem pingAndFindIp_exact (env : ScanEnv) (addr : UInt32) :
    ((pingAndFindIp env addr).result ≠ -1 ↔
      Resolved findMac (env.table (pingAndFindIp env addr).probed.length)) ↔ env.Exact := by
  cases present : env.netifDefault with
  | none => simp [pingAndFindIp, ScanEnv.Exact, present]
  | some netif =>
    by_cases socket : env.socket
    · simp only [pingAndFindIp, ScanEnv.Exact, present, if_pos socket]
      rcases scanLoop_cases netif env.sent env.table addr 1 (hosts netif.netmask) with
        ⟨k, inside, result, probed, _, hit⟩ | ⟨result, probed, missed⟩
      · have resolved := resolved_of_found hit
        rw [Nat.add_comm] at resolved
        simp only [result, probed, resolved]
        exact iff_of_true (by decide) (.inl ⟨k, inside, hit⟩)
      · have noHit : ¬ ∃ k < hosts netif.netmask,
            getIpFromMac (env.table (1 + k)) netif.index findMac ≠ 0 := by
          rintro ⟨k, inside, hit⟩
          exact hit (missed k inside)
        simp only [result, probed, noHit, false_or]
        simp
    · simp [pingAndFindIp, ScanEnv.Exact, present, socket]

/-- While the thread still scans, it has reported nothing but 0. -/
def Watch.Quiet (s : Watch) : Prop := s.thread.phase = .scan → s.thread.computerStatus = 0

theorem Watch.start_quiet (ip : UInt32) : (start ip).Quiet := fun _ => rfl

theorem Watch.check_quiet {s : Watch} (quiet : s.Quiet) (net : Network) : (s.check net).Quiet := by
  cases phase : s.thread.phase with
  | scan =>
    simp only [check, CheckThread.report, phase, CheckThread.verdict, Quiet]
    split
    · exact fun _ => quiet phase
    · exact fun scanning => by cases scanning
  | monitor =>
    simp only [check, CheckThread.report, phase, CheckThread.verdict, Quiet]
    exact fun scanning => by cases scanning

theorem truthful_append (mac : List UInt8) (checks : List Check) (c : Check) :
    Truthful mac (checks ++ [c]) ↔
      Truthful mac checks ∧ c.status = if Resolved mac c.table then 1 else 0 := by
  simp only [Truthful, List.mem_append, List.mem_singleton]
  constructor
  · exact fun all => ⟨fun d member => all d (.inl member), all c (.inr rfl)⟩
  · rintro ⟨before, last⟩ d (member | rfl)
    · exact before d member
    · exact last

theorem flag_eq_iff (p q : Prop) [Decidable p] [Decidable q] :
    (if p then 1 else 0) = (if q then 1 else 0) ↔ (p ↔ q) := by
  by_cases left : p <;> by_cases right : q <;> simp [left, right]

theorem Watch.check_truthful {s : Watch} (quiet : s.Quiet) (net : Network) :
    Truthful findMac (s.check net).checks ↔ Truthful findMac s.checks ∧ s.Agrees net := by
  cases phase : s.thread.phase with
  | scan =>
    have status : ((s.thread.report.2.verdict
        (pingAndFindIp net.toScanEnv s.computerIpAddr).result).computerStatus) =
          if (pingAndFindIp net.toScanEnv s.computerIpAddr).result ≠ -1 then 1 else 0 := by
      simp only [CheckThread.report, CheckThread.verdict, phase, ne_eq, ite_not]
      split
      · exact quiet phase
      · rfl
    simp only [check, CheckThread.report, phase, truthful_append, Agrees]
    simp only [CheckThread.report, phase] at status
    rw [status, flag_eq_iff, pingAndFindIp_exact]
  | monitor =>
    simp only [check, CheckThread.report, phase, CheckThread.verdict, truthful_append, Agrees]
    rw [flag_eq_iff, ping_answered]

/-- The thread of `wol.c` wakes the address whenever it sends. -/
def Wakes (file : List UInt8) (mac : List UInt8) : Prop :=
  ∀ netdev sockfd stack left actions, sockfd ≠ -1 →
    wolThread netdev sockfd (some file) stack = some (left, actions) →
    datagrams actions = [(magicPacket mac, ⟨htons 9, broadcastAddr netdev⟩)]

theorem wakes_iff (s : Settings) (line : MacLine (s .macAddress).bytes) {mac : List UInt8}
    (six : mac.length = 6) : Wakes s.encode mac ↔ macOf (s .macAddress).bytes = mac := by
  constructor
  · intro wakes
    obtain ⟨left, actions, turn, sent⟩ := wolThread_sends ⟨0, 0⟩ (by decide : (0 : Int) ≠ -1) s line
      .zeroed
    have same := sent.symm.trans (wakes _ _ _ _ _ (by decide) turn)
    simp only [List.cons.injEq, Prod.mk.injEq, and_true] at same
    exact magicPacket_injective (by simp [macOf]) six same
  · rintro rfl netdev sockfd stack left actions created turn
    obtain ⟨left', actions', turn', sent⟩ := wolThread_sends netdev created s line stack
    cases turn.symm.trans turn'
    exact sent

/-- The status always says whether the saved address is resolved, and the saved
address is the one that is woken and looked for, exactly when the saved address
is `find_mac` and every check of the run meets a network that agrees. -/
theorem status_truthful_iff (s : Settings) (line : MacLine (s .macAddress).bytes) (ip : UInt32)
    (run : Run Watch.step Free (Watch.start ip) nets t) :
    (Wakes s.encode findMac ∧ Truthful (macOf (s .macAddress).bytes) t.checks) ↔
      macOf (s .macAddress).bytes = findMac ∧
        Run Watch.step Watch.Agrees (Watch.start ip) nets t := by
  have history : Truthful findMac t.checks ↔ Run Watch.step Watch.Agrees (Watch.start ip) nets t := by
    refine run.good_iff Watch.Quiet (fun u => Truthful findMac u.checks) ?_ ?_ (Watch.start_quiet ip) ?_
    · intro u net v quiet stepped
      cases stepped
      exact Watch.check_quiet quiet net
    · intro u net v quiet stepped
      cases stepped
      exact Watch.check_truthful quiet net
    · exact fun c member => absurd member List.not_mem_nil
  rw [wakes_iff s line rfl]
  constructor
  · rintro ⟨same, truthful⟩
    rw [same] at truthful
    exact ⟨same, history.mp truthful⟩
  · rintro ⟨same, admitted⟩
    rw [same]
    exact ⟨rfl, history.mpr admitted⟩

def sampleSettings : Settings := fun f =>
  if f = .macAddress then ⟨sampleLine, by decide, by decide, by decide⟩ else lettered f

def sampleEntry : EtharpEntry := ⟨.stable, 0, 0x0201a8c0, macOf sampleLine⟩

/-- A network of two hosts in which that computer is up and answers. -/
def sampleNetwork : Network where
  netifDefault := some ⟨0, 0x0101a8c0, 0xfcffffff⟩
  stray := 0
  socket := true
  sent := fun _ => true
  table := fun _ => [sampleEntry]
  ping := ⟨true, true, [⟨0x0201a8c0, icmpEr, 1, 1⟩]⟩

theorem status_truthful_iff_sample :
    (Wakes sampleSettings.encode findMac ∧ Truthful (macOf (sampleSettings .macAddress).bytes)
        ((Watch.start 0).check sampleNetwork).checks) ↔
      macOf (sampleSettings .macAddress).bytes = findMac ∧
        Run Watch.step Watch.Agrees (Watch.start 0) [sampleNetwork]
          ((Watch.start 0).check sampleNetwork) :=
  status_truthful_iff sampleSettings sampleLine_mac 0 (.next trivial rfl (.refl _))

/-- The saved computer is up and resolved; the status says 0, and what is woken
is not what was looked for. -/
theorem status_misses_saved_mac : MacLine (sampleSettings .macAddress).bytes ∧
    Run Watch.step Free (Watch.start 0) [sampleNetwork] ((Watch.start 0).check sampleNetwork) ∧
    ¬ Truthful (macOf (sampleSettings .macAddress).bytes)
      ((Watch.start 0).check sampleNetwork).checks ∧
    ¬ Wakes sampleSettings.encode findMac := by
  refine ⟨sampleLine_mac, .next trivial rfl (.refl _), ?_, ?_⟩
  · intro truthful
    exact absurd (truthful ⟨0, [sampleEntry]⟩ (by decide)) (by decide)
  · intro wakes
    exact absurd ((wakes_iff sampleSettings sampleLine_mac rfl).mp wakes) (by decide)

end RemoteBoot.Monitor
