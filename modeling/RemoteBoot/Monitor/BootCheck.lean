import Mathlib.Logic.Function.Iterate
import RemoteBoot.Monitor.Etharp

/-! `boot_check.c`: the scan of the subnet, the ping of the remembered address,
and the thread that turns their results into a status. -/
namespace RemoteBoot.Monitor

def findMac : List UInt8 := [0x88, 0xae, 0xdd, 0x15, 0x60, 0x95]

def popcount (x : UInt32) : Nat := (List.range 32).countP fun k => x.toNat.testBit k

/-- `num_addresses` after the doubling loop, in 32 bits. -/
def numAddresses (subnetMask : UInt32) : UInt32 := (· * 2)^[32 - popcount subnetMask] 1

/-- The indices `1 .. num_addresses - 2` of the scan, how many they are. -/
def hosts (subnetMask : UInt32) : Nat := (numAddresses subnetMask - 1).toNat - 1

structure Netif where
  index : Nat
  ipAddr : UInt32
  netmask : UInt32

/-- What a scan meets. `stray` is what a caller finds as the result of a function
that returned without one; `sent i` is whether `lwip_sendto` takes the request of
probe `i`; `table i` is the ARP table at the lookup after that probe, `table 0` the
one at the start. -/
structure ScanEnv where
  netifDefault : Option Netif
  stray : Int
  socket : Bool
  sent : Nat → Bool
  table : Nat → ArpTable

/-- The result, `computer_ip_addr` afterwards, the addresses that had their turn,
and those to which an echo request went out. -/
structure ScanResult where
  result : Int
  addr : UInt32
  probed : List UInt32
  requests : List UInt32

/-- The probing loop from index `i` on, with `n` indices to go. After a send that
fails there is nothing to receive, and the loop goes on with the lookup. -/
def scanLoop (netif : Netif) (sent : Nat → Bool) (table : Nat → ArpTable) (addr : UInt32) :
    Nat → Nat → ScanResult
  | _, 0 => ⟨-1, addr, [], []⟩
  | i, n + 1 =>
    let baseIp := netif.ipAddr &&& netif.netmask
    let ip := baseIp ||| UInt32.ofNat i <<< 24
    let request := if sent i then [ip] else []
    let addr := getIpFromMac (table i) netif.index findMac
    if addr ≠ 0 then ⟨0, addr, [ip], request⟩
    else
      let later := scanLoop netif sent table addr (i + 1) n
      { later with probed := ip :: later.probed, requests := request ++ later.requests }

def pingAndFindIp (env : ScanEnv) (addr : UInt32) : ScanResult :=
  match env.netifDefault with
  | none => ⟨env.stray, addr, [], []⟩
  | some netif =>
    if env.socket then scanLoop netif env.sent env.table addr 1 (hosts netif.netmask)
    else ⟨-1, addr, [], []⟩

structure IcmpPacket where
  src : UInt32
  type : UInt8
  id : UInt16
  seqno : UInt16
  deriving DecidableEq

def icmpEr : UInt8 := 0

/-- What a ping meets: the results of `lwip_socket` and `lwip_sendto`, and the
packets that reach the raw socket before the timeout. -/
structure PingEnv where
  socket : Bool
  sent : Bool
  delivered : List IcmpPacket

/-- `ping`. One `lwip_recv`, so only the first packet counts. -/
def ping (env : PingEnv) : Int :=
  if env.socket && env.sent then
    match env.delivered.head? with
    | some packet => if packet.type = icmpEr then 1 else 0
    | none => 0
  else 0

inductive Phase where
  | scan | monitor
  deriving DecidableEq, Repr

structure CheckThread where
  phase : Phase
  computerStatus : Nat
  computerStatusBak : Nat

namespace CheckThread

def start (computerIpAddr : UInt32) : CheckThread :=
  ⟨if computerIpAddr = 0 then .scan else .monitor, 0, 1⟩

/-- The head of both loops: the value handed to `rt_mb_send`, if any. -/
def report (t : CheckThread) : Option Nat × CheckThread :=
  (if t.computerStatus ≠ t.computerStatusBak then some t.computerStatus else none,
    { t with computerStatusBak := t.computerStatus })

/-- The tail: what the result of `ping_and_find_ip` or of `ping` makes of the status. -/
def verdict (t : CheckThread) (result : Int) : CheckThread :=
  match t.phase with
  | .scan => if result = -1 then t else { t with computerStatus := 1, phase := .monitor }
  | .monitor => { t with computerStatus := if result = 1 then 1 else 0 }

end CheckThread

theorem scanLoop_cases (netif : Netif) (sent : Nat → Bool) (table : Nat → ArpTable) (addr : UInt32)
    (i n : Nat) :
    (∃ k, k < n ∧ (scanLoop netif sent table addr i n).result = 0 ∧
      (scanLoop netif sent table addr i n).probed.length = k + 1 ∧
      (scanLoop netif sent table addr i n).addr = getIpFromMac (table (i + k)) netif.index findMac ∧
      getIpFromMac (table (i + k)) netif.index findMac ≠ 0) ∨
    ((scanLoop netif sent table addr i n).result = -1 ∧
      (scanLoop netif sent table addr i n).probed.length = n ∧
      ∀ k < n, getIpFromMac (table (i + k)) netif.index findMac = 0) := by
  induction n generalizing i addr with
  | zero => exact .inr ⟨rfl, rfl, fun k none => absurd none (Nat.not_lt_zero k)⟩
  | succ n ih =>
    by_cases found : getIpFromMac (table i) netif.index findMac ≠ 0
    · refine .inl ⟨0, Nat.succ_pos n, ?_⟩
      simp only [scanLoop, if_pos found, List.length_singleton, Nat.add_zero, ne_eq, true_and]
      exact found
    · simp only [scanLoop, if_neg found]
      rcases ih (getIpFromMac (table i) netif.index findMac) (i + 1) with
        ⟨k, inside, result, probed, address, hit⟩ | ⟨result, probed, missed⟩
      · rw [Nat.add_assoc, Nat.add_comm 1 k] at address hit
        refine .inl ⟨k + 1, Nat.succ_lt_succ inside, result, ?_, address, hit⟩
        rw [List.length_cons, probed]
      · refine .inr ⟨result, by rw [List.length_cons, probed], ?_⟩
        intro k inside
        cases k with
        | zero => exact not_not.mp found
        | succ k =>
          have := missed k (Nat.lt_of_succ_lt_succ inside)
          rwa [Nat.add_assoc, Nat.add_comm 1 k] at this

end RemoteBoot.Monitor
