import Mathlib.Data.List.Basic

/-! The ARP table of lwIP as `boot_check.c` sees it, and the search by hardware
address that the project added to `etharp.c`. -/
namespace RemoteBoot.Monitor

/-- `enum etharp_state`, built without static entries. -/
inductive EtharpState where
  | empty | pending | stable | stableRerequesting1 | stableRerequesting2
  deriving DecidableEq, Repr

/-- `state >= ETHARP_STATE_STABLE`, the test of lwIP's own lookups. -/
def EtharpState.resolved : EtharpState → Bool
  | .empty | .pending => false
  | .stable | .stableRerequesting1 | .stableRerequesting2 => true

structure EtharpEntry where
  state : EtharpState
  netif : Nat
  ipaddr : UInt32
  ethaddr : List UInt8
  deriving DecidableEq, Repr

abbrev ArpTable := List EtharpEntry

/-- `get_ip_from_mac`. The interface is a parameter that it does not use. -/
def getIpFromMac (table : ArpTable) (_netif : Nat) (mac : List UInt8) : UInt32 :=
  match table.find? fun entry => entry.state == .stable && entry.ethaddr == mac with
  | some entry => entry.ipaddr
  | none => 0

def Resolved (mac : List UInt8) (table : ArpTable) : Prop :=
  ∃ entry ∈ table, entry.state.resolved ∧ entry.ethaddr = mac

instance (mac : List UInt8) (table : ArpTable) : Decidable (Resolved mac table) :=
  inferInstanceAs (Decidable (∃ entry ∈ table, _))

theorem getIpFromMac_resolved {table : ArpTable} (found : getIpFromMac table netif mac ≠ 0) :
    ∃ entry ∈ table, entry.state = .stable ∧ entry.ethaddr = mac ∧
      getIpFromMac table netif mac = entry.ipaddr := by
  cases search : table.find? fun entry => entry.state == .stable && entry.ethaddr == mac with
  | none => simp [getIpFromMac, search] at found
  | some entry =>
    have hit := List.find?_some search
    simp only [Bool.and_eq_true, beq_iff_eq] at hit
    exact ⟨entry, List.mem_of_find?_eq_some search, hit.1, hit.2, by rw [getIpFromMac, search]⟩

theorem resolved_of_found {table : ArpTable} (found : getIpFromMac table netif mac ≠ 0) :
    Resolved mac table := by
  obtain ⟨entry, member, stable, same, _⟩ := getIpFromMac_resolved found
  exact ⟨entry, member, by rw [stable]; rfl, same⟩

end RemoteBoot.Monitor
