import RemoteBoot.Masks
import RemoteBoot.Monitor.BootCheck

/-! To which addresses a scan sends its echo requests. Addresses and masks are in network byte
order on a little-endian machine, where the last octet is the top byte of the
word: `i << 24` counts through that octet and no further. -/
namespace RemoteBoot.Monitor

/-- `htonl` on the little-endian target. -/
def htonl (x : UInt32) : UInt32 :=
  (x &&& 0xff) <<< 24 ||| (x &&& 0xff00) <<< 8 ||| (x &&& 0xff0000) >>> 8 |||
    (x &&& 0xff000000) >>> 24

/-- The contiguous mask with a prefix of that length. -/
def netmask (prefixLength : Nat) : UInt32 := htonl (0xffffffff <<< UInt32.ofNat (32 - prefixLength))

/-- Each address of the subnet of `netif` but its network and broadcast address
got one request, and no other address did. -/
def Covers (netif : Netif) (requests : List UInt32) : Prop :=
  ∀ a, requests.count a =
    if a &&& netif.netmask = netif.ipAddr &&& netif.netmask ∧
        a ≠ netif.ipAddr &&& netif.netmask ∧
        a ≠ (netif.ipAddr &&& netif.netmask ||| ~~~netif.netmask) then 1 else 0

/-- `i << 24` -/
def hostBits (i : Nat) : UInt32 := UInt32.ofNat i <<< 24

/-- The requests of the `n` probes from `i` on, as far as they are sent. -/
def requestsTo (netif : Netif) (sent : Nat → Bool) (i n : Nat) : List UInt32 :=
  ((List.range' i n).filter sent).map fun j => (netif.ipAddr &&& netif.netmask) ||| hostBits j

theorem scanLoop_requests (netif : Netif) (sent : Nat → Bool) {table : Nat → ArpTable} (addr : UInt32)
    (i n : Nat) (missing : ∀ k, getIpFromMac (table k) netif.index findMac = 0) :
    (scanLoop netif sent table addr i n).requests = requestsTo netif sent i n := by
  induction n generalizing i addr with
  | zero => rfl
  | succ n ih =>
    have next : ¬ getIpFromMac (table i) netif.index findMac ≠ 0 := not_not.mpr (missing i)
    have later := ih (getIpFromMac (table i) netif.index findMac) (i + 1)
    simp only [scanLoop, if_neg next, later, requestsTo, List.range'_succ, List.filter_cons]
    split
    · rfl
    · rfl

theorem hosts_netmask : ∀ p < 31, 1 ≤ p → hosts (netmask p) = 2 ^ (32 - p) - 2 := by
  decide +kernel

theorem eq_or_iff {a base x mask : UInt32} (fixed : base &&& mask = base) (free : x &&& mask = 0) :
    a = base ||| x ↔ a &&& mask = base ∧ a &&& ~~~mask = x := by
  simp only [← UInt32.toBitVec_inj, UInt32.toBitVec_and, UInt32.toBitVec_or, UInt32.toBitVec_not]
    at fixed free ⊢
  exact Masks.eq_or_iff fixed free

theorem and_mask (a mask : UInt32) : a &&& mask &&& mask = a &&& mask := by
  rw [UInt32.and_assoc, UInt32.and_self]

theorem or_right_injective {base x y mask : UInt32} (fixed : base &&& mask = base)
    (free : x &&& mask = 0) (free' : y &&& mask = 0) (same : base ||| x = base ||| y) : x = y :=
  ((eq_or_iff fixed free).mp rfl).2.symm.trans ((eq_or_iff fixed free').mp same).2

theorem toNat_hostBits {i : Nat} (small : i < 256) : (hostBits i).toNat = i * 2 ^ 24 := by
  rw [hostBits, UInt32.toNat_shiftLeft, UInt32.toNat_ofNat', Nat.shiftLeft_eq,
    Nat.mod_eq_of_lt (show i < 2 ^ 32 by omega)]
  exact Nat.mod_eq_of_lt (by simp; omega)

theorem hostBits_injective {i j : Nat} (small : i < 256) (small' : j < 256)
    (same : hostBits i = hostBits j) : i = j := by
  have := congrArg UInt32.toNat same
  rw [toNat_hostBits small, toNat_hostBits small'] at this
  omega

section LastOctet
variable {p : Nat}

/-- From 24 bits of prefix on, the free bits are the low bits of the last octet. -/
theorem not_netmask : ∀ p < 31, 24 ≤ p → ~~~netmask p = hostBits (2 ^ (32 - p) - 1) := by
  decide +kernel

/-- A word without masked bits is a number shifted into the last octet. -/
theorem exists_hostBits {x : UInt32} (long : 24 ≤ p) (short : p ≤ 30)
    (free : x &&& ~~~netmask p = x) : ∃ i ≤ 2 ^ (32 - p) - 1, x = hostBits i := by
  have width : 2 ^ (32 - p) ≤ 2 ^ 8 := Nat.pow_le_pow_right (by decide) (by omega)
  have bits := congrArg UInt32.toNat free
  rw [not_netmask p (by omega) long, UInt32.toNat_and, toNat_hostBits (by omega)] at bits
  have below : x.toNat ≤ (2 ^ (32 - p) - 1) * 2 ^ 24 := bits ▸ Nat.and_le_right
  have aligned : x.toNat % 2 ^ 24 = 0 := by
    rw [← bits, Nat.and_mod_two_pow, Nat.mul_mod_left, Nat.and_zero]
  refine ⟨x.toNat / 2 ^ 24, Nat.div_le_of_le_mul (Nat.mul_comm _ _ ▸ below), ?_⟩
  apply UInt32.toNat_inj.mp
  rw [toNat_hostBits (by omega)]
  omega

theorem hostBits_free : ∀ p < 31, 24 ≤ p → ∀ i < 2 ^ (32 - p), hostBits i &&& netmask p = 0 := by
  decide +kernel

theorem or_zero_hostBits (base : UInt32) : base ||| hostBits 0 = base := by
  rw [show hostBits 0 = 0 from rfl, UInt32.or_zero]

/-- Each address of the subnet is one number in the last octet. -/
theorem exists_host {a base : UInt32} (long : 24 ≤ p) (short : p ≤ 30)
    (fixed : base &&& netmask p = base) (within : a &&& netmask p = base) :
    ∃ j < 2 ^ (32 - p), ∀ i < 2 ^ (32 - p), base ||| hostBits i = a ↔ i = j := by
  have width : 2 ^ (32 - p) ≤ 2 ^ 8 := Nat.pow_le_pow_right (by decide) (by omega)
  have positive : 0 < 2 ^ (32 - p) := Nat.two_pow_pos _
  obtain ⟨j, below, free⟩ := exists_hostBits (x := a &&& ~~~netmask p) long short
    (and_mask a _)
  refine ⟨j, by omega, fun i inside => ?_⟩
  rw [eq_comm, eq_or_iff fixed (hostBits_free p (by omega) long i inside), free]
  constructor
  · rintro ⟨_, same⟩
    exact (hostBits_injective (by omega) (by omega) same).symm
  · rintro rfl
    exact ⟨within, rfl⟩

/-- The network address is number 0, and the broadcast address the last one. -/
theorem host_ends {a base : UInt32} (long : 24 ≤ p) (short : p ≤ 30)
    (host : ∀ i < 2 ^ (32 - p), base ||| hostBits i = a ↔ i = j) :
    (a = base ↔ 0 = j) ∧ (a = (base ||| ~~~netmask p) ↔ 2 ^ (32 - p) - 1 = j) := by
  have positive : 0 < 2 ^ (32 - p) := Nat.two_pow_pos _
  have network := host 0 positive
  have broadcast := host (2 ^ (32 - p) - 1) (by omega)
  rw [or_zero_hostBits, eq_comm] at network
  rw [← not_netmask p (by omega) long, eq_comm] at broadcast
  exact ⟨network, broadcast⟩

theorem hostBits_within {base : UInt32} (long : 24 ≤ p) (short : p ≤ 30)
    (fixed : base &&& netmask p = base) {i : Nat} (inside : i < 2 ^ (32 - p)) :
    (base ||| hostBits i) &&& netmask p = base :=
  ((eq_or_iff fixed (hostBits_free p (by omega) long i inside)).mp rfl).1

theorem covers_all {netif : Netif} (long : 24 ≤ p) (short : p ≤ 30)
    (mask : netif.netmask = netmask p) {sent : Nat → Bool}
    (all : ∀ i, 1 ≤ i → i ≤ 2 ^ (32 - p) - 2 → sent i) :
    Covers netif (requestsTo netif sent 1 (2 ^ (32 - p) - 2)) := by
  intro a
  have room : 2 ≤ 2 ^ (32 - p) := Nat.le_self_pow (by omega) 2
  have fixed := and_mask netif.ipAddr (netmask p)
  have whole : (List.range' 1 (2 ^ (32 - p) - 2)).filter sent = List.range' 1 (2 ^ (32 - p) - 2) := by
    refine List.filter_eq_self.mpr fun i member => ?_
    have := List.mem_range'_1.mp member
    exact all i this.1 (by omega)
  rw [requestsTo, whole, mask]
  by_cases within : a &&& netmask p = netif.ipAddr &&& netmask p
  · obtain ⟨j, inside, host⟩ := exists_host long short fixed within
    obtain ⟨network, broadcast⟩ := host_ends long short host
    have same : ∀ i ∈ List.range' 1 (2 ^ (32 - p) - 2),
        (((netif.ipAddr &&& netmask p) ||| hostBits i) == a) = true ↔ (i == j) = true := by
      intro i member
      rw [beq_iff_eq, beq_iff_eq]
      exact host i (by have := List.mem_range'_1.mp member; omega)
    rw [List.count_eq_countP, List.countP_map, Function.comp_def, List.countP_congr same,
      ← List.count_eq_countP, List.count_range_1']
    simp only [within, true_and, ne_eq, network, broadcast]
    congr 1
    exact propext (by omega)
  · rw [if_neg fun asked => within asked.1, List.count_eq_zero]
    intro member
    obtain ⟨i, place, rfl⟩ := List.mem_map.mp member
    have := List.mem_range'_1.mp place
    exact within (hostBits_within long short fixed (by omega))

/-- A host whose request is not sent gets none at another turn. -/
theorem sent_of_covers {netif : Netif} (long : 24 ≤ p) (short : p ≤ 30)
    (mask : netif.netmask = netmask p) {sent : Nat → Bool}
    (covers : Covers netif (requestsTo netif sent 1 (2 ^ (32 - p) - 2))) {i : Nat} (first : 1 ≤ i)
    (last : i ≤ 2 ^ (32 - p) - 2) : sent i := by
  have fixed := and_mask netif.ipAddr (netmask p)
  have within := hostBits_within long short fixed (show i < 2 ^ (32 - p) by omega)
  obtain ⟨j, inside, host⟩ := exists_host long short fixed within
  obtain rfl : i = j := (host i (by omega)).mp rfl
  obtain ⟨network, broadcast⟩ := host_ends long short host
  have asked := covers ((netif.ipAddr &&& netmask p) ||| hostBits i)
  rw [mask, if_pos ⟨within, fun same => by have := network.mp same; omega,
    fun same => by have := broadcast.mp same; omega⟩] at asked
  have member := List.count_pos_iff.mp (asked ▸ Nat.one_pos)
  rw [requestsTo, mask] at member
  obtain ⟨k, place, same⟩ := List.mem_map.mp member
  obtain ⟨turn, sends⟩ := List.mem_filter.mp place
  have := List.mem_range'_1.mp turn
  obtain rfl := (host k (by omega)).mp same
  exact sends

end LastOctet

/-- An address of the subnet that is not its network or broadcast address. -/
theorem covers_host {netif : Netif} {p : Nat} {requests : List UInt32} {x : UInt32}
    (mask : netif.netmask = netmask p) (free : x &&& netmask p = 0) (visible : x ≠ 0)
    (inner : x ≠ ~~~netmask p) (covers : Covers netif requests) :
    (netif.ipAddr &&& netif.netmask) ||| x ∈ requests := by
  have fixed := and_mask netif.ipAddr (netmask p)
  have within := ((eq_or_iff fixed free).mp rfl).1
  have notNetwork : (netif.ipAddr &&& netmask p) ||| x ≠ netif.ipAddr &&& netmask p := by
    intro same
    exact visible (or_right_injective fixed free UInt32.zero_and (same.trans UInt32.or_zero.symm))
  have notBroadcast : (netif.ipAddr &&& netmask p) ||| x ≠
      (netif.ipAddr &&& netmask p ||| ~~~netmask p) := fun same =>
    inner (or_right_injective fixed free UInt32.not_and_self same)
  have asked := covers ((netif.ipAddr &&& netmask p) ||| x)
  rw [mask, if_pos ⟨within, notNetwork, notBroadcast⟩] at asked
  rw [mask]
  exact List.count_pos_iff.mp (asked ▸ Nat.one_pos)

/-- Every subnet has a host besides its network and its broadcast address. -/
theorem exists_probe : ∀ p < 31, 1 ≤ p → hostBits 1 &&& netmask p = 0 ∧ hostBits 1 ≠ 0 ∧
    hostBits 1 ≠ ~~~netmask p := by
  decide +kernel

theorem not_covers_nil {netif : Netif} {p : Nat} (mask : netif.netmask = netmask p) (low : 1 ≤ p)
    (high : p ≤ 30) : ¬ Covers netif [] := by
  intro covers
  obtain ⟨free, visible, inner⟩ := exists_probe p (by omega) low
  exact absurd (covers_host mask free visible inner covers) List.not_mem_nil

/-- With less than 24 bits of prefix some hosts differ in the third octet. -/
theorem thirdOctet : ∀ p < 24, 1 ≤ p → 0x00010000 &&& netmask p = 0 ∧ 0x00010000 ≠ ~~~netmask p ∧
    netmask p &&& 0xff000000 = 0 := by
  decide +kernel

theorem hostBits_lastOctet (i : Nat) : hostBits i &&& 0xff000000 = hostBits i := by
  have octet : (0xff000000 : UInt32) = (-1 : UInt32) <<< 24 := by decide
  rw [hostBits, octet, ← UInt32.shiftLeft_and, UInt32.and_neg_one]

/-- The scan never gets to the third octet. -/
theorem not_covers_thirdOctet {netif : Netif} {p n : Nat} {sent : Nat → Bool}
    (mask : netif.netmask = netmask p) (low : 1 ≤ p) (short : p < 24) :
    ¬ Covers netif (requestsTo netif sent 1 n) := by
  intro covers
  obtain ⟨free, inner, rest⟩ := thirdOctet p short low
  have fixed := and_mask netif.ipAddr (netmask p)
  have member := covers_host mask free (by decide) inner covers
  rw [requestsTo, mask] at member
  obtain ⟨i, _, same⟩ := List.mem_map.mp member
  have hostFree : hostBits i &&& netmask p = 0 := by
    rw [← hostBits_lastOctet, UInt32.and_assoc, UInt32.and_comm 0xff000000, rest, UInt32.and_zero]
  have third := or_right_injective fixed hostFree free same
  have last := hostBits_lastOctet i
  rw [third] at last
  exact absurd last (by decide)

theorem requests_missing {env : ScanEnv} {netif : Netif} (addr : UInt32)
    (default : env.netifDefault = some netif)
    (absent : ∀ i, ∀ entry ∈ env.table i, entry.ethaddr ≠ findMac) :
    (pingAndFindIp env addr).requests =
      if env.socket then requestsTo netif env.sent 1 (hosts netif.netmask) else [] := by
  have missing : ∀ k, getIpFromMac (env.table k) netif.index findMac = 0 := by
    intro k
    by_contra found
    obtain ⟨entry, member, _, same, _⟩ := getIpFromMac_resolved found
    exact absent k entry member same
  simp only [pingAndFindIp, default]
  split
  · exact scanLoop_requests netif env.sent addr 1 _ missing
  · rfl

/-- A scan that never meets the wanted address covers the subnet exactly when
it has a socket, the hosts of the subnet are numbered in the last octet, and the
socket takes the request of every host. -/
theorem scan_covers_iff {env : ScanEnv} {netif : Netif} {p : Nat} (addr : UInt32)
    (default : env.netifDefault = some netif) (mask : netif.netmask = netmask p) (low : 1 ≤ p)
    (high : p ≤ 30) (absent : ∀ i, ∀ entry ∈ env.table i, entry.ethaddr ≠ findMac) :
    Covers netif (pingAndFindIp env addr).requests ↔
      env.socket = true ∧ 24 ≤ p ∧ ∀ i, 1 ≤ i → i ≤ 2 ^ (32 - p) - 2 → env.sent i = true := by
  rw [requests_missing addr default absent, mask, hosts_netmask p (by omega) low]
  by_cases created : env.socket = true
  · rw [if_pos created, and_iff_right created]
    constructor
    · intro covers
      have long : 24 ≤ p := by
        by_contra short
        exact not_covers_thirdOctet mask low (Nat.lt_of_not_le short) covers
      exact ⟨long, fun i first last => sent_of_covers long high mask covers first last⟩
    · rintro ⟨long, all⟩
      exact covers_all long high mask all
  · rw [if_neg created]
    exact iff_of_false (not_covers_nil mask low high) (fun both => created both.1)

/-- 192.168.1.10 with an empty ARP table. -/
def quietNet (p : Nat) : ScanEnv :=
  ⟨some ⟨0, 0x0a01a8c0, netmask p⟩, 0, true, fun _ => true, fun _ => []⟩

theorem scan_covers_iff_quietNet :
    Covers ⟨0, 0x0a01a8c0, netmask 24⟩ (pingAndFindIp (quietNet 24) 0).requests ↔
      (quietNet 24).socket = true ∧ 24 ≤ 24 ∧
        ∀ i, 1 ≤ i → i ≤ 2 ^ (32 - 24) - 2 → (quietNet 24).sent i = true :=
  scan_covers_iff 0 rfl rfl (by decide) (by decide) (fun _ _ member => by cases member)

/-- In a /16 the third octet stays as it is. -/
theorem scan_leaves_subnet :
    ¬ Covers ⟨0, 0x0a01a8c0, netmask 16⟩ (pingAndFindIp (quietNet 16) 0).requests := by
  rw [requests_missing 0 rfl (fun _ _ member => by cases member),
    if_pos (show (quietNet 16).socket = true from rfl)]
  exact not_covers_thirdOctet rfl (by decide) (by decide)

end RemoteBoot.Monitor
