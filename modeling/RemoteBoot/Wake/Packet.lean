import RemoteBoot.Strtol
import RemoteBoot.Config.RoundTrip

/-! `wol_thread` of `wol.c`: from the saved text to the magic packet. The struct
it reads into is on the stack and never initialised; only `mac_address` is
cleared before the read. -/
namespace RemoteBoot.Wake
open Bytes Config Strtol

/-- `struct sockaddr_in` for `AF_INET`, with the members in network byte order. -/
structure SockaddrIn where
  sinPort : UInt16
  sinAddr : UInt32
  deriving DecidableEq, Repr

/-- `htons` on the little-endian target. -/
def htons (x : UInt16) : UInt16 := x <<< 8 ||| x >>> 8

/-- What the thread reads of `netdev_default`, in network byte order. -/
structure Netdev where
  ipAddr : UInt32
  netmask : UInt32

inductive Action where
  | kprintf (text : String)
  /-- `init_from_file` returns, with `RT_EOK` if the file was read. -/
  | initFromFile (eok : Bool)
  /-- `"%s\r\n"` with the saved address -/
  | kprintfAddress (address : List UInt8)
  /-- `"%02x %02x %02x %02x %02x %02x\r\n"` -/
  | kprintfMac (mac : List UInt8)
  | setsockopt (sockfd : Int)
  | sendto (sockfd : Int) (data : List UInt8) (addr : SockaddrIn)
  | closesocket (sockfd : Int)
  deriving DecidableEq

def dotToNul (ch : UInt8) : UInt8 := if ch = 46 then 0 else ch

/-- The six `strtol` calls. Each scans the C string that starts at its offset. -/
def parseMac (config : ConfigInfo) : List UInt8 :=
  [0, 3, 6, 9, 12, 15].map fun i =>
    UInt8.ofInt (strtol 16 (cstring (config.bytes.drop (Field.macAddress.offset + i))))

def magicPacket (mac : List UInt8) : List UInt8 :=
  List.replicate 6 0xff ++ (List.replicate 16 mac).flatten

def broadcastAddr (netdev : Netdev) : UInt32 :=
  ~~~netdev.netmask ||| (netdev.ipAddr &&& netdev.netmask)

/-- One turn of the loop of `wol_thread`, after the semaphore was taken. The
`socket` call gives `sockfd`, which is -1 when it fails. -/
def wolThread (netdev : Netdev) (sockfd : Int) (file : Option (List UInt8)) (config : ConfigInfo) :
    Option (ConfigInfo × List Action) := do
  let config ← config.memcpy Field.macAddress.offset (List.replicate strSize 0)
  match ← initFromFile file config with
  | .error text =>
    some (config, [.kprintf "send wol packet\r\n", .kprintf text, .initFromFile false,
      .kprintf "read config file failed\r\n"])
  | .ok config =>
    let address := config.str .macAddress
    let config ← config.memcpy Field.macAddress.offset ((config.slot .macAddress).map dotToNul)
    let mac := parseMac config
    some (config,
      [.kprintf "send wol packet\r\n", .initFromFile true, .kprintfAddress address,
        .kprintfMac mac] ++
      (if sockfd = -1 then [.kprintf "sock create failed\r\n"] else []) ++
      [.setsockopt sockfd,
        .sendto sockfd (magicPacket mac) ⟨htons 9, broadcastAddr netdev⟩, .closesocket sockfd])

/-- The datagrams that leave the board: what is sent on a socket that exists. -/
def datagrams (actions : List Action) : List (List UInt8 × SockaddrIn) :=
  actions.filterMap fun
    | .sendto sockfd data addr => if sockfd = -1 then none else some (data, addr)
    | _ => none

/-- Six pairs of hexadecimal digits with `:`, `-` or `.` between them. -/
structure MacLine (t : List UInt8) : Prop where
  length : t.length = 17
  high : ∀ i < 6, IsDigit 16 (t.getD (3 * i) 0)
  low : ∀ i < 6, IsDigit 16 (t.getD (3 * i + 1) 0)
  separator : ∀ i < 5, t.getD (3 * i + 2) 0 ∈ [58, 45, 46]

theorem MacLine.short (mac : MacLine t) : t.length < strSize := by
  rw [mac.length]
  decide

/-- The line `00:11:22:33:44:Ff`. -/
def sampleLine : List UInt8 :=
  [48, 48, 58, 49, 49, 58, 50, 50, 58, 51, 51, 58, 52, 52, 58, 70, 102]

theorem sampleLine_mac : MacLine sampleLine := ⟨rfl, by decide, by decide, by decide⟩

def pairValue (t : List UInt8) (i : Nat) : UInt8 :=
  UInt8.ofNat (16 * (digit? 16 (t.getD (3 * i) 0)).getD 0 + (digit? 16 (t.getD (3 * i + 1) 0)).getD 0)

def macOf (t : List UInt8) : List UInt8 := (List.range 6).map (pairValue t)

theorem length_magicPacket {mac : List UInt8} (six : mac.length = 6) :
    (magicPacket mac).length = 102 := by
  simp [magicPacket, six]

theorem magicPacket_injective {mac other : List UInt8} (six : mac.length = 6)
    (six' : other.length = 6) (same : magicPacket mac = magicPacket other) : mac = other := by
  have copies := List.append_cancel_left same
  simp only [List.replicate_succ, List.flatten_cons] at copies
  exact (List.append_inj copies (six.trans six'.symm)).1

/-- The bytes of a magic packet, for whatever address. -/
def IsMagicPacket (data : List UInt8) : Prop := ∃ mac, mac.length = 6 ∧ data = magicPacket mac

theorem isMagicPacket_iff (data : List UInt8) :
    IsMagicPacket data ↔ data.length = 102 ∧ data = magicPacket ((data.drop 6).take 6) := by
  constructor
  · rintro ⟨mac, six, rfl⟩
    refine ⟨length_magicPacket six, ?_⟩
    have first : ((magicPacket mac).drop 6).take 6 = mac := by
      rw [magicPacket, List.drop_left' List.length_replicate, List.replicate_succ,
        List.flatten_cons, List.take_left' six]
    rw [first]
  · rintro ⟨length, same⟩
    exact ⟨_, by rw [List.length_take, List.length_drop, length]; rfl, same⟩

instance (data : List UInt8) : Decidable (IsMagicPacket data) :=
  decidable_of_iff _ (isMagicPacket_iff data).symm

theorem dotToNul_digit {c : UInt8} (digit : IsDigit 16 c) : dotToNul c = c := by
  refine if_neg ?_
  rintro rfl
  exact absurd digit (by decide)

theorem dotToNul_stops {c : UInt8} (other : ¬ IsDigit 16 c) : ¬ IsDigit 16 (dotToNul c) := by
  rw [dotToNul]
  split
  · decide
  · exact other

theorem separator_stops {c : UInt8} (separator : c ∈ [58, 45, 46]) : ¬ IsDigit 16 c := by
  simp only [List.mem_cons, List.not_mem_nil, or_false] at separator
  rcases separator with rfl | rfl | rfl <;> decide

theorem digit_ne_nul {c : UInt8} (digit : IsDigit 16 c) : c ≠ 0 := by
  rintro rfl
  exact absurd digit (by decide)

theorem ofInt_natCast (n : Nat) : UInt8.ofInt n = UInt8.ofNat n := by
  have reduced : ((n : Int) % 2 ^ 8).toNat = n % 2 ^ 8 := by omega
  rw [UInt8.ofInt, reduced, UInt8.ofNat_mod_size]

theorem strtol_pair_at {cells : List UInt8} {p : Nat} {high low next : UInt8}
    (highCell : cells[p]? = some high) (lowCell : cells[p + 1]? = some low)
    (nextCell : cells[p + 2]? = some next) (highDigit : IsDigit 16 high)
    (lowDigit : IsDigit 16 low) (stops : ¬ IsDigit 16 next) :
    UInt8.ofInt (strtol 16 (cstring (cells.drop p))) =
      UInt8.ofNat (16 * (digit? 16 high).getD 0 + (digit? 16 low).getD 0) := by
  rw [drop_cons highCell, drop_cons lowCell, drop_cons nextCell,
    cstring_cons (digit_ne_nul highDigit), cstring_cons (digit_ne_nul lowDigit),
    strtol_hex_pair highDigit lowDigit]
  · exact ofInt_natCast _
  · intro c head
    rw [cstring_head head]
    exact stops

/-- After the dots are gone, the character behind a pair ends the scan. -/
theorem strtol_pair {t rest : List UInt8} (mac : MacLine t) {i : Nat} (small : i < 6) :
    UInt8.ofInt (strtol 16 (cstring ((t.map dotToNul ++ 0 :: rest).drop (3 * i)))) = pairValue t i := by
  have cell : ∀ j < 17, (t.map dotToNul ++ 0 :: rest)[j]? = some (dotToNul (t.getD j 0)) := by
    intro j inside
    have bound : j < t.length := mac.length ▸ inside
    rw [List.getElem?_append_left (by rwa [List.length_map]), List.getElem?_map,
      List.getD_eq_getElem?_getD, List.getElem?_eq_getElem bound, Option.map_some, Option.getD_some]
  have highCell := cell (3 * i) (by omega)
  have lowCell := cell (3 * i + 1) (by omega)
  rw [dotToNul_digit (mac.high i small)] at highCell
  rw [dotToNul_digit (mac.low i small)] at lowCell
  obtain ⟨next, nextCell, ends⟩ : ∃ next, (t.map dotToNul ++ 0 :: rest)[3 * i + 2]? = some next ∧
      ¬ IsDigit 16 next := by
    by_cases last : i = 5
    · refine ⟨0, ?_, by decide⟩
      rw [List.getElem?_append_right (by rw [List.length_map, mac.length]; omega), List.length_map,
        mac.length, last]
      rfl
    · refine ⟨_, cell (3 * i + 2) (by omega), ?_⟩
      exact dotToNul_stops (separator_stops (mac.separator i (by omega)))
  exact strtol_pair_at highCell lowCell nextCell (mac.high i small) (mac.low i small) ends

/-- The last member runs to the end of the struct. -/
theorem drop_macAddress (c : ConfigInfo) (i : Nat) :
    c.bytes.drop (Field.macAddress.offset + i) = (c.slot .macAddress).drop i := by
  have rest : (c.bytes.drop Field.macAddress.offset).length ≤ strSize := by
    rw [List.length_drop, c.size]
    decide
  rw [ConfigInfo.slot, Bytes.slot, List.take_of_length_le rest, List.drop_drop]

/-- A turn whose read succeeds, with the struct in which the dots became NULs. -/
theorem wolThread_read (netdev : Netdev) (sockfd : Int) {file : Option (List UInt8)}
    {stack cleared config : ConfigInfo}
    (clear : stack.memcpy Field.macAddress.offset (List.replicate strSize 0) = some cleared)
    (read : initFromFile file cleared = some (.ok config)) :
    ∃ left, left.slot .macAddress = (config.slot .macAddress).map dotToNul ∧
      wolThread netdev sockfd file stack = some (left,
        [.kprintf "send wol packet\r\n", .initFromFile true,
          .kprintfAddress (config.str .macAddress), .kprintfMac (parseMac left)] ++
        (if sockfd = -1 then [.kprintf "sock create failed\r\n"] else []) ++
        [.setsockopt sockfd,
          .sendto sockfd (magicPacket (parseMac left)) ⟨htons 9, broadcastAddr netdev⟩,
          .closesocket sockfd]) := by
  have width : ((config.slot .macAddress).map dotToNul).length = strSize := by
    rw [List.length_map, config.length_slot]
  obtain ⟨left, dots, cells, _⟩ := config.memcpy_field .macAddress _ (Nat.le_of_eq width)
  refine ⟨left, ?_, ?_⟩
  · rw [cells, List.drop_of_length_le (by rw [width, config.length_slot]), List.append_nil]
  · simp only [wolThread, clear, read, dots, Option.bind_eq_bind, Option.bind_some]

theorem parseMac_line {c : ConfigInfo} {rest : List UInt8} (mac : MacLine t)
    (cells : c.slot .macAddress = t.map dotToNul ++ 0 :: rest) : parseMac c = macOf t := by
  have pair : ∀ i < 6, UInt8.ofInt (strtol 16 (cstring (c.bytes.drop
      (Field.macAddress.offset + 3 * i)))) = pairValue t i := by
    intro i small
    rw [drop_macAddress, cells]
    exact strtol_pair mac small
  have offsets : [0, 3, 6, 9, 12, 15] = (List.range 6).map (3 * ·) := rfl
  rw [parseMac, offsets, List.map_map]
  exact List.map_congr_left fun i member => pair i (List.mem_range.mp member)

theorem wolThread_sends (netdev : Netdev) {sockfd : Int} (created : sockfd ≠ -1) (s : Settings)
    (mac : MacLine (s .macAddress).bytes) (stack : ConfigInfo) :
    ∃ left actions, wolThread netdev sockfd (some s.encode) stack = some (left, actions) ∧
      datagrams actions = [(magicPacket (macOf (s .macAddress).bytes),
        ⟨htons 9, broadcastAddr netdev⟩)] := by
  obtain ⟨cleared, clear, _⟩ := stack.memcpy_field .macAddress (List.replicate strSize 0)
    (Nat.le_of_eq List.length_replicate)
  obtain ⟨config, read, cells⟩ := initFromFile_encode_slot s cleared
  obtain ⟨left, dots, turn⟩ := wolThread_read netdev sockfd clear read
  have parsed : parseMac left = macOf (s .macAddress).bytes := by
    rw [cells, List.map_append, List.map_cons] at dots
    exact parseMac_line mac dots
  refine ⟨left, _, turn, ?_⟩
  simp only [datagrams, if_neg created, List.append_nil, List.cons_append, List.nil_append,
    List.filterMap_cons, List.filterMap_nil, parsed]

end RemoteBoot.Wake
