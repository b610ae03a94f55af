import Mathlib.Data.List.Basic
import RemoteBoot.Monitor.Lookup

/-! The ARP cache of lwIP: entries that are asked for, learnt, refreshed and recycled, and
the packets that wait for a hardware address. What leaves the interface is logged, and
with it what was heard, what was taken over from the caller, and what was given up. -/
namespace RemoteBoot.Net
open Monitor

/-- `ARP_TABLE_SIZE` -/
def arpTableSize : Nat := 10

/-- `ARP_MAXAGE` -/
def arpMaxage : Nat := 300

/-- `ARP_MAXPENDING` -/
def arpMaxpending : Nat := 5

/-- `ARP_AGE_REREQUEST_USED_UNICAST` -/
def arpAgeRerequestUsedUnicast : Nat := arpMaxage - 30

/-- `ARP_AGE_REREQUEST_USED_BROADCAST` -/
def arpAgeRerequestUsedBroadcast : Nat := arpMaxage - 15

/-- `ARP_QUEUE_LEN` -/
def arpQueueLen : Nat := 3

/-- What is read of a `struct netif`. Addresses are in network order. -/
structure Netif where
  ipAddr : UInt32
  netmask : UInt32
  gw : UInt32
  broadcast : Bool

/-- `ip4_addr_netcmp` -/
def netcmp (addr1 addr2 mask : UInt32) : Bool := addr1 &&& mask == addr2 &&& mask

/-- `ip4_addr_isbroadcast_u32` -/
def isBroadcast (addr : UInt32) (netif : Netif) : Bool :=
  if ~~~addr = 0 ∨ addr = 0 then true
  else if !netif.broadcast then false
  else if addr = netif.ipAddr then false
  else netcmp addr netif.ipAddr netif.netmask && addr &&& ~~~netif.netmask == 0xffffffff &&& ~~~netif.netmask

/-- `ip4_addr_ismulticast` -/
def isMulticast (addr : UInt32) : Bool := addr &&& 0xf0 == 0xe0

/-- `ip4_addr_islinklocal` -/
def isLinklocal (addr : UInt32) : Bool := addr &&& 0xffff == 0xfea9

/-- The addresses that never get into the cache. -/
def nonUnicast (addr : UInt32) (netif : Netif) : Bool := addr == 0 || isBroadcast addr netif || isMulticast addr

def ethbroadcast : List UInt8 := [0xff, 0xff, 0xff, 0xff, 0xff, 0xff]

/-- The entry with its queue of packets and its age. -/
structure CacheEntry (Packet : Type) extends EtharpEntry where
  q : List Packet
  ctime : Nat

/-- What goes out through an interface. -/
inductive Frame (Packet : Type) where
  | unicast (netif : Nat) (ethdst : List UInt8) (hop : UInt32) (p : Packet)
  /-- A packet to a broadcast or multicast address. -/
  | group (netif : Nat) (ethdst : List UInt8) (p : Packet)
  | arpRequest (netif : Nat) (ethdst : List UInt8) (ipaddr : UInt32)
  | arpReply (netif : Nat) (ethdst : List UInt8) (ipaddr : UInt32)

/-- `arp_table` and `etharp_cached_entry`, with the log. A packet is logged with its next
hop. -/
structure ArpCache (Packet : Type) where
  table : List (CacheEntry Packet)
  cachedEntry : Nat
  frames : List (Frame Packet)
  heard : List (UInt32 × List UInt8)
  accepted : List (UInt32 × Packet)
  freed : List (UInt32 × Packet)
  width : table.length = arpTableSize

variable {Packet : Type}

namespace CacheEntry

/-- An entry of `arp_table` before any use. -/
def fresh : CacheEntry Packet := ⟨⟨.empty, 0, 0, List.replicate 6 0⟩, [], 0⟩

/-- `etharp_free_entry` -/
def free (e : CacheEntry Packet) : CacheEntry Packet := { e with q := [], state := .empty }

/-- The packets that wait, with their next hop. -/
def waiting (e : CacheEntry Packet) : List (UInt32 × Packet) := e.q.map fun p => (e.ipaddr, p)

/-- The packets that wait, as they are sent when the entry is resolved. -/
def flush (e : CacheEntry Packet) (netif : Nat) (ethaddr : List UInt8) : List (Frame Packet) :=
  e.q.map fun p => .unicast netif ethaddr e.ipaddr p

end CacheEntry

/-- What `etharp_find_entry` remembers on its way through the table. -/
structure Candidates where
  empty : Option Nat
  oldStable : Option Nat
  oldPending : Option Nat
  oldQueue : Option Nat
  ageStable : Nat
  agePending : Nat
  ageQueue : Nat

namespace Candidates

def initial : Candidates := ⟨none, none, none, none, 0, 0, 0⟩

/-- An entry in use that does not match. -/
def note (c : Candidates) (i : Nat) (e : CacheEntry Packet) : Candidates :=
  if e.state = .pending then
    if !e.q.isEmpty then
      if e.ctime ≥ c.ageQueue then { c with oldQueue := some i, ageQueue := e.ctime } else c
    else if e.ctime ≥ c.agePending then { c with oldPending := some i, agePending := e.ctime } else c
  else if e.ctime ≥ c.ageStable then { c with oldStable := some i, ageStable := e.ctime } else c

/-- The least destructive choice. -/
def choice (c : Candidates) : Option Nat := c.empty <|> c.oldStable <|> c.oldPending <|> c.oldQueue

end Candidates

/-- The sweep of `etharp_find_entry` from entry `i` on: a match, or the candidates. -/
def sweep (ipaddr : UInt32) : List (CacheEntry Packet) → Nat → Candidates → Nat ⊕ Candidates
  | [], _, c => .inr c
  | e :: rest, i, c =>
    if c.empty = none ∧ e.state = .empty then sweep ipaddr rest (i + 1) { c with empty := some i }
    else if e.state ≠ .empty then
      if ipaddr = e.ipaddr then .inl i else sweep ipaddr rest (i + 1) (c.note i e)
    else sweep ipaddr rest (i + 1) c

/-- `ETHARP_FLAG_TRY_HARD` and `ETHARP_FLAG_FIND_ONLY` -/
inductive FindFlag where
  | tryHard | findOnly
  deriving DecidableEq

/-- `err_t`, as far as it occurs. -/
inductive Err where
  | ok | mem | arg | rte
  deriving DecidableEq

/-- The header of an ARP packet. -/
structure EtharpHdr where
  hwtype : UInt16
  proto : UInt16
  hwlen : UInt8
  protolen : UInt8
  opcode : UInt16
  shwaddr : List UInt8
  sipaddr : UInt32
  dipaddr : UInt32

def EtharpHdr.valid (hdr : EtharpHdr) : Bool :=
  hdr.hwtype == 1 && hdr.hwlen == 6 && hdr.protolen == 4 && hdr.proto == 0x0800

/-- What a call finds: the buffer for an ARP request, the copy of the packet, and the
element of `MEMP_ARP_QUEUE`. -/
structure Alloc where
  request : Bool
  copy : Bool
  queueEntry : Bool

namespace ArpCache

def create : ArpCache Packet where
  table := List.replicate arpTableSize .fresh
  cachedEntry := 0
  frames := []
  heard := []
  accepted := []
  freed := []
  width := List.length_replicate

/-- A store into entry `i`. -/
def set (s : ArpCache Packet) (i : Nat) (e : CacheEntry Packet) : ArpCache Packet :=
  { s with
    table := s.table.set i e
    width := by rw [List.length_set, s.width] }

/-- `etharp_find_entry` -/
def findEntry (s : ArpCache Packet) (ipaddr : UInt32) (flag : FindFlag) : Option Nat × ArpCache Packet :=
  match sweep ipaddr s.table 0 .initial with
  | .inl i => (some i, s)
  | .inr c =>
    match flag, c.choice with
    | .findOnly, _ | _, none => (none, s)
    | .tryHard, some i =>
      match s.table[i]? with
      | none => (none, s)
      | some e =>
        if c.empty.isSome then (some i, s.set i { e with ipaddr := ipaddr, ctime := 0 })
        else (some i, { s.set i { e.free with ipaddr := ipaddr, ctime := 0 } with freed := s.freed ++ e.waiting })

variable (nets : Nat → Netif)

/-- `etharp_update_arp_entry`, which also sends the packets that wait. -/
def updateArpEntry (s : ArpCache Packet) (netif : Nat) (ipaddr : UInt32) (ethaddr : List UInt8) (flag : FindFlag) :
    Err × ArpCache Packet :=
  if nonUnicast ipaddr (nets netif) then (.arg, s)
  else
    match s.findEntry ipaddr flag with
    | (none, s) => (.mem, s)
    | (some i, s) =>
      match s.table[i]? with
      | none => (.mem, s)
      | some e =>
        let s := s.set i { e with state := .stable, netif := netif, ethaddr := ethaddr, ctime := 0, q := [] }
        (.ok, { s with frames := s.frames ++ e.flush netif ethaddr })

/-- `etharp_request_dst` -/
def request (s : ArpCache Packet) (alloc : Alloc) (netif : Nat) (ethdst : List UInt8) (ipaddr : UInt32) :
    ArpCache Packet :=
  if alloc.request then { s with frames := s.frames ++ [.arpRequest netif ethdst ipaddr] } else s

/-- The packet is the cache's from here on. -/
def accept (s : ArpCache Packet) (hop : UInt32) (p : Packet) : ArpCache Packet :=
  { s with accepted := s.accepted ++ [(hop, p)] }

def send (s : ArpCache Packet) (frame : Frame Packet) : ArpCache Packet := { s with frames := s.frames ++ [frame] }

/-- The end of `etharp_query`: the packet joins the queue of a pending entry, which
gives up its oldest packet when it gets too long. -/
def enqueue (s : ArpCache Packet) (i : Nat) (e : CacheEntry Packet) (p : Packet) : ArpCache Packet :=
  if e.q.length ≥ arpQueueLen then
    { s.set i { e with q := (e.q ++ [p]).tail } with freed := s.freed ++ e.waiting.head?.toList }
  else s.set i { e with q := e.q ++ [p] }

/-- `etharp_query` -/
def etharpQuery (s : ArpCache Packet) (netif : Nat) (ipaddr : UInt32) (q : Option Packet) (alloc : Alloc) :
    Err × ArpCache Packet :=
  if nonUnicast ipaddr (nets netif) then (.arg, s)
  else
    match s.findEntry ipaddr .tryHard with
    | (none, s) => (.mem, s)
    | (some i, s) =>
      match s.table[i]? with
      | none => (.mem, s)
      | some e =>
        let isNewEntry := e.state == .empty
        let e := if isNewEntry then { e with state := .pending, netif := netif } else e
        let s := s.set i e
        let s := if isNewEntry || q.isNone then s.request alloc netif ethbroadcast ipaddr else s
        match q with
        | none => (if alloc.request then .ok else .mem, s)
        | some p =>
          if e.state.resolved then
            (.ok, { (s.accept ipaddr p).send (.unicast netif e.ethaddr e.ipaddr p) with cachedEntry := i })
          else if alloc.copy && alloc.queueEntry then (.ok, (s.accept ipaddr p).enqueue i e p)
          else (.mem, s)

/-- `etharp_output_to_arp_index` of a packet whose next hop is `hop`. An entry that is about
to expire is asked for again. -/
def outputToArpIndex (s : ArpCache Packet) (netif : Nat) (p : Packet) (arpIdx : Nat) (e : CacheEntry Packet)
    (alloc : Alloc) : ArpCache Packet :=
  let again := { e with state := EtharpState.stableRerequesting1 }
  let s :=
    if e.state = .stable then
      if e.ctime ≥ arpAgeRerequestUsedBroadcast then
        if alloc.request then (s.request alloc netif ethbroadcast e.ipaddr).set arpIdx again else s
      else if e.ctime ≥ arpAgeRerequestUsedUnicast then
        if alloc.request then (s.request alloc netif e.ethaddr e.ipaddr).set arpIdx again else s
      else s
    else s
  s.send (.unicast netif e.ethaddr e.ipaddr p)

/-- The hardware address of an IP multicast address. -/
def mcastaddr (ipaddr : UInt32) : List UInt8 :=
  [0x01, 0x00, 0x5e, (ipaddr >>> 8).toUInt8 &&& 0x7f, (ipaddr >>> 16).toUInt8, (ipaddr >>> 24).toUInt8]

/-- The next hop of `etharp_output`, if there is one. -/
def nextHop (net : Netif) (ipaddr : UInt32) : Option UInt32 :=
  if !netcmp ipaddr net.ipAddr net.netmask && !isLinklocal ipaddr then
    if net.gw = 0 then none else some net.gw
  else some ipaddr

/-- The loop of `etharp_output` over the table. -/
def findStable (s : ArpCache Packet) (hop : UInt32) : Option Nat :=
  s.table.findIdx? fun e => e.state.resolved && hop == e.ipaddr

/-- `etharp_output` behind the test of the cached entry: the entries in order, or a query. -/
def outputSearched (s : ArpCache Packet) (netif : Nat) (p : Packet) (hop : UInt32) (alloc : Alloc) :
    Err × ArpCache Packet :=
  match s.findStable hop with
  | none => s.etharpQuery nets netif hop (some p) alloc
  | some i =>
    match s.table[i]? with
    | none => (.mem, s)
    | some e => (.ok, { s.accept hop p with cachedEntry := i }.outputToArpIndex netif p i e alloc)

/-- The unicast part of `etharp_output`. The entry of the packet before is tried first. -/
def outputUnicast (s : ArpCache Packet) (netif : Nat) (p : Packet) (hop : UInt32) (alloc : Alloc) :
    Err × ArpCache Packet :=
  match s.table[s.cachedEntry]? with
  | none => s.outputSearched nets netif p hop alloc
  | some e =>
    if e.state.resolved && hop == e.ipaddr then
      (.ok, (s.accept hop p).outputToArpIndex netif p s.cachedEntry e alloc)
    else s.outputSearched nets netif p hop alloc

/-- `etharp_output` -/
def etharpOutput (s : ArpCache Packet) (netif : Nat) (p : Packet) (ipaddr : UInt32) (alloc : Alloc) :
    Err × ArpCache Packet :=
  if isBroadcast ipaddr (nets netif) then (.ok, s.send (.group netif ethbroadcast p))
  else if isMulticast ipaddr then (.ok, s.send (.group netif (mcastaddr ipaddr) p))
  else
    match nextHop (nets netif) ipaddr with
    | none => (.rte, s)
    | some hop => s.outputUnicast nets netif p hop alloc

/-- `etharp_input` -/
def etharpInput (s : ArpCache Packet) (netif : Nat) (hdr : EtharpHdr) (alloc : Alloc) : ArpCache Packet :=
  if !hdr.valid then s
  else
    let own := (nets netif).ipAddr
    let forUs := own != 0 && hdr.dipaddr == own
    let s := { s with heard := s.heard ++ [(hdr.sipaddr, hdr.shwaddr)] }
    let s := (s.updateArpEntry nets netif hdr.sipaddr hdr.shwaddr (if forUs then .tryHard else .findOnly)).2
    if hdr.opcode == 1 && forUs && alloc.request then s.send (.arpReply netif hdr.shwaddr hdr.sipaddr) else s

end ArpCache

namespace CacheEntry

/-- An entry in use after one more interval. -/
def older (e : CacheEntry Packet) : CacheEntry Packet := { e with ctime := (e.ctime + 1) % 65536 }

/-- The entry runs out in this turn of `etharp_tmr`. -/
def expires (e : CacheEntry Packet) : Bool :=
  e.used && (e.older.ctime ≥ arpMaxage || e.state == .pending && e.older.ctime ≥ arpMaxpending)

/-- One entry in the loop of `etharp_tmr`. -/
def tick (e : CacheEntry Packet) : CacheEntry Packet :=
  if !e.used then e
  else if e.expires then e.older.free
  else if e.state = .stableRerequesting1 then { e.older with state := .stableRerequesting2 }
  else if e.state = .stableRerequesting2 then { e.older with state := .stable }
  else e.older

end CacheEntry

namespace ArpCache

/-- `etharp_tmr`. Pending entries that do not expire are asked for again. -/
def etharpTmr (s : ArpCache Packet) (alloc : Alloc) : ArpCache Packet where
  table := s.table.map .tick
  cachedEntry := s.cachedEntry
  frames := s.frames ++ if alloc.request then
      (s.table.filter fun e => e.state == .pending && !e.expires).map fun e =>
        .arpRequest e.netif ethbroadcast e.ipaddr
    else []
  heard := s.heard
  accepted := s.accepted
  freed := s.freed ++ (s.table.filter CacheEntry.expires).flatMap CacheEntry.waiting
  width := by rw [List.length_map, s.width]

/-- `etharp_cleanup_netif` -/
def etharpCleanupNetif (s : ArpCache Packet) (netif : Nat) : ArpCache Packet :=
  let gone (e : CacheEntry Packet) : Bool := e.used && e.netif == netif
  { s with
    table := s.table.map fun e => if gone e then e.free else e
    freed := s.freed ++ (s.table.filter gone).flatMap CacheEntry.waiting
    width := by rw [List.length_map, s.width] }

end ArpCache

/-- A call of one of the functions of `etharp.c`. -/
inductive ArpCall (Packet : Type) where
  | input (netif : Nat) (hdr : EtharpHdr) (alloc : Alloc)
  | output (netif : Nat) (p : Packet) (ipaddr : UInt32) (alloc : Alloc)
  | query (netif : Nat) (ipaddr : UInt32) (q : Option Packet) (alloc : Alloc)
  | tmr (alloc : Alloc)
  | cleanup (netif : Nat)

def ArpCache.step (nets : Nat → Netif) (s : ArpCache Packet) : ArpCall Packet → Option (ArpCache Packet)
  | .input netif hdr alloc => some (s.etharpInput nets netif hdr alloc)
  | .output netif p ipaddr alloc => some (s.etharpOutput nets netif p ipaddr alloc).2
  | .query netif ipaddr q alloc => some (s.etharpQuery nets netif ipaddr q alloc).2
  | .tmr alloc => some (s.etharpTmr alloc)
  | .cleanup netif => some (s.etharpCleanupNetif netif)

end RemoteBoot.Net
