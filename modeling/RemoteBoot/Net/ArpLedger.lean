import Mathlib.Algebra.Order.Group.Multiset
import Mathlib.Tactic.Abel
import RemoteBoot.Bytes
import RemoteBoot.Net.ArpSearch

/-! The ARP cache in order: entries by themselves, the table, and the log of packets against
the table. How a store into the table and an entry in the log keep it so. -/
namespace RemoteBoot.Net
open Monitor
variable {Packet : Type}

/-- The next hop and the packet of a frame that was addressed through the table. -/
def Frame.packet : Frame Packet → Option (UInt32 × Packet)
  | unicast _ _ hop p => some (hop, p)
  | _ => none

/-- What is for one next hop. -/
def toHop (hop : UInt32) (l : List (UInt32 × Packet)) : List (UInt32 × Packet) := l.filter fun x => x.1 = hop

@[simp] theorem toHop_append (hop : UInt32) (a b : List (UInt32 × Packet)) :
    toHop hop (a ++ b) = toHop hop a ++ toHop hop b := List.filter_append _ _

@[simp] theorem toHop_nil (hop : UInt32) : toHop hop ([] : List (UInt32 × Packet)) = [] := rfl

theorem toHop_waiting (hop : UInt32) (e : CacheEntry Packet) :
    toHop hop e.waiting = if e.ipaddr = hop then e.waiting else [] := by
  unfold toHop CacheEntry.waiting
  split
  · rename_i same
    rw [List.filter_eq_self]
    intro x member
    obtain ⟨p, _, rfl⟩ := List.mem_map.mp member
    exact decide_eq_true same
  · rename_i other
    rw [List.filter_eq_nil_iff]
    intro x member
    obtain ⟨p, _, rfl⟩ := List.mem_map.mp member
    exact fun same => other (of_decide_eq_true same)

theorem toHop_sublist (hop : UInt32) {a b : List (UInt32 × Packet)} (sub : a.Sublist b) :
    (toHop hop a).Sublist (toHop hop b) := sub.filter _

/-- An entry by itself: only a pending one has packets, and few; one in use has an address
and is not too old. -/
structure EntryOk (e : CacheEntry Packet) : Prop where
  queue : e.state ≠ .pending → e.q = []
  short : e.q.length ≤ arpQueueLen
  address : e.state ≠ .empty → e.ipaddr ≠ 0
  young : e.state ≠ .empty → e.ctime < arpMaxage
  patient : e.state = .pending → e.ctime < arpMaxpending

/-- An entry before its first use. -/
theorem EntryOk.unused {e : CacheEntry Packet} (queue : e.q = []) (unused : e.state = .empty) : EntryOk e where
  queue _ := queue
  short := by rw [queue]; exact Nat.zero_le _
  address used := absurd unused used
  young used := absurd unused used
  patient pending := by rw [unused] at pending; cases pending

/-- An entry that has just been learnt. -/
theorem EntryOk.learnt {e : CacheEntry Packet} (address : e.ipaddr ≠ 0) (netif : Nat) (ethaddr : List UInt8) :
    EntryOk ({ e with state := .stable, netif := netif, ethaddr := ethaddr, ctime := 0, q := [] } : CacheEntry Packet) where
  queue _ := rfl
  short := Nat.zero_le _
  address _ := address
  young _ := (by decide : 0 < arpMaxage)
  patient pending := by cases pending

/-- An entry that has just been asked for. -/
theorem EntryOk.asked {e : CacheEntry Packet} (queue : e.q = []) (address : e.ipaddr ≠ 0) (fresh : e.ctime = 0)
    (netif : Nat) : EntryOk ({ e with state := .pending, netif := netif } : CacheEntry Packet) where
  queue other := absurd rfl other
  short := by
    change e.q.length ≤ arpQueueLen
    rw [queue]
    exact Nat.zero_le _
  address _ := address
  young _ := by
    change e.ctime < arpMaxage
    rw [fresh]
    decide
  patient _ := by
    change e.ctime < arpMaxpending
    rw [fresh]
    decide

namespace ArpCache

def sent (s : ArpCache Packet) : List (UInt32 × Packet) := s.frames.filterMap Frame.packet

def waiting (s : ArpCache Packet) : List (UInt32 × Packet) := s.table.flatMap CacheEntry.waiting

/-- No other entry in use has the address. -/
def Alone (s : ArpCache Packet) (i : Nat) (ipaddr : UInt32) : Prop :=
  ∀ j f, j ≠ i → s.table[j]? = some f → f.state ≠ .empty → f.ipaddr ≠ ipaddr

/-- The table in itself, and against what was heard. -/
structure Tidy (s : ArpCache Packet) : Prop where
  entries : ∀ e ∈ s.table, EntryOk e
  distinct : ∀ i e, s.table[i]? = some e → e.state ≠ .empty → s.Alone i e.ipaddr
  inside : s.cachedEntry < arpTableSize
  learnt : ∀ e ∈ s.table, e.state.resolved = true → (e.ipaddr, e.ethaddr) ∈ s.heard

/-- The log: a packet goes to a hardware address that was heard for its next hop, none is
lost or doubled, and those to one hop keep their order. -/
structure Ledger (s : ArpCache Packet) : Prop where
  told : ∀ netif mac hop p, Frame.unicast netif mac hop p ∈ s.frames → (hop, mac) ∈ s.heard
  conserved : (s.accepted : Multiset (UInt32 × Packet)) = s.sent + s.freed + s.waiting
  ordered : ∀ hop, (toHop hop (s.sent ++ s.waiting)).Sublist (toHop hop s.accepted)

theorem Tidy.clean {s : ArpCache Packet} (tidy : s.Tidy) : s.Clean := by
  intro e member unused
  refine (tidy.entries e member).queue ?_
  rw [unused]
  exact fun same => by cases same

theorem getElem?_set_other {s : ArpCache Packet} (e : CacheEntry Packet) (other : j ≠ i) :
    (s.set i e).table[j]? = s.table[j]? := List.getElem?_set_ne (Ne.symm other)

theorem getElem?_set_same {s : ArpCache Packet} (here : s.table[i]? = some old) (e : CacheEntry Packet) :
    (s.set i e).table[i]? = some e := by
  obtain ⟨inside, _⟩ := List.getElem?_eq_some_iff.mp here
  exact List.getElem?_set_self inside

theorem mem_set {s : ArpCache Packet} {e f : CacheEntry Packet} (member : f ∈ (s.set i e).table) :
    f = e ∨ f ∈ s.table := (List.mem_or_eq_of_mem_set member).symm

/-- A store of an entry that is in order, and whose address is not in use elsewhere. -/
theorem Tidy.set {s : ArpCache Packet} (tidy : s.Tidy) (here : s.table[i]? = some old) {e : CacheEntry Packet}
    (ok : EntryOk e) (alone : e.state ≠ .empty → s.Alone i e.ipaddr)
    (learnt : e.state.resolved = true → (e.ipaddr, e.ethaddr) ∈ s.heard) : (s.set i e).Tidy := by
  refine ⟨fun f member => ?_, fun j f found used => ?_, tidy.inside, fun f member resolved => ?_⟩
  · rcases mem_set member with rfl | old
    · exact ok
    · exact tidy.entries f old
  · intro k g other present inUse
    by_cases mine : j = i
    · subst mine
      rw [getElem?_set_same here] at found
      cases found
      rw [getElem?_set_other e other] at present
      exact alone used k g other present inUse
    · rw [getElem?_set_other e mine] at found
      by_cases yours : k = i
      · subst yours
        rw [getElem?_set_same here] at present
        cases present
        exact fun same => alone inUse j f mine found used same.symm
      · rw [getElem?_set_other e yours] at present
        exact tidy.distinct j f found used k g other present inUse
  · rcases mem_set member with rfl | old
    · exact learnt resolved
    · exact tidy.learnt f old resolved

theorem Clean.set {s : ArpCache Packet} (clean : s.Clean) {e : CacheEntry Packet} (queue : e.state = .empty → e.q = []) :
    (s.set i e).Clean := by
  intro f member unused
  rcases mem_set member with rfl | old
  · exact queue unused
  · exact clean f old unused

/-- Where the packets of an entry stand among those that wait. Around them there are none
for an address that no other entry in use has. -/
theorem waiting_split {s : ArpCache Packet} (clean : s.Clean) (here : s.table[i]? = some e) :
    ∃ before behind, s.waiting = before ++ (e.waiting ++ behind) ∧
      (∀ e', (s.set i e').waiting = before ++ (e'.waiting ++ behind)) ∧
      ∀ hop, s.Alone i hop → toHop hop before = [] ∧ toHop hop behind = [] := by
  obtain ⟨inside, _⟩ := List.getElem?_eq_some_iff.mp here
  have parts : s.table = s.table.take i ++ e :: s.table.drop (i + 1) := by
    rw [← Bytes.drop_cons here, List.take_append_drop]
  have none (hop : UInt32) (alone : s.Alone i hop) (l : List (CacheEntry Packet))
      (others : ∀ f ∈ l, ∃ j, j ≠ i ∧ s.table[j]? = some f) : toHop hop (l.flatMap CacheEntry.waiting) = [] := by
    rw [toHop, List.filter_eq_nil_iff]
    intro x member same
    obtain ⟨f, inList, waits⟩ := List.mem_flatMap.mp member
    obtain ⟨j, other, found⟩ := others f inList
    obtain ⟨p, queued, rfl⟩ := List.mem_map.mp waits
    by_cases unused : f.state = .empty
    · rw [clean f (List.mem_of_getElem? found) unused] at queued
      exact absurd queued List.not_mem_nil
    · exact alone j f other found unused (of_decide_eq_true same)
  refine ⟨(s.table.take i).flatMap CacheEntry.waiting, (s.table.drop (i + 1)).flatMap CacheEntry.waiting, ?_, ?_, ?_⟩
  · rw [waiting]
    conv_lhs => rw [parts]
    rw [List.flatMap_append, List.flatMap_cons]
  · intro e'
    change (s.table.set i e').flatMap CacheEntry.waiting = _
    rw [List.set_eq_take_append_cons_drop, if_pos inside, List.flatMap_append, List.flatMap_cons]
  · intro hop alone
    constructor
    · refine none hop alone _ fun f member => ?_
      obtain ⟨j, found⟩ := List.getElem?_of_mem member
      have short := (List.getElem?_eq_some_iff.mp found).1
      rw [List.length_take] at short
      rw [List.getElem?_take_of_lt (by omega)] at found
      exact ⟨j, by omega, found⟩
    · refine none hop alone _ fun f member => ?_
      obtain ⟨j, found⟩ := List.getElem?_of_mem member
      rw [List.getElem?_drop] at found
      exact ⟨i + 1 + j, by omega, found⟩

theorem Ledger.congr {s t : ArpCache Packet} (ledger : s.Ledger) (frames : t.frames = s.frames)
    (heard : t.heard = s.heard) (accepted : t.accepted = s.accepted) (freed : t.freed = s.freed)
    (waiting : t.waiting = s.waiting) : t.Ledger := by
  refine ⟨?_, ?_, fun hop => ?_⟩
  · rw [frames, heard]
    exact ledger.told
  · rw [accepted, freed, waiting, sent, frames]
    exact ledger.conserved
  · rw [accepted, waiting, sent, frames]
    exact ledger.ordered hop

/-- A frame that carries no packet of the cache. -/
theorem Ledger.send {s : ArpCache Packet} (ledger : s.Ledger) {frame : Frame Packet} (other : frame.packet = none) :
    (s.send frame).Ledger := by
  have same : (s.send frame).sent = s.sent := by
    rw [sent, ArpCache.send, List.filterMap_append, List.filterMap_cons, other]
    exact List.append_nil _
  refine ⟨fun netif mac hop p member => ?_, ?_, fun hop => ?_⟩
  · rcases List.mem_append.mp member with old | new
    · exact ledger.told netif mac hop p old
    · rw [← List.mem_singleton.mp new] at other
      cases other
  · rw [same]
    exact ledger.conserved
  · rw [same]
    exact ledger.ordered hop

/-- A store that leaves the packets of the entry as they are. -/
theorem Ledger.set {s : ArpCache Packet} (ledger : s.Ledger) (clean : s.Clean) (here : s.table[i]? = some old)
    {e : CacheEntry Packet} (same : e.waiting = old.waiting) : (s.set i e).Ledger := by
  obtain ⟨before, behind, was, becomes, _⟩ := waiting_split clean here
  refine ledger.congr rfl rfl rfl rfl ?_
  rw [becomes, was, same]

/-- Packets that are given up from the queue of an entry. -/
theorem Ledger.give_up {s : ArpCache Packet} (ledger : s.Ledger) (clean : s.Clean) (here : s.table[i]? = some old)
    {e : CacheEntry Packet} (parts : old.waiting = gone ++ e.waiting) :
    { s.set i e with freed := s.freed ++ gone }.Ledger := by
  obtain ⟨before, behind, was, becomes, _⟩ := waiting_split clean here
  have conserved := ledger.conserved
  have ordered := ledger.ordered
  refine ⟨ledger.told, ?_, fun hop => ?_⟩
  · change (s.accepted : Multiset (UInt32 × Packet)) =
      (s.sent : Multiset (UInt32 × Packet)) + (s.freed ++ gone : List _) + (s.set i e).waiting
    rw [conserved, becomes, was, parts]
    simp only [← Multiset.coe_add]
    abel
  · refine List.Sublist.trans ?_ (ordered hop)
    change (toHop hop (s.sent ++ (s.set i e).waiting)).Sublist _
    rw [becomes, was, parts]
    refine toHop_sublist hop (List.Sublist.append_left (List.Sublist.append_left ?_ _) _)
    exact (List.sublist_append_right gone e.waiting).append_right behind

/-- The packets of an entry are sent. -/
theorem Ledger.send_all {s : ArpCache Packet} (ledger : s.Ledger) (tidy : s.Tidy) (here : s.table[i]? = some old)
    (alone : s.Alone i old.ipaddr) {e : CacheEntry Packet} (empty : e.q = []) (netif : Nat) {ethaddr : List UInt8}
    (heard : (old.ipaddr, ethaddr) ∈ s.heard) :
    { s.set i e with frames := s.frames ++ old.flush netif ethaddr }.Ledger := by
  obtain ⟨before, behind, was, becomes, others⟩ := waiting_split tidy.clean here
  have conserved := ledger.conserved
  have nothing : e.waiting = [] := by rw [CacheEntry.waiting, empty]; rfl
  have out : (s.frames ++ old.flush netif ethaddr).filterMap Frame.packet = s.sent ++ old.waiting := by
    rw [List.filterMap_append, CacheEntry.flush, List.filterMap_map, CacheEntry.waiting, ← List.filterMap_eq_map]
    rfl
  refine ⟨fun n mac hop p member => ?_, ?_, fun hop => ?_⟩
  · rcases List.mem_append.mp member with before | new
    · exact ledger.told n mac hop p before
    · obtain ⟨p, _, same⟩ := List.mem_map.mp new
      cases same
      exact heard
  · change (s.accepted : Multiset (UInt32 × Packet)) =
      ((s.frames ++ old.flush netif ethaddr).filterMap Frame.packet : List (UInt32 × Packet)) + s.freed +
        (s.set i e).waiting
    rw [out, conserved, becomes, was, nothing]
    simp only [← Multiset.coe_add, Multiset.coe_nil]
    abel
  · have ordered := ledger.ordered hop
    change (toHop hop ((s.frames ++ old.flush netif ethaddr).filterMap Frame.packet ++
      (s.set i e).waiting)).Sublist (toHop hop s.accepted)
    rw [was] at ordered
    rw [out, becomes, nothing]
    simp only [toHop_append, List.nil_append, List.append_assoc] at ordered ⊢
    by_cases mine : old.ipaddr = hop
    · obtain ⟨first, last⟩ := others hop (mine ▸ alone)
      rw [first, last] at ordered ⊢
      exact ordered
    · rw [toHop_waiting, if_neg mine] at ordered ⊢
      exact ordered

/-- A packet that is taken over and sent at once. Nothing waits for its next hop. -/
theorem Ledger.direct {s : ArpCache Packet} {i : Nat} {e : CacheEntry Packet} (ledger : s.Ledger) (tidy : s.Tidy)
    (here : s.table[i]? = some e) (resolved : e.state.resolved = true) (netif : Nat) (p : Packet) :
    ((s.accept e.ipaddr p).send (.unicast netif e.ethaddr e.ipaddr p)).Ledger := by
  obtain ⟨before, behind, was, _, others⟩ := waiting_split tidy.clean here
  have member := List.mem_of_getElem? here
  have used : e.state ≠ .empty := fun unused => by rw [unused] at resolved; cases resolved
  have settled : e.state ≠ .pending := fun pending => by rw [pending] at resolved; cases resolved
  have nothing : e.waiting = [] := by
    rw [CacheEntry.waiting, (tidy.entries e member).queue settled]
    rfl
  have conserved := ledger.conserved
  have out : ((s.accept e.ipaddr p).send (.unicast netif e.ethaddr e.ipaddr p)).sent = s.sent ++ [(e.ipaddr, p)] :=
    List.filterMap_append
  refine ⟨fun n mac hop q sent => ?_, ?_, fun hop => ?_⟩
  · rcases List.mem_append.mp sent with before | new
    · exact ledger.told n mac hop q before
    · cases List.mem_singleton.mp new
      exact tidy.learnt e member resolved
  · rw [out]
    change ((s.accepted ++ [(e.ipaddr, p)] : List _) : Multiset (UInt32 × Packet)) =
      (s.sent ++ [(e.ipaddr, p)] : List _) + s.freed + s.waiting
    simp only [← Multiset.coe_add, conserved]
    abel
  · have ordered := ledger.ordered hop
    rw [out]
    change (toHop hop (s.sent ++ [(e.ipaddr, p)] ++ s.waiting)).Sublist (toHop hop (s.accepted ++ [(e.ipaddr, p)]))
    rw [was, nothing] at ordered ⊢
    simp only [toHop_append, List.nil_append] at ordered ⊢
    by_cases mine : e.ipaddr = hop
    · obtain ⟨first, last⟩ := others hop (mine ▸ tidy.distinct i e here used)
      rw [first, last, List.append_nil, List.append_nil] at ordered ⊢
      exact ordered.append_right _
    · have other : toHop hop [(e.ipaddr, p)] = [] := by
        simp only [toHop, List.filter_cons, List.filter_nil, decide_eq_false mine, Bool.false_eq_true, if_false]
      rw [other, List.append_nil, List.append_nil]
      exact ordered

/-- A packet that is taken over and waits. -/
theorem Ledger.append {s : ArpCache Packet} {i : Nat} {e : CacheEntry Packet} (ledger : s.Ledger) (tidy : s.Tidy)
    (here : s.table[i]? = some e) (alone : s.Alone i e.ipaddr) (p : Packet) :
    ((s.accept e.ipaddr p).set i { e with q := e.q ++ [p] }).Ledger := by
  obtain ⟨before, behind, was, becomes, others⟩ := waiting_split tidy.clean here
  have conserved := ledger.conserved
  have longer : ({ e with q := e.q ++ [p] } : CacheEntry Packet).waiting = e.waiting ++ [(e.ipaddr, p)] :=
    List.map_append
  have after : ((s.accept e.ipaddr p).set i { e with q := e.q ++ [p] }).waiting =
      before ++ (e.waiting ++ [(e.ipaddr, p)] ++ behind) := longer ▸ becomes { e with q := e.q ++ [p] }
  refine ⟨ledger.told, ?_, fun hop => ?_⟩
  · rw [after]
    change ((s.accepted ++ [(e.ipaddr, p)] : List _) : Multiset (UInt32 × Packet)) = s.sent + s.freed + _
    simp only [← Multiset.coe_add, conserved, was]
    abel
  · have ordered := ledger.ordered hop
    rw [after]
    change (toHop hop (s.sent ++ _)).Sublist (toHop hop (s.accepted ++ [(e.ipaddr, p)]))
    rw [was] at ordered
    simp only [toHop_append] at ordered ⊢
    by_cases mine : e.ipaddr = hop
    · obtain ⟨first, last⟩ := others hop (mine ▸ alone)
      rw [first, last, List.append_nil, List.nil_append] at ordered ⊢
      rw [← List.append_assoc]
      exact ordered.append_right _
    · have other : toHop hop [(e.ipaddr, p)] = [] := by
        simp only [toHop, List.filter_cons, List.filter_nil, decide_eq_false mine, Bool.false_eq_true, if_false]
      rw [other, List.append_nil, List.append_nil]
      exact ordered

/-- Entries whose packets are given up all over the table. -/
theorem flatMap_waiting_map (table : List (CacheEntry Packet)) {gone : CacheEntry Packet → Bool}
    {f : CacheEntry Packet → CacheEntry Packet} (parts : ∀ e, (f e).waiting = if gone e then [] else e.waiting) :
    (table.flatMap CacheEntry.waiting : Multiset (UInt32 × Packet)) =
        (table.filter gone).flatMap CacheEntry.waiting + (table.map f).flatMap CacheEntry.waiting ∧
      ((table.map f).flatMap CacheEntry.waiting).Sublist (table.flatMap CacheEntry.waiting) := by
  induction table with
  | nil => exact ⟨rfl, .slnil⟩
  | cons e table ih =>
    obtain ⟨counts, sub⟩ := ih
    rw [List.map_cons, List.flatMap_cons, List.flatMap_cons, parts e, List.filter_cons]
    by_cases leaves : gone e = true
    · rw [if_pos leaves, if_pos leaves, List.flatMap_cons, List.nil_append]
      refine ⟨?_, sub.trans (List.sublist_append_right _ _)⟩
      simp only [← Multiset.coe_add, counts]
      abel
    · rw [if_neg leaves, if_neg leaves]
      refine ⟨?_, sub.append_left _⟩
      simp only [← Multiset.coe_add, counts]
      abel

end ArpCache
end RemoteBoot.Net
