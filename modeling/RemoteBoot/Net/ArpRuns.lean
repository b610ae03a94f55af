import RemoteBoot.Transition
import RemoteBoot.Net.ArpLedger

/-! What holds of the ARP cache all along a run: the table is coherent and its entries do
not outlive their time, and every packet that was taken over is sent, waits or was
given up. -/
namespace RemoteBoot.Net
open Monitor Transition
variable {Packet : Type}

/-- What a turn of the timer can make of an entry. -/
inductive Ticks (e : CacheEntry Packet) : CacheEntry Packet → Prop where
  | idle (unused : e.state = .empty) : Ticks e e
  | expire (due : e.expires = true) : Ticks e e.older.free
  | age (state : EtharpState) (used : e.state ≠ .empty) (young : e.expires = false)
      (kind : state = e.state ∨ e.state.resolved = true ∧ state.resolved = true) :
      Ticks e { e.older with state := state }

theorem tick_ticks (e : CacheEntry Packet) : Ticks e e.tick := by
  unfold CacheEntry.tick
  by_cases unused : e.state = .empty
  · have notUsed : (!e.used) = true := by rw [EtharpEntry.used, unused]; rfl
    rw [if_pos notUsed]
    exact .idle unused
  · have used : ¬ (!e.used) = true := by
      rw [EtharpEntry.used]
      simpa using unused
    rw [if_neg used]
    by_cases due : e.expires = true
    · rw [if_pos due]
      exact .expire due
    · have young := eq_false_of_ne_true due
      rw [if_neg due]
      split
      · rename_i same
        exact .age _ unused young (.inr ⟨by rw [same]; rfl, rfl⟩)
      · split
        · rename_i same
          exact .age _ unused young (.inr ⟨by rw [same]; rfl, rfl⟩)
        · exact .age e.state unused young (.inl rfl)

/-- An entry that goes on is under its age. -/
theorem young_of_expires {e : CacheEntry Packet} (used : e.state ≠ .empty) (young : e.expires = false) :
    e.older.ctime < arpMaxage ∧ (e.state = .pending → e.older.ctime < arpMaxpending) := by
  have inUse : e.used = true := by
    rw [EtharpEntry.used]
    simpa using used
  rw [CacheEntry.expires, inUse, Bool.true_and, Bool.or_eq_false_iff] at young
  refine ⟨Nat.not_le.mp (of_decide_eq_false young.1), fun pending => ?_⟩
  have patient := young.2
  rw [pending] at patient
  exact Nat.not_le.mp (of_decide_eq_false patient)

theorem Ticks.ok {e f : CacheEntry Packet} (ticks : Ticks e f) (ok : EntryOk e) : EntryOk f := by
  cases ticks with
  | idle => exact ok
  | expire => exact .unused rfl rfl
  | age state used young kind =>
    obtain ⟨aged, patient⟩ := young_of_expires used young
    refine ⟨fun settled => ?_, ok.short, fun _ => ok.address used, fun _ => aged, fun pending => ?_⟩
    · rcases kind with rfl | ⟨resolved, _⟩
      · exact ok.queue settled
      · exact ok.queue fun pending => by rw [pending] at resolved; cases resolved
    · rcases kind with rfl | ⟨_, resolved⟩
      · exact patient pending
      · change state = .pending at pending
        rw [pending] at resolved
        cases resolved

theorem Ticks.used {e f : CacheEntry Packet} (ticks : Ticks e f) (inUse : f.state ≠ .empty) : e.state ≠ .empty := by
  cases ticks with
  | idle => exact inUse
  | expire => exact absurd rfl inUse
  | age state used => exact used

theorem Ticks.resolved {e f : CacheEntry Packet} (ticks : Ticks e f) (fit : f.state.resolved = true) :
    e.state.resolved = true := by
  cases ticks with
  | idle => exact fit
  | expire => cases fit
  | age state used young kind =>
    rcases kind with rfl | ⟨resolved, _⟩
    · exact fit
    · exact resolved

theorem Ticks.waiting {e f : CacheEntry Packet} (ticks : Ticks e f) : f.waiting = if e.expires then [] else e.waiting := by
  cases ticks with
  | idle unused =>
    have young : e.expires = false := by rw [CacheEntry.expires, EtharpEntry.used, unused]; rfl
    rw [young]
    rfl
  | expire due =>
    rw [due]
    rfl
  | age state used young =>
    rw [young]
    rfl

theorem Ticks.address {e f : CacheEntry Packet} (ticks : Ticks e f) : f.ipaddr = e.ipaddr ∧ f.ethaddr = e.ethaddr := by
  cases ticks <;> exact ⟨rfl, rfl⟩

namespace ArpCache

/-- What is in order at every moment. -/
structure Sound (s : ArpCache Packet) : Prop where
  tidy : s.Tidy
  ledger : s.Ledger

theorem Tidy.congr {s t : ArpCache Packet} (tidy : s.Tidy) (table : t.table = s.table)
    (inside : t.cachedEntry < arpTableSize) (heard : ∀ x ∈ s.heard, x ∈ t.heard) : t.Tidy := by
  refine ⟨?_, ?_, inside, ?_⟩
  · rw [table]
    exact tidy.entries
  · intro i e found used j f other present
    rw [table] at found present
    exact tidy.distinct i e found used j f other present
  · intro e member resolved
    rw [table] at member
    exact heard _ (tidy.learnt e member resolved)

theorem Sound.hear {s : ArpCache Packet} (sound : s.Sound) (x : UInt32 × List UInt8) :
    Sound { s with heard := s.heard ++ [x] } where
  tidy := sound.tidy.congr rfl sound.tidy.inside fun _ member => List.mem_append_left _ member
  ledger := ⟨fun netif mac hop p member => List.mem_append_left _ (sound.ledger.told netif mac hop p member),
    sound.ledger.conserved, sound.ledger.ordered⟩

theorem Sound.hint {s : ArpCache Packet} (sound : s.Sound) (inside : i < arpTableSize) :
    Sound { s with cachedEntry := i } where
  tidy := sound.tidy.congr rfl inside fun _ member => member
  ledger := sound.ledger.congr rfl rfl rfl rfl rfl

theorem Sound.send {s : ArpCache Packet} (sound : s.Sound) {frame : Frame Packet} (other : frame.packet = none) :
    (s.send frame).Sound where
  tidy := sound.tidy.congr rfl sound.tidy.inside fun _ member => member
  ledger := sound.ledger.send other

theorem Sound.request {s : ArpCache Packet} (sound : s.Sound) (alloc : Alloc) (netif : Nat) (ethdst : List UInt8)
    (ipaddr : UInt32) : (s.request alloc netif ethdst ipaddr).Sound := by
  unfold ArpCache.request
  split
  · exact sound.send rfl
  · exact sound

/-- The entry that a search ends with: it has the address, and no other one in use has. -/
structure Located (s : ArpCache Packet) (i : Nat) (ipaddr : UInt32) (e : CacheEntry Packet) : Prop where
  here : s.table[i]? = some e
  same : e.ipaddr = ipaddr
  alone : s.Alone i ipaddr
  unused : e.state = .empty → e.ctime = 0

theorem Located.inside {s : ArpCache Packet} (located : s.Located i ipaddr e) : i < arpTableSize :=
  s.width ▸ (List.getElem?_eq_some_iff.mp located.here).1

theorem findEntry_sound {s : ArpCache Packet} (sound : s.Sound) (ipaddr : UInt32) (flag : FindFlag) :
    (s.findEntry ipaddr flag).2.Sound ∧ (s.findEntry ipaddr flag).2.heard = s.heard ∧
      ∀ i ∈ (s.findEntry ipaddr flag).1, ∃ e, (s.findEntry ipaddr flag).2.Located i ipaddr e := by
  have tidy := sound.tidy
  have outcome := s.findEntry_found ipaddr flag tidy.clean
  generalize s.findEntry ipaddr flag = result at outcome ⊢
  cases outcome with
  | @known i e here used same =>
    refine ⟨sound, rfl, fun j only => ?_⟩
    cases only
    exact ⟨e, here, same, same ▸ tidy.distinct i e here used, fun unused => absurd unused used⟩
  | absent only none => exact ⟨sound, rfl, fun j found => by cases found⟩
  | @fresh i e hard here least none =>
    have free : EntryOk { e.free with ipaddr := ipaddr, ctime := 0 } := .unused rfl rfl
    have stored := tidy.set here free (fun used => absurd rfl used) fun resolved => by cases resolved
    refine ⟨⟨stored.congr rfl stored.inside fun _ member => member, ?_⟩, rfl, fun j only => ?_⟩
    · exact sound.ledger.give_up tidy.clean here (List.append_nil _).symm
    · cases only
      refine ⟨_, getElem?_set_same here _, rfl, ?_, fun _ => rfl⟩
      intro k f other found used
      change (s.set i _).table[k]? = _ at found
      rw [getElem?_set_other _ other] at found
      exact none f (List.mem_of_getElem? found) used

theorem Located.ok {s : ArpCache Packet} (located : s.Located i ipaddr e) (sound : s.Sound) : EntryOk e :=
  sound.tidy.entries e (List.mem_of_getElem? located.here)

theorem unicast_ne_zero {addr : UInt32} {net : Netif} (unicast : ¬ nonUnicast addr net = true) : addr ≠ 0 := by
  rintro rfl
  exact unicast (by rw [nonUnicast]; rfl)

/-- An update with what was heard. -/
theorem updateArpEntry_sound {s : ArpCache Packet} (sound : s.Sound) (nets : Nat → Netif) (netif : Nat)
    (heard : (ipaddr, ethaddr) ∈ s.heard) (flag : FindFlag) :
    (s.updateArpEntry nets netif ipaddr ethaddr flag).2.Sound := by
  unfold updateArpEntry
  split
  · exact sound
  · rename_i unicast
    obtain ⟨still, same, locates⟩ := findEntry_sound sound ipaddr flag
    rw [← same] at heard
    generalize s.findEntry ipaddr flag = result at still locates heard
    obtain ⟨found, t⟩ := result
    cases found with
    | none => exact still
    | some i =>
      obtain ⟨e, located⟩ := locates i rfl
      obtain ⟨here, rfl, alone, _⟩ := located
      simp only [here]
      have stable := EntryOk.learnt (e := e) (unicast_ne_zero unicast) netif ethaddr
      have stored := still.tidy.set here stable (fun _ => alone) fun _ => heard
      exact ⟨stored.congr rfl stored.inside fun _ member => member,
        still.ledger.send_all still.tidy here alone rfl netif heard⟩

/-- A packet that goes straight through a resolved entry. -/
theorem direct_sound {s : ArpCache Packet} (sound : s.Sound) {i : Nat} {e : CacheEntry Packet}
    (here : s.table[i]? = some e) (resolved : e.state.resolved = true) (netif : Nat) (p : Packet) :
    ((s.accept e.ipaddr p).send (.unicast netif e.ethaddr e.ipaddr p)).Sound where
  tidy := sound.tidy.congr rfl sound.tidy.inside fun _ member => member
  ledger := sound.ledger.direct sound.tidy here resolved netif p

/-- A packet that joins the queue of a pending entry. -/
theorem enqueue_sound {s : ArpCache Packet} (sound : s.Sound) (located : s.Located i ipaddr e)
    (pending : e.state = .pending) (p : Packet) : ((s.accept ipaddr p).enqueue i e p).Sound := by
  have ok := located.ok sound
  obtain ⟨here, rfl, alone, _⟩ := located
  have queued {q : List Packet} (short : q.length ≤ arpQueueLen) : EntryOk { e with q := q } :=
    ⟨fun other => absurd pending other, short, ok.address, ok.young, ok.patient⟩
  have tidy {q : List Packet} (short : q.length ≤ arpQueueLen) : (s.set i { e with q := q }).Tidy :=
    sound.tidy.set here (queued short) (fun _ => alone) fun resolved => by
      change e.state.resolved = true at resolved
      rw [pending] at resolved
      cases resolved
  have longer := sound.ledger.append sound.tidy here alone p
  unfold enqueue
  split
  · rename_i full
    have short : (e.q ++ [p]).tail.length ≤ arpQueueLen := by
      rw [List.length_tail, List.length_append, List.length_singleton]
      exact ok.short
    have clean : ((s.accept e.ipaddr p).set i { e with q := e.q ++ [p] }).Clean :=
      sound.tidy.clean.set fun unused => absurd (pending.symm.trans unused) fun same => by cases same
    have twice : ((s.accept e.ipaddr p).set i { e with q := e.q ++ [p] }).set i { e with q := (e.q ++ [p]).tail } =
        (s.accept e.ipaddr p).set i { e with q := (e.q ++ [p]).tail } := by
      simp only [ArpCache.set, List.set_set]
    obtain ⟨first, rest, queue⟩ := List.exists_cons_of_length_pos (Nat.lt_of_lt_of_le (by decide) full)
    have parts : ({ e with q := e.q ++ [p] } : CacheEntry Packet).waiting =
        e.waiting.head?.toList ++ ({ e with q := (e.q ++ [p]).tail } : CacheEntry Packet).waiting := by
      simp only [CacheEntry.waiting, queue]
      rfl
    have given := longer.give_up clean (getElem?_set_same here _) parts
    rw [twice] at given
    exact ⟨(tidy short).congr rfl (tidy short).inside fun _ member => member, given⟩
  · rename_i room
    have short : (e.q ++ [p]).length ≤ arpQueueLen := by
      rw [List.length_append, List.length_singleton]
      omega
    exact ⟨(tidy short).congr rfl (tidy short).inside fun _ member => member, longer⟩

/-- The entry that a query works on: a fresh one is pending now. -/
theorem query_entry {s : ArpCache Packet} (sound : s.Sound) (located : s.Located i ipaddr e) (address : ipaddr ≠ 0)
    (netif : Nat) : ∃ asked, (if e.state == .empty then { e with state := .pending, netif := netif } else e) = asked ∧
      (s.set i asked).Sound ∧ (s.set i asked).Located i ipaddr asked ∧ asked.state ≠ .empty := by
  obtain ⟨here, rfl, alone, fresh⟩ := located
  have apart (asked : CacheEntry Packet) : (s.set i asked).Alone i e.ipaddr := fun j f other found =>
    alone j f other (getElem?_set_other asked other ▸ found)
  by_cases unused : e.state = .empty
  · have queue := sound.tidy.clean e (List.mem_of_getElem? here) unused
    refine ⟨_, rfl, ?_, ?_, ?_⟩ <;> rw [if_pos (beq_iff_eq.mpr unused)]
    · have ok := EntryOk.asked queue address (fresh unused) netif
      have stored := sound.tidy.set here ok (fun _ => alone) fun resolved => by cases resolved
      exact ⟨stored, sound.ledger.set sound.tidy.clean here rfl⟩
    · exact ⟨getElem?_set_same here _, rfl, apart _, fun no => by cases no⟩
    · exact fun no => by cases no
  · refine ⟨e, if_neg fun same => unused (beq_iff_eq.mp same), ?_, ?_, unused⟩
    · have same : s.set i e = s := by
        obtain ⟨inside, rfl⟩ := List.getElem?_eq_some_iff.mp here
        simp only [ArpCache.set, List.set_getElem_self]
      rwa [same]
    · exact ⟨getElem?_set_same here e, rfl, apart e, fun no => absurd no unused⟩

theorem query_request {s : ArpCache Packet} (sound : s.Sound) (located : s.Located i ipaddr e) (asks : Bool)
    (alloc : Alloc) (netif : Nat) : ∃ after, (if asks then s.request alloc netif ethbroadcast ipaddr else s) = after ∧
      after.Sound ∧ after.Located i ipaddr e := by
  refine ⟨_, rfl, ?_⟩
  unfold ArpCache.request
  split
  · split
    · exact ⟨sound.send rfl, located.here, located.same, located.alone, located.unused⟩
    · exact ⟨sound, located⟩
  · exact ⟨sound, located⟩

theorem pending_of {state : EtharpState} (used : state ≠ .empty) (unresolved : ¬ state.resolved = true) :
    state = .pending := by
  cases state with
  | empty => exact absurd rfl used
  | pending => rfl
  | _ => exact absurd rfl unresolved

theorem etharpQuery_sound {s : ArpCache Packet} (sound : s.Sound) (nets : Nat → Netif) (netif : Nat)
    (ipaddr : UInt32) (q : Option Packet) (alloc : Alloc) : (s.etharpQuery nets netif ipaddr q alloc).2.Sound := by
  unfold etharpQuery
  split
  · exact sound
  · rename_i unicast
    obtain ⟨still, _, locates⟩ := findEntry_sound sound ipaddr .tryHard
    generalize s.findEntry ipaddr .tryHard = result at still locates
    obtain ⟨found, t⟩ := result
    cases found with
    | none => exact still
    | some i =>
      obtain ⟨e, located⟩ := locates i rfl
      obtain ⟨asked, becomes, stored, placed, used⟩ := query_entry still located (unicast_ne_zero unicast) netif
      obtain ⟨after, same, ready, found⟩ := query_request stored placed (e.state == .empty || q.isNone) alloc netif
      simp only [located.here, becomes, same]
      cases q with
      | none => exact ready
      | some p =>
        by_cases resolved : asked.state.resolved = true
        · have sent := direct_sound ready found.here resolved netif p
          rw [found.same] at sent
          simp only [if_pos resolved, found.same]
          exact sent.hint found.inside
        · simp only [if_neg resolved]
          split
          · exact enqueue_sound ready found (pending_of used resolved) p
          · exact ready

/-- Before a packet goes out through an entry, the entry may be asked for again. -/
theorem output_entry {s : ArpCache Packet} (sound : s.Sound) {i : Nat} {e : CacheEntry Packet}
    (here : s.table[i]? = some e) (resolved : e.state.resolved = true) (netif : Nat) (p : Packet) (hop : UInt32)
    (alloc : Alloc) : ∃ (after : ArpCache Packet) (now : CacheEntry Packet), after.Sound ∧ after.table[i]? = some now ∧
      now.state.resolved = true ∧ now.ipaddr = e.ipaddr ∧ now.ethaddr = e.ethaddr ∧
      (s.accept hop p).outputToArpIndex netif p i e alloc =
        (after.accept hop p).send (.unicast netif e.ethaddr e.ipaddr p) := by
  have ok := sound.tidy.entries e (List.mem_of_getElem? here)
  have settled : e.state ≠ .pending := fun pending => by rw [pending] at resolved; cases resolved
  have used : e.state ≠ .empty := fun unused => by rw [unused] at resolved; cases resolved
  have asked (ethdst : List UInt8) :
      ((s.send (.arpRequest netif ethdst e.ipaddr)).set i { e with state := .stableRerequesting1 }).Sound := by
    refine ⟨(sound.send rfl).tidy.set here ?_ (fun _ => sound.tidy.distinct i e here used) fun _ => ?_, ?_⟩
    · exact ⟨fun _ => ok.queue settled, ok.short, fun _ => ok.address used, fun _ => ok.young used,
        fun pending => by cases pending⟩
    · exact sound.tidy.learnt e (List.mem_of_getElem? here) resolved
    · exact (sound.send rfl).ledger.set sound.tidy.clean here rfl
  have again (ethdst : List UInt8) (allocated : alloc.request = true) :
      ∃ (after : ArpCache Packet) (now : CacheEntry Packet), after.Sound ∧ after.table[i]? = some now ∧
        now.state.resolved = true ∧ now.ipaddr = e.ipaddr ∧ now.ethaddr = e.ethaddr ∧
        (((s.accept hop p).request alloc netif ethdst e.ipaddr).set i { e with state := .stableRerequesting1 }).send
            (.unicast netif e.ethaddr e.ipaddr p) =
          (after.accept hop p).send (.unicast netif e.ethaddr e.ipaddr p) := by
    refine ⟨_, _, asked ethdst, getElem?_set_same here _, rfl, rfl, rfl, ?_⟩
    rw [ArpCache.request, if_pos allocated]
    rfl
  have plain : ∃ (after : ArpCache Packet) (now : CacheEntry Packet), after.Sound ∧ after.table[i]? = some now ∧
      now.state.resolved = true ∧ now.ipaddr = e.ipaddr ∧ now.ethaddr = e.ethaddr ∧
      (s.accept hop p).send (.unicast netif e.ethaddr e.ipaddr p) =
        (after.accept hop p).send (.unicast netif e.ethaddr e.ipaddr p) :=
    ⟨s, e, sound, here, resolved, rfl, rfl, rfl⟩
  unfold outputToArpIndex
  split
  · split
    · split
      · exact again _ ‹_›
      · exact plain
    · split
      · split
        · exact again _ ‹_›
        · exact plain
      · exact plain
  · exact plain

/-- A packet for the address of a resolved entry. -/
theorem outputToArpIndex_sound {s : ArpCache Packet} (sound : s.Sound) {i : Nat} {e : CacheEntry Packet}
    (here : s.table[i]? = some e) (resolved : e.state.resolved = true) (netif : Nat) (p : Packet) (alloc : Alloc) :
    ((s.accept e.ipaddr p).outputToArpIndex netif p i e alloc).Sound := by
  obtain ⟨after, now, still, there, fit, address, ethernet, becomes⟩ :=
    output_entry sound here resolved netif p e.ipaddr alloc
  rw [becomes, ← address, ← ethernet]
  exact direct_sound still there fit netif p

theorem findStable_hit {s : ArpCache Packet} (found : s.findStable hop = some i) :
    ∃ e, s.table[i]? = some e ∧ e.state.resolved = true ∧ hop = e.ipaddr := by
  obtain ⟨inside, hit, _⟩ := List.findIdx?_eq_some_iff_getElem.mp found
  simp only [Bool.and_eq_true, beq_iff_eq] at hit
  exact ⟨s.table[i], List.getElem?_eq_getElem inside, hit⟩

theorem outputSearched_sound {s : ArpCache Packet} (sound : s.Sound) (nets : Nat → Netif) (netif : Nat) (p : Packet)
    (hop : UInt32) (alloc : Alloc) : (s.outputSearched nets netif p hop alloc).2.Sound := by
  unfold outputSearched
  cases search : s.findStable hop with
  | none => exact etharpQuery_sound sound nets netif hop (some p) alloc
  | some i =>
    obtain ⟨e, here, resolved, rfl⟩ := findStable_hit search
    have inside : i < arpTableSize := s.width ▸ (List.getElem?_eq_some_iff.mp here).1
    simp only [here]
    exact outputToArpIndex_sound (sound.hint inside) here resolved netif p alloc

theorem outputUnicast_sound {s : ArpCache Packet} (sound : s.Sound) (nets : Nat → Netif) (netif : Nat) (p : Packet)
    (hop : UInt32) (alloc : Alloc) : (s.outputUnicast nets netif p hop alloc).2.Sound := by
  have searched := outputSearched_sound sound nets netif p hop alloc
  unfold outputUnicast
  cases here : s.table[s.cachedEntry]? with
  | none => exact searched
  | some e =>
    by_cases hit : (e.state.resolved && hop == e.ipaddr) = true
    · have resolved := (Bool.and_eq_true_iff.mp hit).1
      obtain rfl := beq_iff_eq.mp (Bool.and_eq_true_iff.mp hit).2
      simp only [if_pos hit]
      exact outputToArpIndex_sound sound here resolved netif p alloc
    · simp only [if_neg hit]
      exact searched

theorem etharpOutput_sound {s : ArpCache Packet} (sound : s.Sound) (nets : Nat → Netif) (netif : Nat) (p : Packet)
    (ipaddr : UInt32) (alloc : Alloc) : (s.etharpOutput nets netif p ipaddr alloc).2.Sound := by
  unfold etharpOutput
  split
  · exact sound.send rfl
  · split
    · exact sound.send rfl
    · cases nextHop (nets netif) ipaddr with
      | none => exact sound
      | some hop => exact outputUnicast_sound sound nets netif p hop alloc

theorem etharpInput_sound {s : ArpCache Packet} (sound : s.Sound) (nets : Nat → Netif) (netif : Nat)
    (hdr : EtharpHdr) (alloc : Alloc) : (s.etharpInput nets netif hdr alloc).Sound := by
  unfold etharpInput
  split
  · exact sound
  · have heard : (hdr.sipaddr, hdr.shwaddr) ∈ s.heard ++ [(hdr.sipaddr, hdr.shwaddr)] :=
      List.mem_append_right _ List.mem_cons_self
    have updated (flag : FindFlag) := updateArpEntry_sound (sound.hear (hdr.sipaddr, hdr.shwaddr)) nets netif heard flag
    dsimp only
    split
    · exact (updated _).send rfl
    · exact updated _

/-- A turn through the table that leaves addresses alone, takes no new entry into use and
gives up the packets of some. -/
theorem Sound.sweep {s t : ArpCache Packet} (sound : s.Sound) {f : CacheEntry Packet → CacheEntry Packet}
    {gone : CacheEntry Packet → Bool} (ok : ∀ e, EntryOk e → EntryOk (f e))
    (address : ∀ e, (f e).ipaddr = e.ipaddr) (ethernet : ∀ e, (f e).ethaddr = e.ethaddr)
    (used : ∀ e, (f e).state ≠ .empty → e.state ≠ .empty)
    (resolved : ∀ e, (f e).state.resolved = true → e.state.resolved = true)
    (parts : ∀ e, (f e).waiting = if gone e then [] else e.waiting) (table : t.table = s.table.map f)
    (freed : t.freed = s.freed ++ (s.table.filter gone).flatMap CacheEntry.waiting) (sent : t.sent = s.sent)
    (told : ∀ netif mac hop p, Frame.unicast netif mac hop p ∈ t.frames → Frame.unicast netif mac hop p ∈ s.frames)
    (accepted : t.accepted = s.accepted) (heard : t.heard = s.heard) (hint : t.cachedEntry = s.cachedEntry) : t.Sound := by
  obtain ⟨tidy, ledger⟩ := sound
  obtain ⟨counts, sub⟩ := flatMap_waiting_map s.table parts
  have waits : t.waiting = (s.table.map f).flatMap CacheEntry.waiting := by rw [waiting, table]
  refine ⟨⟨fun e member => ?_, fun i e found inUse j g other present => ?_, hint ▸ tidy.inside, fun e member fit => ?_⟩,
    ⟨fun netif mac hop p member => ?_, ?_, fun hop => ?_⟩⟩
  · rw [table] at member
    obtain ⟨old, before, rfl⟩ := List.mem_map.mp member
    exact ok old (tidy.entries old before)
  · rw [table, List.getElem?_map] at found present
    obtain ⟨old, before, rfl⟩ := Option.map_eq_some_iff.mp found
    obtain ⟨old', before', rfl⟩ := Option.map_eq_some_iff.mp present
    intro inUse'
    rw [address, address]
    exact tidy.distinct i old before (used old inUse) j old' other before' (used old' inUse')
  · rw [table] at member
    obtain ⟨old, before, rfl⟩ := List.mem_map.mp member
    rw [address, ethernet, heard]
    exact tidy.learnt old before (resolved old fit)
  · rw [heard]
    exact ledger.told netif mac hop p (told netif mac hop p member)
  · have conserved := ledger.conserved
    rw [waiting, counts] at conserved
    rw [accepted, sent, freed, waits, conserved]
    simp only [← Multiset.coe_add]
    abel
  · rw [accepted, sent, waits]
    exact (toHop_sublist hop (sub.append_left s.sent)).trans (ledger.ordered hop)

theorem etharpCleanupNetif_sound {s : ArpCache Packet} (sound : s.Sound) (netif : Nat) :
    (s.etharpCleanupNetif netif).Sound := by
  refine sound.sweep (fun e ok => ?_) (fun e => ?_) (fun e => ?_) (fun e => ?_) (fun e => ?_) (fun e => ?_) rfl rfl rfl
    (fun _ _ _ _ member => member) rfl rfl rfl
  · split
    · exact .unused rfl rfl
    · exact ok
  · split <;> rfl
  · split <;> rfl
  · split
    · exact fun used => absurd rfl used
    · exact id
  · split
    · exact fun resolved => by cases resolved
    · exact id
  · split <;> rfl

theorem etharpTmr_sound {s : ArpCache Packet} (sound : s.Sound) (alloc : Alloc) : (s.etharpTmr alloc).Sound := by
  have requests (frame : Frame Packet) (member : frame ∈ if alloc.request then
      (s.table.filter fun e => e.state == .pending && !e.expires).map fun e =>
        Frame.arpRequest e.netif ethbroadcast e.ipaddr else []) : frame.packet = none := by
    split at member
    · obtain ⟨e, _, rfl⟩ := List.mem_map.mp member
      rfl
    · exact absurd member List.not_mem_nil
  refine sound.sweep (fun e => (tick_ticks e).ok) (fun e => (tick_ticks e).address.1)
    (fun e => (tick_ticks e).address.2) (fun e => (tick_ticks e).used) (fun e => (tick_ticks e).resolved)
    (fun e => (tick_ticks e).waiting) rfl rfl ?_ (fun netif mac hop p member => ?_) rfl rfl rfl
  · rw [sent, etharpTmr, List.filterMap_append, List.filterMap_eq_nil_iff.mpr requests, List.append_nil]
    rfl
  · rcases List.mem_append.mp member with old | new
    · exact old
    · cases requests _ new

theorem step_sound {s t : ArpCache Packet} (sound : s.Sound) (stepped : s.step nets call = some t) : t.Sound := by
  cases call with
  | input netif hdr alloc => cases stepped; exact etharpInput_sound sound nets netif hdr alloc
  | output netif p ipaddr alloc => cases stepped; exact etharpOutput_sound sound nets netif p ipaddr alloc
  | query netif ipaddr q alloc => cases stepped; exact etharpQuery_sound sound nets netif ipaddr q alloc
  | tmr alloc => cases stepped; exact etharpTmr_sound sound alloc
  | cleanup netif => cases stepped; exact etharpCleanupNetif_sound sound netif

theorem create_sound : (create : ArpCache Packet).Sound := by
  have fresh (e : CacheEntry Packet) (member : e ∈ (create : ArpCache Packet).table) : e = .fresh :=
    List.eq_of_mem_replicate member
  refine ⟨⟨fun e member => ?_, fun i e found used => ?_, Nat.succ_pos 9, fun e member resolved => ?_⟩,
    ⟨fun _ _ _ _ member => absurd member List.not_mem_nil, rfl, fun _ => List.Sublist.refl _⟩⟩
  · rw [fresh e member]
    exact .unused rfl rfl
  · rw [fresh e (List.mem_of_getElem? found)] at used
    exact absurd rfl used
  · rw [fresh e member] at resolved
    cases resolved

/-- The table as the search by hardware address sees it. -/
def entries (s : ArpCache Packet) : ArpTable := s.table.map CacheEntry.toEtharpEntry

theorem Tidy.coherent {s : ArpCache Packet} (tidy : s.Tidy) : Coherent s.entries := by
  have used {e : CacheEntry Packet} (inUse : e.toEtharpEntry.used = true) : e.state ≠ .empty := by
    rw [EtharpEntry.used] at inUse
    simpa using inUse
  constructor
  · intro entry member other member' inUse inUse' same
    obtain ⟨e, inTable, rfl⟩ := List.mem_map.mp member
    obtain ⟨f, inTable', rfl⟩ := List.mem_map.mp member'
    obtain ⟨i, found⟩ := List.getElem?_of_mem inTable
    obtain ⟨j, found'⟩ := List.getElem?_of_mem inTable'
    by_cases apart : j = i
    · subst apart
      rw [Option.some.inj (found.symm.trans found')]
    · exact absurd same.symm (tidy.distinct i e found (used inUse) j f apart found' (used inUse'))
  · intro entry member inUse
    obtain ⟨e, inTable, rfl⟩ := List.mem_map.mp member
    exact (tidy.entries e inTable).address (used inUse)

theorem outputUnicast_eq {s : ArpCache Packet} (tidy : s.Tidy) (nets : Nat → Netif) (netif : Nat) (p : Packet)
    (hop : UInt32) (alloc : Alloc) :
    s.outputUnicast nets netif p hop alloc = s.outputSearched nets netif p hop alloc := by
  unfold outputUnicast
  cases here : s.table[s.cachedEntry]? with
  | none => rfl
  | some e =>
    by_cases hit : (e.state.resolved && hop == e.ipaddr) = true
    · obtain ⟨resolved, address⟩ := Bool.and_eq_true_iff.mp hit
      obtain rfl := beq_iff_eq.mp address
      have used : e.state ≠ .empty := fun unused => by rw [unused] at resolved; cases resolved
      have first : s.findStable e.ipaddr = some s.cachedEntry := by
        cases search : s.findStable e.ipaddr with
        | none =>
          have miss := List.findIdx?_eq_none_iff.mp search e (List.mem_of_getElem? here)
          rw [hit] at miss
          cases miss
        | some i =>
          obtain ⟨f, there, fit, same⟩ := findStable_hit search
          by_contra other
          have apart : i ≠ s.cachedEntry := fun equal => other (congrArg some equal)
          have inUse : f.state ≠ .empty := fun unused => by rw [unused] at fit; cases fit
          exact tidy.distinct s.cachedEntry e here used i f apart there inUse same.symm
      simp only [if_pos hit, outputSearched, first, here]
      rfl
    · simp only [if_neg hit]

section
variable {nets : Nat → Netif} {calls : List (ArpCall Packet)} {t : ArpCache Packet}

theorem run_sound (run : Run (step nets) Free (create : ArpCache Packet) calls t) : t.Sound :=
  run.invariant (fun sound _ stepped => step_sound sound stepped) create_sound

/-- Whatever comes in and goes out, the table is coherent: no address twice, no entry past
its time, and no mapping that was not heard. A search by hardware address that finds a
stable entry is right exactly if the entry is of the interface. -/
theorem table_coherent (run : Run (step nets) Free (create : ArpCache Packet) calls t) :
    Coherent t.entries ∧ (∀ e ∈ t.table, EntryOk e) ∧
      (∀ e ∈ t.table, e.state.resolved = true → (e.ipaddr, e.ethaddr) ∈ t.heard) ∧
      ∀ netif mac stable, firstStable t.entries mac = some stable →
        (LooksUp t.entries netif mac (getIpFromMac t.entries netif mac) ↔ stable.netif = netif) := by
  have tidy := (run_sound run).tidy
  refine ⟨tidy.coherent, tidy.entries, tidy.learnt, fun netif mac stable first => ?_⟩
  obtain ⟨before, heads⟩ := firstStable_eq_some.mp first
  obtain ⟨after, split⟩ := heads.2.1
  have inside : stable ∈ t.entries := by
    rw [split]
    exact List.mem_append_right _ List.mem_cons_self
  rw [tidy.coherent.looksUp_iff]
  constructor
  · exact fun both => both.1 before stable heads
  · refine fun here => ⟨fun before' other heads' => ?_, fun _ _ _ => ⟨stable, inside, heads.1⟩⟩
    cases first.symm.trans (firstStable_eq_some.mpr ⟨before', heads'⟩)
    exact here

/-- Every packet that was taken over has been sent, waits or was given up; it is sent to a
hardware address that was heard for its next hop, and packets to one next hop are not
reordered. -/
theorem packets_accounted (run : Run (step nets) Free (create : ArpCache Packet) calls t) :
    t.accepted.Perm (t.sent ++ (t.freed ++ t.waiting)) ∧
      (∀ netif mac hop p, Frame.unicast netif mac hop p ∈ t.frames → (hop, mac) ∈ t.heard) ∧
      ∀ hop, (toHop hop (t.sent ++ t.waiting)).Sublist (toHop hop t.accepted) := by
  have ledger := (run_sound run).ledger
  refine ⟨Multiset.coe_eq_coe.mp ?_, ledger.told, ledger.ordered⟩
  rw [ledger.conserved, ← Multiset.coe_add, ← Multiset.coe_add, add_assoc]

/-- The entry of the packet before is no more than a short cut. -/
theorem cached_entry_agrees (run : Run (step nets) Free (create : ArpCache Packet) calls t) (netif : Nat)
    (p : Packet) (hop : UInt32) (alloc : Alloc) :
    t.outputUnicast nets netif p hop alloc = t.outputSearched nets netif p hop alloc :=
  outputUnicast_eq (run_sound run).tidy nets netif p hop alloc

end

/-- The board at home. -/
def homeNets (_ : Nat) : Netif := ⟨0x1e01a8c0, 0x00ffffff, 0x0101a8c0, true⟩

/-- Two packets wait for an address, the answer comes, and a third one follows. -/
def homeCalls : List (ArpCall Nat) :=
  let ample : Alloc := ⟨true, true, true⟩
  [.output 0 7 0x0201a8c0 ample, .output 0 8 0x0201a8c0 ample, .tmr ample,
    .input 0 ⟨1, 0x0800, 6, 4, 2, [2, 0, 0, 0, 0, 9], 0x0201a8c0, 0x1e01a8c0⟩ ample, .output 0 9 0x0201a8c0 ample]

theorem table_coherent_home : ∃ t : ArpCache Nat, Run (step homeNets) Free create homeCalls t ∧
    Coherent t.entries ∧ (∀ e ∈ t.table, EntryOk e) ∧
      (∀ e ∈ t.table, e.state.resolved = true → (e.ipaddr, e.ethaddr) ∈ t.heard) ∧
      ∀ netif mac stable, firstStable t.entries mac = some stable →
        (LooksUp t.entries netif mac (getIpFromMac t.entries netif mac) ↔ stable.netif = netif) := by
  have run : Run (step homeNets) Free (create : ArpCache Nat) homeCalls _ := .of_foldlM rfl
  exact ⟨_, run, table_coherent run⟩

theorem packets_accounted_home : ∃ t : ArpCache Nat, Run (step homeNets) Free create homeCalls t ∧
    t.accepted.Perm (t.sent ++ (t.freed ++ t.waiting)) ∧
      (∀ netif mac hop p, Frame.unicast netif mac hop p ∈ t.frames → (hop, mac) ∈ t.heard) ∧
      ∀ hop, (toHop hop (t.sent ++ t.waiting)).Sublist (toHop hop t.accepted) := by
  have run : Run (step homeNets) Free (create : ArpCache Nat) homeCalls _ := .of_foldlM rfl
  exact ⟨_, run, packets_accounted run⟩

theorem cached_entry_agrees_home : ∃ t : ArpCache Nat, Run (step homeNets) Free create homeCalls t ∧
    t.outputUnicast homeNets 0 10 0x0201a8c0 ⟨true, true, true⟩ =
      t.outputSearched homeNets 0 10 0x0201a8c0 ⟨true, true, true⟩ := by
  have run : Run (step homeNets) Free (create : ArpCache Nat) homeCalls _ := .of_foldlM rfl
  exact ⟨_, run, cached_entry_agrees run 0 10 0x0201a8c0 ⟨true, true, true⟩⟩

/-- They go out in order and to the address that was heard. -/
example : (homeCalls.foldlM (step homeNets) (create : ArpCache Nat)).map (fun t => (t.sent, t.freed, t.waiting)) =
    some ([(0x0201a8c0, 7), (0x0201a8c0, 8), (0x0201a8c0, 9)], [], []) := by
  decide +kernel

end ArpCache
end RemoteBoot.Net
