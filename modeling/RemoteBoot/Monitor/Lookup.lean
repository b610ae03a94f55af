import RemoteBoot.Monitor.Etharp

/-! The search by hardware address beside lwIP's own search by address. They take
different states for resolved, only one of them minds the order of the table, and
neither minds the interface. -/
namespace RemoteBoot.Monitor

def EtharpEntry.used (entry : EtharpEntry) : Bool := entry.state != .empty

/-- `etharp_find_entry` with `ETHARP_FLAG_FIND_ONLY`, the entry for its index. -/
def etharpFindEntry (table : ArpTable) (ipaddr : UInt32) : Option EtharpEntry :=
  table.find? fun entry => entry.used && entry.ipaddr == ipaddr

/-- `etharp_find_addr`. The interface is a parameter that it does not use either. -/
def etharpFindAddr (table : ArpTable) (_netif : Nat) (ipaddr : UInt32) : Option (List UInt8) :=
  match etharpFindEntry table ipaddr with
  | some entry => if entry.state.resolved then some entry.ethaddr else none
  | none => none

/-- Learnt on the interface and resolved by lwIP's own test. -/
def EtharpEntry.Learnt (entry : EtharpEntry) (netif : Nat) (mac : List UInt8) : Prop :=
  entry.state.resolved = true ∧ entry.netif = netif ∧ entry.ethaddr = mac

instance (entry : EtharpEntry) (netif : Nat) (mac : List UInt8) : Decidable (entry.Learnt netif mac) :=
  inferInstanceAs (Decidable (_ ∧ _ ∧ _))

/-- What a lookup by hardware address promises. -/
structure LooksUp (table : ArpTable) (netif : Nat) (mac : List UInt8) (ipaddr : UInt32) : Prop where
  found_iff : ipaddr ≠ 0 ↔ ∃ entry ∈ table, entry.Learnt netif mac
  belongs : ipaddr ≠ 0 → ∃ entry ∈ table, entry.Learnt netif mac ∧ entry.ipaddr = ipaddr
  forward : ipaddr ≠ 0 → etharpFindAddr table netif ipaddr = some mac

/-- The entry that the search stops at: the first one that is stable and has the
hardware address. -/
def firstStable (table : ArpTable) (mac : List UInt8) : Option EtharpEntry :=
  table.find? fun entry => entry.state == .stable && entry.ethaddr == mac

/-- `a` is the first of the list with the property, and `before` all in front of it. -/
def Heads {α : Type} (p : α → Prop) (before : List α) (a : α) (l : List α) : Prop :=
  p a ∧ (∃ after, l = before ++ a :: after) ∧ ∀ b ∈ before, ¬ p b

def EtharpEntry.StableWith (entry : EtharpEntry) (mac : List UInt8) : Prop :=
  entry.state = .stable ∧ entry.ethaddr = mac

def EtharpEntry.Uses (entry : EtharpEntry) (ipaddr : UInt32) : Prop :=
  entry.state ≠ .empty ∧ entry.ipaddr = ipaddr

/-- What the entries of the table must be like: the interface of the first stable
entry with the hardware address, the entries in front of it that use its address,
and the entries that are learnt but not stable. -/
structure Unambiguous (table : ArpTable) (netif : Nat) (mac : List UInt8) : Prop where
  /-- It is of the interface, or a twin of it is. -/
  own : ∀ before stable, Heads (·.StableWith mac) before stable table → stable.ipaddr ≠ 0 →
    stable.netif = netif ∨ ∃ twin ∈ table, twin.Learnt netif mac ∧ twin.ipaddr = stable.ipaddr
  /-- The first of them, if there is one, is not pending and has the hardware address too. -/
  front : ∀ before stable, Heads (·.StableWith mac) before stable table → stable.ipaddr ≠ 0 →
    ∀ earlier entry, Heads (·.Uses stable.ipaddr) earlier entry before →
      entry.state ≠ .pending ∧ entry.ethaddr = mac
  /-- They do not stand alone. -/
  seen : ∀ entry ∈ table, entry.Learnt netif mac →
    ∃ before stable, Heads (·.StableWith mac) before stable table ∧ stable.ipaddr ≠ 0

theorem Heads.mem {α : Type} {p : α → Prop} {before l : List α} {a : α} (heads : Heads p before a l) :
    a ∈ l := by
  obtain ⟨_, ⟨after, split⟩, _⟩ := heads
  rw [split]
  exact List.mem_append_right _ List.mem_cons_self

theorem find?_eq_some_iff_heads {α : Type} {q : α → Bool} {p : α → Prop} {l : List α} {a : α}
    (means : ∀ a, q a = true ↔ p a) : l.find? q = some a ↔ ∃ before, Heads p before a l := by
  rw [List.find?_eq_some_iff_append, means]
  constructor
  · rintro ⟨has, before, after, split, others⟩
    refine ⟨before, has, ⟨after, split⟩, fun b member hit => ?_⟩
    have miss := others b member
    rw [(means b).mpr hit] at miss
    cases miss
  · rintro ⟨before, has, ⟨after, split⟩, others⟩
    refine ⟨has, before, after, split, fun b member => ?_⟩
    rw [Bool.not_eq_true']
    exact Bool.eq_false_iff.mpr (mt (means b).mp (others b member))

theorem stableWith_iff (mac : List UInt8) (entry : EtharpEntry) :
    (entry.state == .stable && entry.ethaddr == mac) = true ↔ entry.StableWith mac := by
  rw [Bool.and_eq_true, beq_iff_eq, beq_iff_eq, EtharpEntry.StableWith]

theorem uses_iff (ipaddr : UInt32) (entry : EtharpEntry) :
    (entry.used && entry.ipaddr == ipaddr) = true ↔ entry.Uses ipaddr := by
  rw [Bool.and_eq_true, EtharpEntry.used, bne_iff_ne, beq_iff_eq, EtharpEntry.Uses]

theorem firstStable_eq_some {table : ArpTable} :
    firstStable table mac = some stable ↔ ∃ before, Heads (·.StableWith mac) before stable table :=
  find?_eq_some_iff_heads (stableWith_iff mac)

theorem EtharpEntry.StableWith.resolved {entry : EtharpEntry} (stable : entry.StableWith mac) :
    entry.state.resolved = true := by
  rw [stable.1]
  rfl

theorem EtharpEntry.StableWith.uses {entry : EtharpEntry} (stable : entry.StableWith mac) :
    entry.Uses entry.ipaddr := by
  refine ⟨?_, rfl⟩
  rw [stable.1]
  decide

/-- The search stops at the first stable entry with the hardware address. -/
theorem getIpFromMac_heads {table : ArpTable} (first : Heads (·.StableWith mac) before stable table) :
    getIpFromMac table netif mac = stable.ipaddr := by
  have search := firstStable_eq_some.mpr ⟨before, first⟩
  rw [firstStable] at search
  rw [getIpFromMac, search]

theorem getIpFromMac_none {table : ArpTable}
    (none : ¬ ∃ before stable, Heads (·.StableWith mac) before stable table) :
    getIpFromMac table netif mac = 0 := by
  cases search : firstStable table mac with
  | none =>
    rw [firstStable] at search
    rw [getIpFromMac, search]
  | some stable =>
    obtain ⟨before, first⟩ := firstStable_eq_some.mp search
    exact absurd ⟨before, stable, first⟩ none

/-- lwIP resolves the address of that entry back to the hardware address unless the
first entry in front of it that uses the address says otherwise. -/
theorem etharpFindAddr_heads {table : ArpTable}
    (first : Heads (·.StableWith mac) before stable table) :
    etharpFindAddr table netif stable.ipaddr = some mac ↔
      ∀ earlier entry, Heads (·.Uses stable.ipaddr) earlier entry before →
        entry.state ≠ .pending ∧ entry.ethaddr = mac := by
  obtain ⟨stableWith, ⟨after, rfl⟩, _⟩ := first
  have resolved_iff {entry : EtharpEntry} (uses : entry.Uses stable.ipaddr) :
      entry.state.resolved = true ↔ entry.state ≠ .pending := by
    have used := uses.1
    cases state : entry.state <;> simp_all [EtharpState.resolved]
  cases front : before.find? fun entry => entry.used && entry.ipaddr == stable.ipaddr with
  | none =>
    have found : etharpFindEntry (before ++ stable :: after) stable.ipaddr = some stable := by
      rw [etharpFindEntry, List.find?_append, front, Option.none_or]
      exact List.find?_cons_of_pos ((uses_iff _ _).mpr stableWith.uses)
    rw [etharpFindAddr, found]
    simp only [stableWith.resolved, if_true, stableWith.2, true_iff]
    intro earlier entry heads
    have hit := (find?_eq_some_iff_heads (uses_iff stable.ipaddr)).mpr ⟨earlier, heads⟩
    rw [front] at hit
    cases hit
  | some entry =>
    have found : etharpFindEntry (before ++ stable :: after) stable.ipaddr = some entry := by
      rw [etharpFindEntry, List.find?_append, front, Option.some_or]
    obtain ⟨earlier, heads⟩ := (find?_eq_some_iff_heads (uses_iff stable.ipaddr)).mp front
    rw [etharpFindAddr, found]
    simp only [Option.ite_none_right_eq_some, Option.some.injEq, resolved_iff heads.1]
    constructor
    · intro answer earlier' entry' heads'
      have hit := (find?_eq_some_iff_heads (uses_iff stable.ipaddr)).mpr ⟨earlier', heads'⟩
      cases front.symm.trans hit
      exact answer
    · exact fun all => all earlier entry heads

theorem looksUp_zero (table : ArpTable) (netif : Nat) (mac : List UInt8) :
    LooksUp table netif mac 0 ↔ ∀ entry ∈ table, ¬ entry.Learnt netif mac := by
  constructor
  · intro looksUp entry member learnt
    exact looksUp.found_iff.mpr ⟨entry, member, learnt⟩ rfl
  · intro none
    constructor
    · constructor
      · exact fun found => absurd rfl found
      · rintro ⟨entry, member, learnt⟩
        exact absurd learnt (none entry member)
    · exact fun found => absurd rfl found
    · exact fun found => absurd rfl found

/-- A lookup by hardware address gives the address of a resolved entry of that
interface, the one that lwIP resolves back, exactly when the table is unambiguous. -/
theorem getIpFromMac_looksUp_iff (table : ArpTable) (netif : Nat) (mac : List UInt8) :
    LooksUp table netif mac (getIpFromMac table netif mac) ↔ Unambiguous table netif mac := by
  constructor
  · intro looksUp
    constructor
    · intro before stable first address
      rw [getIpFromMac_heads first] at looksUp
      exact .inr (looksUp.belongs address)
    · intro before stable first address
      rw [getIpFromMac_heads first] at looksUp
      exact (etharpFindAddr_heads first).mp (looksUp.forward address)
    · intro entry member learnt
      have found := looksUp.found_iff.mpr ⟨entry, member, learnt⟩
      by_cases some : ∃ before stable, Heads (·.StableWith mac) before stable table
      · obtain ⟨before, stable, first⟩ := some
        rw [getIpFromMac_heads first] at found
        exact ⟨before, stable, first, found⟩
      · exact absurd (getIpFromMac_none some) found
  · intro unambiguous
    by_cases some : ∃ before stable, Heads (·.StableWith mac) before stable table ∧ stable.ipaddr ≠ 0
    · obtain ⟨before, stable, first, address⟩ := some
      rw [getIpFromMac_heads first]
      have belongs : ∃ entry ∈ table, entry.Learnt netif mac ∧ entry.ipaddr = stable.ipaddr := by
        rcases unambiguous.own before stable first address with here | twin
        · exact ⟨stable, first.mem, ⟨first.1.resolved, here, first.1.2⟩, rfl⟩
        · exact twin
      obtain ⟨entry, member, learnt, _⟩ := id belongs
      constructor
      · exact iff_of_true address ⟨entry, member, learnt⟩
      · exact fun _ => belongs
      · exact fun _ => (etharpFindAddr_heads first).mpr (unambiguous.front before stable first address)
    · have none : ∀ entry ∈ table, ¬ entry.Learnt netif mac :=
        fun entry member learnt => some (unambiguous.seen entry member learnt)
      have value : getIpFromMac table netif mac = 0 := by
        by_cases first : ∃ before stable, Heads (·.StableWith mac) before stable table
        · obtain ⟨before, stable, first⟩ := first
          rw [getIpFromMac_heads first]
          by_contra address
          exact some ⟨before, stable, first, address⟩
        · exact getIpFromMac_none first
      rw [value, looksUp_zero]
      exact none

/-- An entry that lwIP uses for seconds more, while it asks for the address again. -/
theorem rerequesting_missed :
    ¬ LooksUp [⟨.stableRerequesting1, 0, 0x0201a8c0, [0x88, 0xae, 0xdd, 0x15, 0x60, 0x95]⟩] 0
      [0x88, 0xae, 0xdd, 0x15, 0x60, 0x95]
      (getIpFromMac [⟨.stableRerequesting1, 0, 0x0201a8c0, [0x88, 0xae, 0xdd, 0x15, 0x60, 0x95]⟩] 0
        [0x88, 0xae, 0xdd, 0x15, 0x60, 0x95]) :=
  fun looksUp => absurd (looksUp.found_iff.mpr (by decide)) (by decide)

/-- Entries in use differ in their addresses, as `etharp_update_arp_entry` has it. -/
structure Coherent (table : ArpTable) : Prop where
  distinct : ∀ entry ∈ table, ∀ other ∈ table, entry.used = true → other.used = true →
    entry.ipaddr = other.ipaddr → entry = other
  nonzero : ∀ entry ∈ table, entry.used = true → entry.ipaddr ≠ 0

theorem EtharpEntry.Learnt.used {entry : EtharpEntry} {netif : Nat} {mac : List UInt8}
    (learnt : entry.Learnt netif mac) : entry.used = true := by
  have resolved := learnt.1
  cases state : entry.state with
  | empty => simp [state, EtharpState.resolved] at resolved
  | pending => simp [state, EtharpState.resolved] at resolved
  | stable | stableRerequesting1 | stableRerequesting2 => rw [EtharpEntry.used, state]; rfl

/-- In a coherent table only the interface and the state are left to go wrong: the
first stable entry with the hardware address is of the interface, and no other
entry is learnt unless there is one. -/
theorem Coherent.looksUp_iff {table : ArpTable} (coherent : Coherent table) (netif : Nat)
    (mac : List UInt8) : LooksUp table netif mac (getIpFromMac table netif mac) ↔
      (∀ before stable, Heads (·.StableWith mac) before stable table → stable.netif = netif) ∧
        ∀ entry ∈ table, entry.Learnt netif mac → ∃ stable ∈ table, stable.StableWith mac := by
  have used {entry : EtharpEntry} {ipaddr : UInt32} (uses : entry.Uses ipaddr) : entry.used = true :=
    bne_iff_ne.mpr uses.1
  have address {before : List EtharpEntry} {stable : EtharpEntry}
      (first : Heads (·.StableWith mac) before stable table) : stable.ipaddr ≠ 0 :=
    coherent.nonzero stable first.mem (used first.1.uses)
  rw [getIpFromMac_looksUp_iff]
  constructor
  · intro unambiguous
    refine ⟨fun before stable first => ?_, fun entry member learnt => ?_⟩
    · rcases unambiguous.own before stable first (address first) with here | ⟨twin, member, learnt, same⟩
      · exact here
      · cases coherent.distinct twin member stable first.mem learnt.used (used first.1.uses) same
        exact learnt.2.1
    · obtain ⟨before, stable, first, _⟩ := unambiguous.seen entry member learnt
      exact ⟨stable, first.mem, first.1⟩
  · rintro ⟨own, seen⟩
    constructor
    · exact fun before stable first _ => .inl (own before stable first)
    · intro before stable first _ earlier entry heads
      -- Nobody else uses the address, and the entry itself is not in front of itself.
      obtain ⟨after, split⟩ := first.2.1
      have member := heads.mem
      have there : entry ∈ table := by
        rw [split]
        exact List.mem_append_left _ member
      cases coherent.distinct entry there stable first.mem (used heads.1) (used first.1.uses)
        heads.1.2
      exact absurd first.1 (first.2.2 _ member)
    · intro entry member learnt
      obtain ⟨stable, there, stableWith⟩ := seen entry member learnt
      have search : (firstStable table mac).isSome :=
        List.find?_isSome.mpr ⟨stable, there, (stableWith_iff mac stable).mpr stableWith⟩
      obtain ⟨first, found⟩ := Option.isSome_iff_exists.mp search
      obtain ⟨before, heads⟩ := firstStable_eq_some.mp found
      exact ⟨before, first, heads, address heads⟩

end RemoteBoot.Monitor
