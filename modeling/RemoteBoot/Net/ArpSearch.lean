import RemoteBoot.Net.ArpCache

/-! What `etharp_find_entry` finds, and what it recycles where it finds nothing. -/
namespace RemoteBoot.Net
open Monitor
variable {Packet : Type}

/-- `idx` is the last of the oldest entries of a kind, and `age` its age. -/
def Oldest (kind : CacheEntry Packet → Bool) (l : List (CacheEntry Packet)) (idx : Option Nat) (age : Nat) : Prop :=
  match idx with
  | none => (∀ e ∈ l, kind e = false) ∧ age = 0
  | some j => (∃ e, l[j]? = some e ∧ kind e = true ∧ e.ctime = age) ∧ ∀ f ∈ l, kind f = true → f.ctime ≤ age

theorem Oldest.skip {kind : CacheEntry Packet → Bool} (oldest : Oldest kind l idx age)
    (other : kind e = true → e.ctime < age) : Oldest kind (l ++ [e]) idx age := by
  cases idx with
  | none =>
    obtain ⟨none, zero⟩ := oldest
    refine ⟨fun f member => ?_, zero⟩
    rcases List.mem_append.mp member with old | new
    · exact none f old
    · rw [List.mem_singleton.mp new]
      refine Bool.eq_false_iff.mpr fun this => ?_
      have := other this
      omega
  | some j =>
    obtain ⟨⟨e', found, same, aged⟩, bound⟩ := oldest
    have inside := (List.getElem?_eq_some_iff.mp found).1
    refine ⟨⟨e', by rw [List.getElem?_append_left inside, found], same, aged⟩, fun f member this => ?_⟩
    rcases List.mem_append.mp member with old | new
    · exact bound f old this
    · rw [List.mem_singleton.mp new] at this ⊢
      exact Nat.le_of_lt (other this)

theorem Oldest.take {kind : CacheEntry Packet → Bool} (oldest : Oldest kind l idx age) (this : kind e = true)
    (older : e.ctime ≥ age) : Oldest kind (l ++ [e]) (some l.length) e.ctime := by
  refine ⟨⟨e, List.getElem?_concat_length, this, rfl⟩, fun f member kindly => ?_⟩
  rcases List.mem_append.mp member with old | new
  · cases idx with
    | none =>
      have := oldest.1 f old
      rw [kindly] at this
      cases this
    | some j => exact Nat.le_trans (oldest.2 f old kindly) older
  · exact Nat.le_of_eq (congrArg CacheEntry.ctime (List.mem_singleton.mp new))

def CacheEntry.recyclable (queued : Bool) (e : CacheEntry Packet) : Bool :=
  e.state == .pending && (!e.q.isEmpty) == queued

/-- What the sweep knows of the entries it has passed. -/
structure Surveyed (l : List (CacheEntry Packet)) (c : Candidates) : Prop where
  empty : c.empty = l.findIdx? fun e => e.state == .empty
  stable : Oldest (fun e => e.state.resolved) l c.oldStable c.ageStable
  pending : Oldest (CacheEntry.recyclable false) l c.oldPending c.agePending
  queue : Oldest (CacheEntry.recyclable true) l c.oldQueue c.ageQueue

theorem Oldest.next {kind : CacheEntry Packet → Bool} (oldest : Oldest kind l idx age) (e : CacheEntry Packet) :
    Oldest kind (l ++ [e]) (if kind e = true ∧ e.ctime ≥ age then some l.length else idx)
      (if kind e = true ∧ e.ctime ≥ age then e.ctime else age) := by
  split
  · rename_i both
    exact oldest.take both.1 both.2
  · rename_i not_both
    exact oldest.skip fun this => Nat.not_le.mp fun older => not_both ⟨this, older⟩

theorem Candidates.note_eq (c : Candidates) (i : Nat) {e : CacheEntry Packet} (used : e.state ≠ .empty) :
    c.note i e = {
      empty := c.empty
      oldStable := if e.state.resolved = true ∧ e.ctime ≥ c.ageStable then some i else c.oldStable
      oldPending := if e.recyclable false = true ∧ e.ctime ≥ c.agePending then some i else c.oldPending
      oldQueue := if e.recyclable true = true ∧ e.ctime ≥ c.ageQueue then some i else c.oldQueue
      ageStable := if e.state.resolved = true ∧ e.ctime ≥ c.ageStable then e.ctime else c.ageStable
      agePending := if e.recyclable false = true ∧ e.ctime ≥ c.agePending then e.ctime else c.agePending
      ageQueue := if e.recyclable true = true ∧ e.ctime ≥ c.ageQueue then e.ctime else c.ageQueue } := by
  cases state : e.state with
  | empty => exact absurd state used
  | pending =>
    cases queue : e.q with
    | nil =>
      by_cases older : e.ctime ≥ c.agePending <;>
        simp [note, CacheEntry.recyclable, EtharpState.resolved, state, queue, older]
    | cons p rest =>
      by_cases older : e.ctime ≥ c.ageQueue <;>
        simp [note, CacheEntry.recyclable, EtharpState.resolved, state, queue, older]
  | stable | stableRerequesting1 | stableRerequesting2 =>
    by_cases older : e.ctime ≥ c.ageStable <;>
      simp [note, CacheEntry.recyclable, EtharpState.resolved, state, older]

theorem Surveyed.note {c : Candidates} (surveyed : Surveyed l c) {e : CacheEntry Packet} (used : e.state ≠ .empty) :
    Surveyed (l ++ [e]) (c.note l.length e) := by
  rw [c.note_eq l.length used]
  refine ⟨?_, surveyed.stable.next e, surveyed.pending.next e, surveyed.queue.next e⟩
  have last : [e].findIdx? (fun e => e.state == .empty) = none := by
    simp [List.findIdx?_cons, used]
  rw [List.findIdx?_append, last, ← surveyed.empty]
  exact (Option.or_none).symm

/-- An entry that is not in use counts for nothing but the first empty one. -/
theorem Surveyed.empty_entry {c : Candidates} (surveyed : Surveyed l c) {e : CacheEntry Packet} (unused : e.state = .empty) :
    Surveyed (l ++ [e]) (if c.empty = none then { c with empty := some l.length } else c) := by
  have stable : e.state.resolved = false := by rw [unused]; rfl
  have pending (queued : Bool) : e.recyclable queued = false := by rw [CacheEntry.recyclable, unused]; rfl
  have skipped {kind : CacheEntry Packet → Bool} {idx : Option Nat} {age : Nat} (other : kind e = false) (oldest : Oldest kind l idx age) :
      Oldest kind (l ++ [e]) idx age := oldest.skip fun this => by
    rw [other] at this
    cases this
  have first : (l ++ [e]).findIdx? (fun e => e.state == .empty) = c.empty.or (some l.length) := by
    rw [List.findIdx?_append, ← surveyed.empty]
    simp [List.findIdx?_cons, unused]
  cases known : c.empty with
  | none =>
    rw [known] at first
    exact ⟨first.symm, skipped stable surveyed.stable, skipped (pending false) surveyed.pending,
      skipped (pending true) surveyed.queue⟩
  | some j =>
    rw [known] at first
    rw [if_neg (Option.some_ne_none j)]
    exact ⟨known.trans first.symm, skipped stable surveyed.stable, skipped (pending false) surveyed.pending,
      skipped (pending true) surveyed.queue⟩

/-- What the sweep ends with: an entry in use with the address, or the survey of a table
that has none. -/
inductive Swept (ipaddr : UInt32) (table : List (CacheEntry Packet)) : Nat ⊕ Candidates → Prop where
  | found (here : table[i]? = some e) (used : e.state ≠ .empty) (same : e.ipaddr = ipaddr) :
      Swept ipaddr table (.inl i)
  | missed (surveyed : Surveyed table c) (absent : ∀ e ∈ table, e.state ≠ .empty → e.ipaddr ≠ ipaddr) :
      Swept ipaddr table (.inr c)

theorem sweep_swept (ipaddr : UInt32) (passed rest : List (CacheEntry Packet)) {c : Candidates}
    (surveyed : Surveyed passed c) (absent : ∀ e ∈ passed, e.state ≠ .empty → e.ipaddr ≠ ipaddr) :
    Swept ipaddr (passed ++ rest) (sweep ipaddr rest passed.length c) := by
  induction rest generalizing passed c with
  | nil =>
    rw [List.append_nil]
    exact .missed surveyed absent
  | cons e rest ih =>
    have onward {c' : Candidates} (next : Surveyed (passed ++ [e]) c') (other : e.state ≠ .empty → e.ipaddr ≠ ipaddr) :
        Swept ipaddr (passed ++ e :: rest) (sweep ipaddr rest (passed.length + 1) c') := by
      have later := ih (passed ++ [e]) next fun f member => by
        rcases List.mem_append.mp member with old | new
        · exact absent f old
        · rwa [List.mem_singleton.mp new]
      rwa [List.append_assoc, List.singleton_append, List.length_append, List.length_singleton] at later
    by_cases unused : e.state = .empty
    · have next := onward (surveyed.empty_entry unused) fun used => absurd unused used
      rw [sweep]
      by_cases known : c.empty = none
      · rw [if_pos ⟨known, unused⟩]
        rwa [if_pos known] at next
      · rw [if_neg fun both => known both.1, if_neg (not_not.mpr unused)]
        rwa [if_neg known] at next
    · rw [sweep, if_neg fun both => unused both.2, if_pos unused]
      by_cases same : ipaddr = e.ipaddr
      · rw [if_pos same]
        have here : (passed ++ e :: rest)[passed.length]? = some e := by
          rw [List.getElem?_append_right (Nat.le_refl _), Nat.sub_self]
          rfl
        exact .found here unused same.symm
      · rw [if_neg same]
        exact onward (surveyed.note unused) fun _ equal => same equal.symm

theorem Surveyed.initial : Surveyed ([] : List (CacheEntry Packet)) .initial where
  empty := rfl
  stable := ⟨fun _ member => absurd member List.not_mem_nil, rfl⟩
  pending := ⟨fun _ member => absurd member List.not_mem_nil, rfl⟩
  queue := ⟨fun _ member => absurd member List.not_mem_nil, rfl⟩

theorem swept (ipaddr : UInt32) (table : List (CacheEntry Packet)) :
    Swept ipaddr table (sweep ipaddr table 0 .initial) :=
  sweep_swept ipaddr [] table .initial fun _ member => absurd member List.not_mem_nil

/-- What recycling an entry destroys: nothing, a hardware address, a question, or a
question with packets that wait for the answer. -/
def CacheEntry.cost (e : CacheEntry Packet) : Nat :=
  match e.state with
  | .empty => 0
  | .stable | .stableRerequesting1 | .stableRerequesting2 => 1
  | .pending => if e.q.isEmpty then 2 else 3

theorem CacheEntry.cost_empty {e : CacheEntry Packet} : e.cost = 0 ↔ e.state = .empty := by
  unfold cost
  cases e.state with
  | pending => cases e.q.isEmpty <;> simp
  | _ => simp

theorem CacheEntry.cost_resolved {e : CacheEntry Packet} : e.cost = 1 ↔ e.state.resolved = true := by
  unfold cost
  cases e.state with
  | pending => cases e.q.isEmpty <;> simp [EtharpState.resolved]
  | _ => simp [EtharpState.resolved]

theorem CacheEntry.cost_recyclable {e : CacheEntry Packet} (queued : Bool) :
    e.cost = (if queued then 3 else 2) ↔ e.recyclable queued = true := by
  unfold cost recyclable
  cases e.state with
  | pending => cases e.q <;> cases queued <;> simp
  | _ => cases queued <;> simp

theorem CacheEntry.cost_le (e : CacheEntry Packet) : e.cost ≤ 3 := by
  unfold cost
  cases e.state with
  | pending => cases e.q.isEmpty <;> simp
  | _ => simp

/-- Entry `e` costs least, and is the oldest of those that cost as much. -/
structure Least (table : List (CacheEntry Packet)) (e : CacheEntry Packet) : Prop where
  cheapest : ∀ f ∈ table, e.cost ≤ f.cost
  oldest : e.state ≠ .empty → ∀ f ∈ table, f.cost = e.cost → f.ctime ≤ e.ctime

theorem Oldest.least {kind : CacheEntry Packet → Bool} {table : List (CacheEntry Packet)}
    (oldest : Oldest kind table (some i) age) (kindly : ∀ e : CacheEntry Packet, e.cost = k ↔ kind e = true)
    (dearer : ∀ f ∈ table, k ≤ f.cost) : ∃ e, table[i]? = some e ∧ e.cost = k ∧ Least table e := by
  obtain ⟨⟨e, here, this, rfl⟩, bound⟩ := oldest
  have cost := (kindly e).mpr this
  refine ⟨e, here, cost, fun f member => cost ▸ dearer f member, fun _ f member same => ?_⟩
  exact bound f member ((kindly f).mp (same.trans cost))

theorem Oldest.dearer {kind : CacheEntry Packet → Bool} {table : List (CacheEntry Packet)}
    (oldest : Oldest kind table none age) (kindly : ∀ e : CacheEntry Packet, e.cost = k ↔ kind e = true)
    (dearer : ∀ f ∈ table, k ≤ f.cost) : ∀ f ∈ table, k + 1 ≤ f.cost := by
  intro f member
  refine Nat.lt_of_le_of_ne (dearer f member) fun same => ?_
  have this := (kindly f).mp same.symm
  rw [oldest.1 f member] at this
  cases this

/-- The candidate that is chosen. -/
theorem Surveyed.choice {table : List (CacheEntry Packet)} {c : Candidates} (surveyed : Surveyed table c)
    (some_entry : table ≠ []) : ∃ i e, c.choice = some i ∧ table[i]? = some e ∧ Least table e ∧
      (c.empty.isSome = true ↔ e.state = .empty) := by
  have known := surveyed.empty
  cases empty : c.empty with
  | some i =>
    rw [empty] at known
    obtain ⟨inside, unused, _⟩ := List.findIdx?_eq_some_iff_getElem.mp known.symm
    have unused := beq_iff_eq.mp unused
    refine ⟨i, table[i], by rw [Candidates.choice, empty]; rfl, List.getElem?_eq_getElem inside, ⟨fun f _ => ?_, ?_⟩, ?_⟩
    · rw [CacheEntry.cost_empty.mpr unused]
      exact Nat.zero_le _
    · exact fun used => absurd unused used
    · exact iff_of_true rfl unused
  | none =>
    rw [empty] at known
    have used : ∀ f ∈ table, 1 ≤ f.cost := by
      intro f member
      refine Nat.one_le_iff_ne_zero.mpr fun zero => ?_
      have := List.findIdx?_eq_none_iff.mp known.symm f member
      rw [CacheEntry.cost_empty.mp zero] at this
      cases this
    have nonempty {e : CacheEntry Packet} {k : Nat} (cost : e.cost = k + 1) :
        (none : Option Nat).isSome = true ↔ e.state = .empty := by
      refine iff_of_false Bool.false_ne_true fun unused => ?_
      rw [CacheEntry.cost_empty.mpr unused] at cost
      cases cost
    have stable := surveyed.stable
    cases oldStable : c.oldStable with
    | some i =>
      rw [oldStable] at stable
      obtain ⟨e, here, cost, least⟩ := stable.least (fun _ => CacheEntry.cost_resolved) used
      exact ⟨i, e, by rw [Candidates.choice, empty, oldStable]; rfl, here, least, nonempty cost⟩
    | none =>
      rw [oldStable] at stable
      have unresolved := stable.dearer (fun _ => CacheEntry.cost_resolved) used
      have pending := surveyed.pending
      cases oldPending : c.oldPending with
      | some i =>
        rw [oldPending] at pending
        obtain ⟨e, here, cost, least⟩ := pending.least (fun _ => CacheEntry.cost_recyclable false) unresolved
        exact ⟨i, e, by rw [Candidates.choice, empty, oldStable, oldPending]; rfl, here, least, nonempty cost⟩
      | none =>
        rw [oldPending] at pending
        have waited := pending.dearer (fun _ => CacheEntry.cost_recyclable false) unresolved
        have queue := surveyed.queue
        cases oldQueue : c.oldQueue with
        | some i =>
          rw [oldQueue] at queue
          obtain ⟨e, here, cost, least⟩ := queue.least (fun _ => CacheEntry.cost_recyclable true) waited
          exact ⟨i, e, by rw [Candidates.choice, empty, oldStable, oldPending, oldQueue]; rfl, here, least,
            nonempty cost⟩
        | none =>
          rw [oldQueue] at queue
          have beyond := queue.dearer (fun _ => CacheEntry.cost_recyclable true) waited
          obtain ⟨f, rest, rfl⟩ := List.exists_cons_of_ne_nil some_entry
          have past : 3 + 1 ≤ f.cost := beyond f List.mem_cons_self
          have bound := f.cost_le
          omega

namespace ArpCache

/-- Entry `i` freed, and prepared for an address. -/
def recycle (s : ArpCache Packet) (i : Nat) (e : CacheEntry Packet) (ipaddr : UInt32) : ArpCache Packet :=
  { s.set i { e.free with ipaddr := ipaddr, ctime := 0 } with freed := s.freed ++ e.waiting }

/-- No packet waits at an entry that is not in use. -/
def Clean (s : ArpCache Packet) : Prop := ∀ e ∈ s.table, e.state = .empty → e.q = []

/-- The results of `etharp_find_entry`. -/
inductive Found (s : ArpCache Packet) (ipaddr : UInt32) (flag : FindFlag) : Option Nat × ArpCache Packet → Prop where
  | known (here : s.table[i]? = some e) (used : e.state ≠ .empty) (same : e.ipaddr = ipaddr) :
      Found s ipaddr flag (some i, s)
  | absent (only : flag = .findOnly) (none : ∀ e ∈ s.table, e.state ≠ .empty → e.ipaddr ≠ ipaddr) :
      Found s ipaddr flag (.none, s)
  | fresh (hard : flag = .tryHard) (here : s.table[i]? = some e) (least : Least s.table e)
      (none : ∀ f ∈ s.table, f.state ≠ .empty → f.ipaddr ≠ ipaddr) :
      Found s ipaddr flag (some i, s.recycle i e ipaddr)

theorem findEntry_found (s : ArpCache Packet) (ipaddr : UInt32) (flag : FindFlag) (clean : s.Clean) :
    Found s ipaddr flag (s.findEntry ipaddr flag) := by
  have nonempty : s.table ≠ [] := by
    rintro none
    have width := s.width
    rw [none] at width
    exact Nat.succ_ne_zero 9 width.symm
  have outcome := swept ipaddr s.table
  unfold findEntry
  generalize sweep ipaddr s.table 0 .initial = result at outcome
  cases outcome with
  | found here used same => exact .known here used same
  | @missed c surveyed absent =>
    cases flag with
    | findOnly => exact .absent rfl absent
    | tryHard =>
      obtain ⟨i, e, choice, here, least, empty⟩ := surveyed.choice nonempty
      have recycled := Found.fresh rfl here least absent
      simp only [choice, here]
      by_cases vacant : c.empty.isSome
      · have unused := empty.mp vacant
        have queue := clean e (List.mem_of_getElem? here) unused
        have same : e.free = e := by rw [CacheEntry.free, ← unused, ← queue]
        have waiting : e.waiting = [] := by rw [CacheEntry.waiting, queue]; rfl
        have nothing : s.recycle i e ipaddr = s.set i { e with ipaddr := ipaddr, ctime := 0 } := by
          rw [recycle, same, waiting, List.append_nil]
          rfl
        rw [if_pos vacant, ← nothing]
        exact recycled
      · rw [if_neg vacant]
        exact recycled

/-- An entry for 192.168.1.`last`. -/
def sampleEntry (state : EtharpState) (last : UInt8) (q : List Nat) (ctime : Nat) : CacheEntry Nat :=
  ⟨⟨state, 0, last.toUInt32 <<< 24 ||| 0x0001a8c0, [2, 0, 0, 0, 0, last]⟩, q, ctime⟩

/-- Every entry is in use, and packets wait at two of the pending ones. -/
def crowded : ArpCache Nat :=
  { create with
    table := [sampleEntry .pending 20 [1] 4, sampleEntry .stable 21 [] 30, sampleEntry .pending 22 [] 5,
      sampleEntry .stable 23 [] 280, sampleEntry .stableRerequesting1 24 [] 281, sampleEntry .pending 25 [2, 3] 1,
      sampleEntry .stable 26 [] 7, sampleEntry .stableRerequesting2 27 [] 299, sampleEntry .pending 28 [] 0,
      sampleEntry .stable 29 [] 0]
    width := rfl }

end ArpCache
end RemoteBoot.Net
