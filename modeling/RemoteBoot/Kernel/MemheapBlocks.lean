import RemoteBoot.Kernel.MemheapLists

/-! A heap that is in order, and what becomes of it when a block is taken, given back,
extended or cut. -/
namespace RemoteBoot.Kernel
open Linked

theorem u32_eq {n : Nat} (small : n < 2 ^ 32) : u32 n = n := Nat.mod_eq_of_lt small

theorem sub32_eq {a b : Nat} (small : a < 2 ^ 32) (less : b ≤ a) : sub32 a b = a - b := by
  rw [sub32, u32_eq (Nat.lt_of_le_of_lt less small), u32, (by omega : a + (2 ^ 32 - b) = a - b + 2 ^ 32),
    Nat.add_mod_right, Nat.mod_eq_of_lt (by omega)]

theorem u32_sub32_add (a b c d : Nat) : u32 (sub32 a b + (b + (c + d))) = u32 (u32 (a + c) + d) := by
  unfold sub32 u32
  omega

theorem genuine_or (magic : BitVec 32) : (magic ||| memheapUsed) &&& memheapMask = magic &&& memheapMask := by
  rw [BitVec.and_comm, BitVec.and_or_distrib_left, BitVec.and_comm]
  have : memheapMask &&& memheapUsed = 0#32 := by decide
  rw [this, BitVec.or_zero]

theorem genuine_and (magic : BitVec 32) : (magic &&& ~~~memheapUsed) &&& memheapMask = magic &&& memheapMask := by
  rw [BitVec.and_assoc]
  have : ~~~memheapUsed &&& memheapMask = memheapMask := by decide
  rw [this]

theorem served_dvd (request : Nat) : 4 ∣ served request := by
  unfold served rtAlign memheapMinialloc
  split
  · decide
  · exact Nat.dvd_mul_left _ _

/-- A request that the alignment does not turn over is served with at least its bytes. -/
theorem le_served {request : Nat} (small : request + 3 < 2 ^ 32) : request ≤ served request := by
  unfold served rtAlign u32
  rw [Nat.mod_eq_of_lt small]
  split <;> omega

theorem used_or (magic : BitVec 32) : ((magic ||| memheapUsed) &&& memheapUsed != 0#32) = true := by
  rw [BitVec.and_or_distrib_right, BitVec.and_self, bne_iff_ne]
  intro none
  have bit := congrArg (BitVec.getLsbD · 0) none
  simp [memheapUsed] at bit

theorem used_and (magic : BitVec 32) : ((magic &&& ~~~memheapUsed) &&& memheapUsed != 0#32) = false := by
  rw [BitVec.and_assoc]
  have : ~~~memheapUsed &&& memheapUsed = 0#32 := by decide
  rw [this, BitVec.and_zero]
  rfl

theorem sum_middle (f : Nat → Nat) (u : List Nat) (x : Nat) (v : List Nat) :
    ((u ++ x :: v).map f).sum = f x + ((u ++ v).map f).sum := by
  rw [List.map_append, List.map_append, List.map_cons, List.sum_append, List.sum_append, List.sum_cons]
  omega

theorem length_middle (u : List Nat) (x : Nat) (v : List Nat) : (u ++ x :: v).length = (u ++ v).length + 1 := by
  rw [List.length_append, List.length_append, List.length_cons, Nat.add_assoc]

/-- What a block holds of the bytes that are in use. -/
def Memory.payload (m : Memory) (a : Nat) : Nat := if (m.items a).isUsed = true then m.itemSize a else 0

/-- The bytes of the pool are available, in use or in headers. -/
def Sized (m : Memory) (P : Pool) (h : Memheap) (bs : List Nat) : Prop :=
  h.availableSize + (bs.map m.payload).sum + memheapSize * (bs.length + 1) = P.poolSize

structure Tiled (m : Memory) (P : Pool) (h : Memheap) (bs fs : List Nat) : Prop where
  place : h.toPool = P
  chained : Chained m P bs fs
  aligned : 4 ∣ P.poolSize ∧ ∀ a ∈ bs, 4 ∣ a - P.startAddr
  tailUsed : (m.items P.tail).isUsed = true
  sized : Sized m P h bs
  peak : P.poolSize ≤ h.availableSize + h.maxUsedSize ∧ h.maxUsedSize ≤ P.poolSize

/-- A heap between two calls: the free blocks are those of the free list, and none is the
neighbor of another one. -/
structure Formed (m : Memory) (P : Pool) (h : Memheap) (bs fs : List Nat) : Prop extends Tiled m P h bs fs where
  listed : ∀ a ∈ bs, a ∈ fs ↔ (m.items a).isUsed = false
  merged : ∀ a ∈ bs, (m.items a).isUsed = true ∨ (m.items (m.items a).next).isUsed = true

/-- A heap with one free block `z` that may have free neighbors yet; the blocks of `extra`
are not in the free list yet. -/
structure Loose (m : Memory) (P : Pool) (h : Memheap) (bs fs extra : List Nat) (z : Nat) : Prop
    extends Tiled m P h bs fs where
  member : z ∈ bs
  free : (m.items z).isUsed = false
  unlisted : ∀ a ∈ extra, a ∉ fs
  listed : ∀ a ∈ bs, a ∈ extra ++ fs ↔ (m.items a).isUsed = false
  merged : ∀ a ∈ bs, a ≠ z → (m.items a).next ≠ z →
    (m.items a).isUsed = true ∨ (m.items (m.items a).next).isUsed = true

/-- The block of `size` bytes at `a` is in use. -/
def Occupied (m : Memory) (bs : List Nat) (a size : Nat) : Prop :=
  a ∈ bs ∧ (m.items a).isUsed = true ∧ m.itemSize a = size

variable {m m' : Memory} {P : Pool} {h : Memheap} {S bs fs fs' extra u v s t : List Nat} {a b p x z new amount : Nat}

theorem Chained.next_eq (chained : Chained m P bs fs) (inside : p ∈ bs) :
    (m.items p).next = p + memheapSize + m.itemSize p := by
  obtain ⟨low, next, _⟩ := chained.after inside
  have high := (chained.inside_pool next).2
  have := chained.placed.high
  unfold memheapSize at *
  have inner : sub32 (m.items p).next p = (m.items p).next - p := sub32_eq (by omega) (by omega)
  rw [Memory.itemSize, inner, sub32_eq (by omega) (by unfold memheapSize; omega)]
  unfold memheapSize
  omega

theorem Chained.size_of_next (chained : Chained m P bs fs) (inside : p ∈ bs)
    (next : (m.items p).next = p + memheapSize + amount) : m.itemSize p = amount := by
  have := chained.next_eq inside
  omega

/-- The first block behind `p`, the last one apart. -/
theorem Chained.split_next (chained : Chained m P bs fs) (inside : p ∈ bs) (short : (m.items p).next ≠ P.tail) :
    ∃ u v, bs = u ++ p :: (m.items p).next :: v := by
  obtain ⟨u, v, rfl⟩ := List.append_of_mem inside
  have path := (path_append.mp chained.blocks.2).2
  cases v with
  | nil => exact absurd path.1 short
  | cons y v =>
    have next : (m.items p).next = y := path.1.1
    exact ⟨u, v, by rw [next]⟩

theorem path_span {next prev : Nat → Nat} {l : List Nat} (path : Way next prev a l b)
    (up : ∀ x ∈ a :: l, x ≤ next x) : a + ((a :: l).map fun x => next x - x).sum = b := by
  induction l generalizing a with
  | nil =>
    have := up a (by simp)
    have := path.1
    simp only [List.map_cons, List.map_nil, List.sum_cons, List.sum_nil]
    omega
  | cons x l ih =>
    have rest := ih path.2 fun y inside => up y (List.mem_cons_of_mem _ inside)
    have := up a (by simp)
    have := path.1.1
    rw [List.map_cons, List.sum_cons]
    omega

/-- The blocks fill the pool. -/
theorem Chained.span (chained : Chained m P bs fs) :
    (bs.map fun a => memheapSize + m.itemSize a).sum + memheapSize = P.poolSize := by
  have up : ∀ x ∈ bs, x ≤ (m.items x).next := fun x inside => by
    have := (chained.after inside).1
    omega
  have first := chained.first
  have whole := chained.tail_bound
  have gaps : (bs.map fun a => memheapSize + m.itemSize a) = bs.map fun a => (m.items a).next - a :=
    List.map_congr_left fun a inside => by
      have := chained.next_eq inside
      omega
  cases bs with
  | nil => cases first
  | cons c bs =>
    cases Option.some.inj first
    have span := path_span chained.blocks.2.2 up
    rw [gaps]
    omega

theorem Chained.balance (chained : Chained m P bs fs) :
    (bs.map m.itemSize).sum + memheapSize * (bs.length + 1) = P.poolSize := by
  have span := chained.span
  rw [List.sum_map_add, List.map_const', List.sum_replicate, smul_eq_mul] at span
  rw [Nat.mul_add, Nat.mul_comm]
  omega

theorem Chained.small (chained : Chained m P bs fs) : P.poolSize < 2 ^ 32 := by
  have := chained.placed.low
  have := chained.placed.high
  omega

theorem sized_give (m : Memory) (h : Memheap) (bs : List Nat) (n : Nat) (small : P.poolSize < 2 ^ 32)
    (whole : h.availableSize + n + (bs.map m.payload).sum + memheapSize * (bs.length + 1) = P.poolSize) :
    (h.give n).availableSize = h.availableSize + n ∧ Sized m P (h.give n) bs := by
  have same : (h.give n).availableSize = h.availableSize + n := u32_eq (by omega)
  refine ⟨same, ?_⟩
  rw [Sized, same]
  exact whole

theorem sized_take (m : Memory) (h : Memheap) (bs : List Nat) (n : Nat) (small : h.availableSize < 2 ^ 32) (enough : n ≤ h.availableSize)
    (whole : h.availableSize + (bs.map m.payload).sum + memheapSize * (bs.length + 1) = P.poolSize + n) :
    (h.take n).availableSize = h.availableSize - n ∧ Sized m P (h.take n) bs := by
  have same : (h.take n).availableSize = h.availableSize - n := sub32_eq small enough
  refine ⟨same, ?_⟩
  rw [Sized, same]
  omega

theorem peak_give {n : Nat} (peak : P.poolSize ≤ h.availableSize + h.maxUsedSize ∧ h.maxUsedSize ≤ P.poolSize)
    (same : (h.give n).availableSize = h.availableSize + n) :
    P.poolSize ≤ (h.give n).availableSize + (h.give n).maxUsedSize ∧ (h.give n).maxUsedSize ≤ P.poolSize := by
  have : (h.give n).maxUsedSize = h.maxUsedSize := rfl
  omega

theorem peak_take {n : Nat} (peak : P.poolSize ≤ h.availableSize + h.maxUsedSize ∧ h.maxUsedSize ≤ P.poolSize)
    (place : h.toPool = P) (small : P.poolSize < 2 ^ 32) (bound : h.availableSize ≤ P.poolSize)
    (same : (h.take n).availableSize = h.availableSize - n) :
    P.poolSize ≤ (h.take n).availableSize + (h.take n).maxUsedSize ∧ (h.take n).maxUsedSize ≤ P.poolSize := by
  have used : sub32 h.poolSize (h.availableSize - n) = P.poolSize - (h.availableSize - n) := by
    rw [place]
    exact sub32_eq small (by omega)
  have most : (h.take n).maxUsedSize = if sub32 h.poolSize (h.availableSize - n) > h.maxUsedSize
      then sub32 h.poolSize (h.availableSize - n) else h.maxUsedSize := by
    rw [← same]
    rfl
  rw [used] at most
  rw [most, same]
  split <;> omega

theorem lower_give (h : Memheap) (a c d : Nat) : (h.lower a).give (a + (c + d)) = (h.give c).give d := by
  have same := u32_sub32_add h.availableSize a c d
  show Memheap.mk h.toPool (u32 (sub32 h.availableSize a + (a + (c + d)))) h.maxUsedSize =
    Memheap.mk h.toPool (u32 (u32 (h.availableSize + c) + d)) h.maxUsedSize
  rw [same]

theorem give_toPool {n : Nat} (place : h.toPool = P) : (h.give n).toPool = P := place

theorem lower_toPool {n : Nat} (place : h.toPool = P) : (h.lower n).toPool = P := place

theorem take_toPool {n : Nat} (place : h.toPool = P) : (h.take n).toPool = P := place

theorem Memory.payload_of_used (used : (m.items a).isUsed = true) : m.payload a = m.itemSize a := if_pos used

theorem Memory.payload_of_free (free : (m.items a).isUsed = false) : m.payload a = 0 := by
  rw [payload, if_neg (by simp [free])]

theorem used_of_magic (same : (m'.items b).magic = (m.items b).magic) :
    (m'.items b).isUsed = (m.items b).isUsed := by
  rw [MemheapItem.isUsed, same, MemheapItem.isUsed]

theorem size_of_same_next (same : (m'.items b).next = (m.items b).next) : m'.itemSize b = m.itemSize b := by
  rw [Memory.itemSize, same, Memory.itemSize]

theorem Joined.used (joined : Joined S x m m') (inside : b ∈ S) : (m'.items b).isUsed = (m.items b).isUsed :=
  used_of_magic (joined b inside).2

theorem Joined.size (joined : Joined S x m m') (inside : b ∈ S) (other : b ≠ (m.items x).prev) :
    m'.itemSize b = m.itemSize b :=
  size_of_same_next ((joined b inside).1.trans (if_neg other))

/-- Two free neighbors become one block: a header less, and the blocks in use are what they were. -/
theorem Tiled.join (tiled : Tiled m P h (u ++ x :: v) fs) (free : (m.items x).isUsed = false)
    (before : (m.items (m.items x).prev).isUsed = false) (chained : Chained m' P (u ++ v) fs')
    (joined : Joined (P.headers (u ++ x :: v)) x m m') :
    Tiled m' P (h.give memheapSize) (u ++ v) fs' ∧
      ∀ b amount, Occupied m' (u ++ v) b amount ↔ Occupied m (u ++ x :: v) b amount := by
  have old : ∀ {y}, y ∈ u ++ v → y ∈ P.headers (u ++ x :: v) := fun inside =>
    Chained.block_mem (List.mem_cons_of_mem _ (mem_middle.mpr (.inr inside)))
  have kept : ∀ y ∈ u ++ v, (m.items y).isUsed = true → m'.itemSize y = m.itemSize y := by
    intro y inside used
    refine joined.size (old inside) ?_
    rintro rfl
    rw [before] at used
    cases used
  have load : ∀ y ∈ u ++ v, m'.payload y = m.payload y := by
    intro y inside
    rw [Memory.payload, Memory.payload, joined.used (old inside)]
    split
    · rename_i used
      exact kept y inside used
    · rfl
  have sized := tiled.sized
  have loads : ((u ++ v).map m'.payload).sum = ((u ++ x :: v).map m.payload).sum := by
    rw [sum_middle, List.map_congr_left load, Memory.payload_of_free free, Nat.zero_add]
  rw [Sized, length_middle, Nat.mul_succ] at sized
  obtain ⟨same, sized⟩ := sized_give m' h (u ++ v) memheapSize chained.small (by
    rw [loads]
    omega)
  refine ⟨⟨give_toPool tiled.place, chained, ⟨tiled.aligned.1, fun y inside => tiled.aligned.2 y (mem_middle.mpr (.inr inside))⟩, ?_,
    sized, peak_give tiled.peak same⟩, fun b amount => ?_⟩
  · exact (joined.used (Chained.block_mem List.mem_cons_self)).trans tiled.tailUsed
  · constructor
    · rintro ⟨inside, used, fits⟩
      rw [joined.used (old inside)] at used
      rw [kept b inside used] at fits
      exact ⟨mem_middle.mpr (.inr inside), used, fits⟩
    · rintro ⟨inside, used, fits⟩
      rcases mem_middle.mp inside with rfl | inside
      · rw [free] at used
        cases used
      · exact ⟨inside, (joined.used (old inside)).trans used, (kept b inside used).trans fits⟩

theorem Tiled.of_alike (tiled : Tiled m P h bs fs) (alike : Memory.Alike (P.headers bs) m m')
    (chained : Chained m' P bs fs') : Tiled m' P h bs fs' ∧
      ∀ b amount, Occupied m' bs b amount ↔ Occupied m bs b amount := by
  have old : ∀ {y}, y ∈ bs → y ∈ P.headers bs := fun inside => Chained.block_mem (List.mem_cons_of_mem _ inside)
  have load : ∀ y ∈ bs, m'.payload y = m.payload y := fun y inside => by
    rw [Memory.payload, Memory.payload, alike.used (old inside), alike.size (old inside)]
  refine ⟨⟨tiled.place, chained, tiled.aligned, ?_, ?_, tiled.peak⟩, fun b amount => ?_⟩
  · exact (alike.used (Chained.block_mem List.mem_cons_self)).trans tiled.tailUsed
  · rw [Sized, List.map_congr_left load]
    exact tiled.sized
  · unfold Occupied
    refine and_congr_right fun inside => ?_
    rw [alike.used (old inside), alike.size (old inside)]

theorem Chained.next_of (chained : Chained m P bs fs) (inside : a ∈ bs) (there : (m.items a).next = p) :
    (m.items p).prev = a := by
  rw [← there]
  exact (chained.blocks.next_mem (List.mem_cons_of_mem _ inside)).2

/-- A block is marked as free. -/
theorem Formed.mark_free (formed : Formed m P h bs fs) (inside : p ∈ bs) (used : (m.items p).isUsed = true)
    (marked : m' = m.put p fun item => { item with magic := item.magic &&& ~~~memheapUsed }) :
    Loose m' P (h.give (m'.itemSize p)) bs fs [p] p ∧
      (∀ b amount, Occupied m' bs b amount ↔ Occupied m bs b amount ∧ b ≠ p) ∧
      Memory.Keeps (P.headers bs) m m' := by
  have chained := formed.chained
  have old : ∀ {y}, y ∈ bs → y ∈ P.headers bs := fun inside => Chained.block_mem (List.mem_cons_of_mem _ inside)
  have items : ∀ {b}, b ∈ P.headers bs → m'.items b = if b = p then
      { m.items p with magic := (m.items p).magic &&& ~~~memheapUsed } else m.items b := fun at' => by
    rw [marked]
    exact Memory.put_items chained.spread (old inside) at'
  have next : ∀ {b}, b ∈ P.headers bs → (m'.items b).next = (m.items b).next := fun at' => by
    rw [items at']
    split
    · rename_i same
      rw [same]
    · rfl
  have others : ∀ {b}, b ∈ P.headers bs → b ≠ p → (m'.items b).isUsed = (m.items b).isUsed :=
    fun at' other => by rw [items at', if_neg other]
  have freed : (m'.items p).isUsed = false := by
    rw [items (old inside), if_pos rfl]
    exact used_and _
  have size : ∀ {b}, b ∈ P.headers bs → m'.itemSize b = m.itemSize b := fun at' => size_of_same_next (next at')
  have out : p ∉ fs := fun listed => by
    rw [(formed.listed p inside).mp listed] at used
    cases used
  have chained' : Chained m' P bs fs := by
    rw [marked]
    refine chained.mark inside (· &&& ~~~memheapUsed) ?_
    have real := (chained.genuine p (List.mem_cons_of_mem _ inside)).1
    rw [MemheapItem.genuine] at real
    rw [genuine_and]
    exact real
  have loads : m.itemSize p + (bs.map m'.payload).sum = (bs.map m.payload).sum := by
    obtain ⟨u, v, rfl⟩ := List.append_of_mem inside
    have load : ∀ y ∈ u ++ v, m'.payload y = m.payload y := fun y at' => by
      have here := old (mem_middle.mpr (.inr at'))
      have other : y ≠ p := by
        rintro rfl
        have distinct := List.nodup_append.mp chained.blocks.nodup
        rcases List.mem_append.mp at' with early | late
        · exact distinct.2.2 y early y List.mem_cons_self rfl
        · exact (List.nodup_cons.mp distinct.2.1).1 late
      rw [Memory.payload, Memory.payload, others here other, size here]
    rw [sum_middle, sum_middle, List.map_congr_left load, Memory.payload_of_free freed, Memory.payload_of_used used,
      Nat.zero_add]
  have sized := formed.sized
  unfold Sized at sized
  rw [size (old inside)]
  obtain ⟨same, sized⟩ := sized_give m' h bs (m.itemSize p) chained.small (by omega)
  refine ⟨⟨⟨give_toPool formed.place, chained', formed.aligned, ?_, sized, peak_give formed.peak same⟩, inside, freed,
    ?_, ?_, ?_⟩, fun b amount => ?_, ?_⟩
  · have other : P.tail ≠ p := fun same => chained.blocks.head_notMem (same ▸ inside)
    exact (others (Chained.block_mem List.mem_cons_self) other).trans formed.tailUsed
  · intro a at'
    rw [List.mem_singleton.mp at']
    exact out
  · intro a at'
    by_cases same : a = p
    · simp only [same, freed, List.singleton_append, List.mem_cons, true_or]
    · rw [others (old at') same, ← formed.listed a at', List.singleton_append, List.mem_cons]
      exact or_iff_right same
  · intro a at' other apart
    have before := next (old at')
    rw [before] at apart ⊢
    rw [others (old at') other, others (chained.next_mem (List.mem_cons_of_mem _ at')) apart]
    exact formed.merged a at'
  · constructor
    · rintro ⟨at', still, fits⟩
      have other : b ≠ p := by
        rintro rfl
        rw [freed] at still
        cases still
      rw [others (old at') other] at still
      rw [size (old at')] at fits
      exact ⟨⟨at', still, fits⟩, other⟩
    · rintro ⟨⟨at', still, fits⟩, other⟩
      exact ⟨at', (others (old at') other).trans still, (size (old at')).trans fits⟩
  · rw [marked]
    exact Memory.put_keeps (old inside)

theorem notMem_rest (distinct : (u ++ x :: v).Nodup) : x ∉ u ++ v := by
  have split := List.nodup_append.mp distinct
  intro inside
  rcases List.mem_append.mp inside with early | late
  · exact split.2.2 x early x List.mem_cons_self rfl
  · exact (List.nodup_cons.mp split.2.1).1 late

/-- Which blocks come before `z` in use. -/
def LeftUsed (m : Memory) (bs : List Nat) (z : Nat) : Prop :=
  ∀ a ∈ bs, (m.items a).next = z → (m.items a).isUsed = true

/-- The block just freed becomes part of a free left neighbor. -/
theorem Loose.left (loose : Loose m P h bs fs [p] p) (free : (m.items (m.items p).prev).isUsed = false) :
    ∃ bs', bs' ⊆ bs ∧ Loose (m.mergeLeft p) P (h.give memheapSize) bs' fs [] (m.items p).prev ∧
      LeftUsed (m.mergeLeft p) bs' (m.items p).prev ∧
      (∀ b amount, Occupied (m.mergeLeft p) bs' b amount ↔ Occupied m bs b amount) ∧
      Memory.Keeps (P.headers bs) m (m.mergeLeft p) := by
  have chained := loose.chained
  have inside : p ∈ P.tail :: bs := List.mem_cons_of_mem _ loose.member
  have out : p ∉ fs := loose.unlisted p List.mem_cons_self
  have behind : (m.items p).prev ≠ P.tail := fun same => by
    have used := loose.tailUsed
    rw [← same, free] at used
    cases used
  obtain ⟨prevIn, back⟩ := chained.blocks.prev_mem inside
  have prevIn : (m.items p).prev ∈ bs := (List.mem_cons.mp prevIn).resolve_left behind
  generalize there : (m.items p).prev = q at *
  have ordered := (chained.after prevIn).1
  have apart : q ≠ p := by
    rintro rfl
    unfold memheapSize at ordered
    omega
  obtain ⟨u, v, shape⟩ := List.append_of_mem loose.member
  subst shape
  obtain ⟨chained', joined, keeps⟩ := chained.mergeLeft out (there.symm ▸ behind)
  obtain ⟨tiled, same⟩ := loose.join loose.free (there.symm ▸ free) chained' joined
  have old : ∀ {y}, y ∈ u ++ v → y ∈ u ++ p :: v := fun at' => mem_middle.mpr (.inr at')
  have head : ∀ {y}, y ∈ u ++ p :: v → y ∈ P.headers (u ++ p :: v) := fun at' =>
    Chained.block_mem (List.mem_cons_of_mem _ at')
  have next : ∀ {a}, a ∈ u ++ v → a ≠ q → ((m.mergeLeft p).items a).next = (m.items a).next :=
    fun at' other => (joined _ (head (old at'))).1.trans (if_neg (there.symm ▸ other))
  have onward : ((m.mergeLeft p).items q).next = (m.items p).next :=
    (joined q (head prevIn)).1.trans (if_pos there.symm)
  have used := fun {b} (at' : b ∈ P.headers (u ++ p :: v)) => joined.used at'
  have pOut : p ∉ u ++ v := notMem_rest chained.blocks.nodup
  have single : ∀ {a}, a ∈ u ++ v → (m.items a).next = p → a = q := fun at' same =>
    (chained.next_of (old at') same).symm.trans there
  refine ⟨u ++ v, fun _ => old, ⟨tiled, (mem_middle.mp prevIn).resolve_left apart, (used (head prevIn)).trans free, ?_, ?_, ?_⟩,
    ?_, same, keeps⟩
  · intro a at'
    cases at'
  · intro a at'
    rw [used (head (old at')), ← loose.listed a (old at'), List.nil_append, List.singleton_append,
      List.mem_cons]
    exact (or_iff_right fun same : a = p => pOut (same ▸ at')).symm
  · intro a at' other before
    rw [next at' other] at before ⊢
    have ne : a ≠ p := fun same => pOut (same ▸ at')
    rw [used (head (old at')), used (chained.next_mem (List.mem_cons_of_mem _ (old at')))]
    exact loose.merged a (old at') ne fun same => other (single at' same)
  · intro a at' before
    by_cases same : a = q
    · rw [same, onward] at before
      have := (chained.after loose.member).1
      unfold memheapSize at *
      omega
    · rw [next at' same] at before
      rw [used (head (old at'))]
      have ne : a ≠ p := fun same => pOut (same ▸ at')
      have beside := loose.merged a (old at') ne (before.symm ▸ apart)
      rw [before, free] at beside
      exact beside.resolve_right Bool.false_ne_true

/-- A free right neighbor becomes part of the free block. -/
theorem Loose.right (loose : Loose m P h bs fs extra z) (before : LeftUsed m bs z) (sole : ∀ a ∈ extra, a = z)
    (there : (m.items z).next = x) (free : (m.items x).isUsed = false)
    (result : m' = (m.mergeRight z x).removeFree x) :
    ∃ bs' fs', bs' ⊆ bs ∧ Loose m' P (h.give memheapSize) bs' fs' extra z ∧ LeftUsed m' bs' z ∧
      (m'.items (m'.items z).next).isUsed = true ∧ (m'.items z).next = (m.items x).next ∧
      (∀ b amount, Occupied m' bs' b amount ↔ Occupied m bs b amount) ∧
      Memory.Keeps (P.headers bs) m m' := by
  have chained := loose.chained
  have short : x ≠ P.tail := fun same => by
    have used := loose.tailUsed
    rw [← same, free] at used
    cases used
  have zLow := (chained.after loose.member).1
  rw [there] at zLow
  have xIn : x ∈ bs := (List.mem_cons.mp (there ▸ (chained.after loose.member).2.1)).resolve_left short
  have back : (m.items x).prev = z := chained.next_of loose.member there
  have xLow := (chained.after xIn).1
  have apart : x ≠ z := by
    rintro rfl
    unfold memheapSize at zLow
    omega
  have listed : x ∈ fs := by
    rcases List.mem_append.mp ((loose.listed x xIn).mpr free) with early | late
    · exact absurd (sole x early) apart
    · exact late
  obtain ⟨u, v, shape⟩ := List.append_of_mem xIn
  obtain ⟨s, t, row⟩ := List.append_of_mem listed
  subst shape row
  have behind : (m.items x).prev ≠ P.tail := fun same =>
    chained.blocks.head_notMem (same ▸ back.symm ▸ loose.member)
  obtain ⟨chained', joined, keeps⟩ := chained.mergeRight behind
  rw [back, ← result] at chained' joined keeps
  obtain ⟨tiled, same⟩ := loose.join free (back.symm ▸ loose.free) chained' joined
  have old : ∀ {y}, y ∈ u ++ v → y ∈ u ++ x :: v := fun at' => mem_middle.mpr (.inr at')
  have head : ∀ {y}, y ∈ u ++ x :: v → y ∈ P.headers (u ++ x :: v) := fun at' =>
    Chained.block_mem (List.mem_cons_of_mem _ at')
  have next : ∀ {a}, a ∈ u ++ v → a ≠ z → (m'.items a).next = (m.items a).next :=
    fun at' other => (joined _ (head (old at'))).1.trans (if_neg (back.symm ▸ other))
  have onward : (m'.items z).next = (m.items x).next :=
    (joined z (head loose.member)).1.trans (if_pos back.symm)
  have used := fun {b} (at' : b ∈ P.headers (u ++ x :: v)) => joined.used at'
  have xOut : x ∉ u ++ v := notMem_rest chained.blocks.nodup
  have later : (m.items (m.items x).next).isUsed = true := by
    have ne : (m.items x).next ≠ z := by
      unfold memheapSize at *
      omega
    have beside := loose.merged x xIn apart ne
    rw [free] at beside
    exact beside.resolve_left Bool.false_ne_true
  refine ⟨u ++ v, s ++ t, fun _ => old, ⟨tiled, (mem_middle.mp loose.member).resolve_left (Ne.symm apart),
    (used (head loose.member)).trans loose.free, ?_, ?_, ?_⟩, ?_, ?_, onward, same, keeps⟩
  · intro a at' inside
    exact loose.unlisted a at' (mem_middle.mpr (.inr inside))
  · intro a at'
    rw [used (head (old at')), ← loose.listed a (old at')]
    refine List.mem_append.trans (Iff.trans (or_congr_right ?_) List.mem_append.symm)
    rw [mem_middle]
    exact (or_iff_right fun same : a = x => xOut (same ▸ at')).symm
  · intro a at' other away
    rw [next at' other] at away ⊢
    rw [used (head (old at')), used (chained.next_mem (List.mem_cons_of_mem _ (old at')))]
    exact loose.merged a (old at') other away
  · intro a at' here
    by_cases same : a = z
    · rw [same, onward] at here
      unfold memheapSize at *
      omega
    · rw [next at' same] at here
      rw [used (head (old at'))]
      exact before a (old at') here
  · rw [onward, used (chained.next_mem (List.mem_cons_of_mem _ xIn))]
    exact later

/-- With both neighbors in use, and the free list complete, the heap is in order. -/
theorem Loose.settle (loose : Loose m P h bs fs [] z) (before : LeftUsed m bs z)
    (after : (m.items (m.items z).next).isUsed = true) : Formed m P h bs fs := by
  refine ⟨loose.toTiled, loose.listed, fun a inside => ?_⟩
  by_cases same : a = z
  · exact .inr (same ▸ after)
  · by_cases next : (m.items a).next = z
    · exact .inl (before a inside next)
    · exact loose.merged a inside same next

/-- The same for a block that is not in the free list yet. -/
theorem Loose.insert (loose : Loose m P h bs fs [z] z) (before : LeftUsed m bs z)
    (after : (m.items (m.items z).next).isUsed = true) :
    Formed (m.insertFree P.freeHeader z) P h bs (z :: fs) ∧
      (∀ b amount, Occupied (m.insertFree P.freeHeader z) bs b amount ↔ Occupied m bs b amount) ∧
      Memory.Keeps (P.headers bs) m (m.insertFree P.freeHeader z) := by
  have chained := loose.chained
  have out : z ∉ fs := loose.unlisted z List.mem_cons_self
  have alike := chained.insertFree_alike loose.member out
  obtain ⟨tiled, same⟩ := loose.toTiled.of_alike alike (chained.insertFree loose.member out)
  have head : ∀ {y}, y ∈ bs → y ∈ P.headers bs := fun at' => Chained.block_mem (List.mem_cons_of_mem _ at')
  refine ⟨⟨tiled, fun a inside => ?_, fun a inside => ?_⟩, same, chained.insertFree_keeps loose.member⟩
  · rw [alike.used (head inside), ← loose.listed a inside]
    rfl
  · rw [(alike a (head inside)).1, alike.used (head inside),
      alike.used (chained.next_mem (List.mem_cons_of_mem _ inside))]
    by_cases same : a = z
    · exact .inr (same ▸ after)
    · by_cases next : (m.items a).next = z
      · exact .inl (before a inside next)
      · exact loose.merged a inside same next

theorem headers_subset (fewer : fs ⊆ bs) : P.headers fs ⊆ P.headers bs :=
  List.cons_subset_cons _ (List.cons_subset_cons _ fewer)

/-- The right neighbor is merged if it is free, and the free list completed if it must be. -/
theorem Loose.close (loose : Loose m P h bs fs extra z) (before : LeftUsed m bs z)
    (kind : extra = [] ∨ extra = [z]) {right : Bool}
    (test : right = !(m.items (m.items z).next).isUsed)
    (first : m' = if right then (m.mergeRight z (m.items z).next).removeFree (m.items z).next else m)
    {last : Memory} (final : last = if extra = [] then m' else m'.insertFree P.freeHeader z) :
    ∃ bs' fs', Formed last P (if right then h.give memheapSize else h) bs' fs' ∧ z ∈ bs' ∧
      (last.items z).next = (if right then (m.items (m.items z).next).next else (m.items z).next) ∧
      (∀ b amount, Occupied last bs' b amount ↔ Occupied m bs b amount) ∧
      Memory.Keeps (P.headers bs) m last := by
  have sole : ∀ a ∈ extra, a = z := by
    rcases kind with rfl | rfl <;> simp
  obtain ⟨bs', fs', fewer, loose', before', after', onward, same, keeps⟩ : ∃ bs' fs', bs' ⊆ bs ∧
      Loose m' P (if right then h.give memheapSize else h) bs' fs' extra z ∧ LeftUsed m' bs' z ∧
        (m'.items (m'.items z).next).isUsed = true ∧
        (m'.items z).next = (if right then (m.items (m.items z).next).next else (m.items z).next) ∧
        (∀ b amount, Occupied m' bs' b amount ↔ Occupied m bs b amount) ∧
        Memory.Keeps (P.headers bs) m m' := by
    cases right with
    | true =>
      have free : (m.items (m.items z).next).isUsed = false := by simpa using test.symm
      exact loose.right before sole rfl free first
    | false =>
      have used : (m.items (m.items z).next).isUsed = true := by simpa using test.symm
      rw [if_neg Bool.false_ne_true] at first
      subst first
      exact ⟨bs, fs, fun _ => id, loose, before, used, rfl, fun _ _ => Iff.rfl, .refl _ _⟩
  rcases kind with rfl | rfl
  · rw [if_pos rfl] at final
    subst final
    exact ⟨bs', fs', loose'.settle before' after', loose'.member, onward, same, keeps⟩
  · rw [if_neg (List.cons_ne_nil _ _)] at final
    obtain ⟨formed, same', keeps'⟩ := loose'.insert before' after'
    have out : z ∉ fs' := loose'.unlisted z List.mem_cons_self
    have still := loose'.chained.insertFree_alike loose'.member out z
      (Chained.block_mem (List.mem_cons_of_mem _ loose'.member))
    subst final
    exact ⟨bs', z :: fs', formed, loose'.member, still.1.trans onward,
      fun b amount => (same' b amount).trans (same b amount), keeps.trans (keeps'.mono (headers_subset fewer))⟩

/-- `rt_memheap_free` takes one block out of those in use. -/
theorem freeBlock_spec (formed : Formed m P h bs fs) (inside : p ∈ bs) (used : (m.items p).isUsed = true) :
    ∃ bs' fs', Formed (freeBlock m h p).1 P (freeBlock m h p).2 bs' fs' ∧
      (∀ b amount, Occupied (freeBlock m h p).1 bs' b amount ↔ Occupied m bs b amount ∧ b ≠ p) ∧
      Memory.Keeps (P.headers bs) m (freeBlock m h p).1 := by
  obtain ⟨loose, same, keeps⟩ := formed.mark_free inside used rfl
  unfold freeBlock
  generalize marked : (m.put p fun item => { item with magic := item.magic &&& ~~~memheapUsed }) = m1 at *
  dsimp only
  generalize test : (!(m1.items (m1.items p).prev).isUsed) = left
  cases left with
  | true =>
    have free : (m1.items (m1.items p).prev).isUsed = false := by simpa using test
    have member : p ∈ P.tail :: bs := List.mem_cons_of_mem _ inside
    have still := Memory.mergeLeft_prev loose.chained.spread (Chained.block_mem member) (loose.chained.next_mem member)
      (loose.chained.prev_mem member)
    simp only [if_true]
    rw [still]
    obtain ⟨bs1, fewer, loose', before, same', keeps'⟩ := loose.left free
    obtain ⟨bs', fs', formed', _, _, last, keeps''⟩ := loose'.close before (.inl rfl) rfl rfl rfl
    refine ⟨bs', fs', formed', fun b amount => (last b amount).trans ((same' b amount).trans (same b amount)), ?_⟩
    exact keeps.trans (keeps'.trans (keeps''.mono (headers_subset fewer)))
  | false =>
    have inUse : (m1.items (m1.items p).prev).isUsed = true := by simpa using test
    have before : LeftUsed m1 bs p := fun a at' there => by
      rw [loose.chained.next_of at' there] at inUse
      exact inUse
    obtain ⟨bs', fs', formed', _, _, last, keeps'⟩ := loose.close before (.inr rfl) rfl rfl rfl
    simp only [Bool.false_eq_true, if_false]
    rw [if_neg (List.cons_ne_nil _ _)] at formed' last keeps'
    rw [formed'.place]
    exact ⟨bs', fs', formed', fun b amount => (last b amount).trans (same b amount), keeps.trans keeps'⟩

end RemoteBoot.Kernel
