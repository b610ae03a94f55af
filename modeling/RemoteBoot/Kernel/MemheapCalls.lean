import RemoteBoot.Kernel.MemheapBlocks

/-! What the functions of a heap do to a heap that is in order. -/
namespace RemoteBoot.Kernel
open Linked
variable {m m' : Memory} {P : Pool} {h : Memheap} {bs fs s t u v : List Nat} {a b p new amount : Nat}

theorem path_search {fuel : Nat} {l : List Nat} {list : Nat}
    (path : Way (fun a => (m.items a).nextFree) (fun a => (m.items a).prevFree) a l list) (out : list ∉ l)
    (enough : l.length ≤ fuel) :
    m.search list amount fuel (m.items a).nextFree = some (l.find? fun p => decide (amount ≤ m.itemSize p)) := by
  induction l generalizing a fuel with
  | nil =>
    have last : (m.items a).nextFree = list := path.1
    rw [last]
    cases fuel <;> exact if_pos rfl
  | cons x l ih =>
    have first : (m.items a).nextFree = x := path.1.1
    cases fuel with
    | zero => cases enough
    | succ fuel =>
      have other : x ≠ list := fun same => out (same ▸ List.mem_cons_self)
      rw [first, Memory.search, if_neg other, List.find?_cons]
      by_cases fits : amount ≤ m.itemSize x
      · rw [if_pos fits, decide_eq_true fits]
      · rw [if_neg fits, decide_eq_false fits]
        exact ih path.2 (fun inside => out (List.mem_cons_of_mem _ inside)) (Nat.le_of_succ_le_succ enough)

theorem Chained.few (chained : Chained m P bs fs) : fs.length ≤ P.poolSize := by
  have few := (List.subperm_of_subset chained.frees.nodup chained.subset).length_le
  have balance := chained.balance
  unfold memheapSize at balance
  omega

/-- The loop over the free list ends, with the first block that is large enough. -/
theorem Chained.search_eq (chained : Chained m P bs fs) :
    m.search P.freeHeader amount P.poolSize (m.items P.freeHeader).nextFree =
      some (fs.find? fun p => decide (amount ≤ m.itemSize p)) :=
  path_search chained.frees.2 chained.frees.head_notMem chained.few

theorem Memory.payload_le (m : Memory) (a : Nat) : m.payload a ≤ m.itemSize a := by
  rw [payload]
  split
  · exact Nat.le_refl _
  · exact Nat.zero_le _

theorem Tiled.available_le (tiled : Tiled m P h bs fs) : h.availableSize + memheapSize ≤ P.poolSize := by
  have sized := tiled.sized
  rw [Sized, Nat.mul_succ] at sized
  omega

theorem Tiled.small (tiled : Tiled m P h bs fs) : h.availableSize < 2 ^ 32 :=
  Nat.lt_of_le_of_lt (Nat.le_of_add_right_le tiled.available_le) tiled.chained.small

theorem Tiled.le_available (tiled : Tiled m P h (u ++ p :: v) fs) (free : (m.items p).isUsed = false) :
    m.itemSize p ≤ h.availableSize := by
  have sized := tiled.sized
  have balance := tiled.chained.balance
  have others := List.sum_le_sum (l := u ++ v) fun a _ => m.payload_le a
  rw [Sized, sum_middle, Memory.payload_of_free free] at sized
  rw [sum_middle] at balance
  omega

/-- A block leaves the free list, and its own pointers are cleared. -/
theorem Chained.takeOut (chained : Chained m P bs (s ++ p :: t))
    (result : m' = (m.removeFree p).put p ({ · with nextFree := 0, prevFree := 0 })) :
    Chained m' P bs (s ++ t) ∧ Memory.Alike (P.headers bs) m m' ∧ Memory.Keeps (P.headers bs) m m' := by
  have inside : p ∈ bs := chained.subset (by simp)
  obtain ⟨cleared, alike⟩ := chained.removeFree.forget inside (notMem_rest chained.frees.nodup)
  rw [result]
  exact ⟨cleared, chained.removeFree_alike.trans alike, chained.removeFree_keeps.trans
    (Memory.put_keeps (block_mem (List.mem_cons_of_mem _ inside)))⟩

theorem Chained.markUsed (chained : Chained m P bs fs) (inside : p ∈ bs)
    (result : m' = m.put p fun item => { item with magic := item.magic ||| memheapUsed }) :
    Chained m' P bs fs ∧ Memory.Keeps (P.headers bs) m m' ∧ (m'.items p).isUsed = true ∧
      ∀ b ∈ P.headers bs, (m'.items b).next = (m.items b).next ∧
        (b ≠ p → (m'.items b).isUsed = (m.items b).isUsed) := by
  have here : p ∈ P.headers bs := block_mem (List.mem_cons_of_mem _ inside)
  subst result
  refine ⟨chained.mark inside (· ||| memheapUsed) ?_, Memory.put_keeps here, ?_, fun b at' => ⟨?_, fun other => ?_⟩⟩
  · have real := (chained.genuine p (List.mem_cons_of_mem _ inside)).1
    rw [MemheapItem.genuine] at real
    rw [genuine_or]
    exact real
  · rw [Memory.put_self]
    exact used_or _
  · rw [Memory.put_items chained.spread here at']
    split
    · rename_i same
      rw [same]
    · rfl
  · rw [Memory.put_items chained.spread here at', if_neg other]

/-- What a cut behind `p` makes of the blocks. -/
theorem Chained.breakDown_fields (chained : Chained m P (u ++ p :: v) fs) (low : p + memheapSize ≤ new)
    (high : new + memheapSize ≤ (m.items p).next) (result : m' = m.breakDown P.freeHeader p new) :
    (∀ b ∈ P.headers (u ++ p :: v), (m'.items b).next = (if b = p then new else (m.items b).next) ∧
      (m'.items b).isUsed = (m.items b).isUsed) ∧
    (m'.items new).next = (m.items p).next ∧ (m'.items new).isUsed = false := by
  have fresh := chained.new_notMem low high
  have items := fun {b} => chained.breakDown_items (b := b) low high
  have inside : p ∈ P.headers (u ++ p :: v) := block_mem (by simp)
  have other : new ≠ p := fun same => fresh (same ▸ inside)
  subst result
  refine ⟨fun b at' => ?_, ?_, ?_⟩
  · have apart : b ≠ new := fun same => fresh (same ▸ at')
    rw [MemheapItem.isUsed, items (List.mem_cons_of_mem _ at')]
    simp only [if_neg apart]
    exact ⟨trivial, rfl⟩
  · rw [items List.mem_cons_self]
    exact (if_neg other).trans (if_pos rfl)
  · rw [MemheapItem.isUsed, items List.mem_cons_self]
    simp only [if_true]
    decide

/-- A free block is taken as a whole. -/
theorem Formed.take_whole (formed : Formed m P h bs fs) (listed : p ∈ fs)
    (result : m' = ((m.removeFree p).put p ({ · with nextFree := 0, prevFree := 0 })).put p
      fun item => { item with magic := item.magic ||| memheapUsed }) :
    ∃ fs', Formed m' P (h.take (m.itemSize p)) bs fs' ∧
      (∀ b amount, Occupied m' bs b amount ↔ Occupied m bs b amount ∨ b = p ∧ amount = m.itemSize p) ∧
      Memory.Keeps (P.headers bs) m m' := by
  have inside := formed.chained.subset listed
  have free := (formed.listed p inside).mp listed
  obtain ⟨s, t, rfl⟩ := List.append_of_mem listed
  obtain ⟨taken, alike, keeps⟩ := formed.chained.takeOut rfl
  obtain ⟨chained, keeps', used, fields⟩ := taken.markUsed inside result
  have old : ∀ {y}, y ∈ bs → y ∈ P.headers bs := fun at' => Chained.block_mem (List.mem_cons_of_mem _ at')
  have next : ∀ {b}, b ∈ P.headers bs → (m'.items b).next = (m.items b).next := fun at' =>
    (fields _ at').1.trans (alike _ at').1
  have others : ∀ {b}, b ∈ P.headers bs → b ≠ p → (m'.items b).isUsed = (m.items b).isUsed := fun at' other =>
    ((fields _ at').2 other).trans (alike.used at')
  have size : ∀ {b}, b ∈ bs → m'.itemSize b = m.itemSize b := fun at' => size_of_same_next (next (old at'))
  have loads : (bs.map m'.payload).sum = m.itemSize p + (bs.map m.payload).sum := by
    obtain ⟨u, v, rfl⟩ := List.append_of_mem inside
    have load : ∀ y ∈ u ++ v, m'.payload y = m.payload y := fun y at' => by
      have here := mem_middle (x := p).mpr (.inr at')
      have other : y ≠ p := fun same => notMem_rest formed.chained.blocks.nodup (same ▸ at')
      rw [Memory.payload, Memory.payload, others (old here) other, size here]
    rw [sum_middle, sum_middle, List.map_congr_left load, Memory.payload_of_free free, Memory.payload_of_used used,
      size inside, Nat.zero_add]
  have enough : m.itemSize p ≤ h.availableSize := by
    obtain ⟨u, v, rfl⟩ := List.append_of_mem inside
    exact formed.le_available free
  have sized := formed.sized
  unfold Sized at sized
  obtain ⟨same, sized⟩ := sized_take (P := P) m' h bs _ formed.small enough (by omega)
  refine ⟨s ++ t, ⟨⟨take_toPool formed.place, chained, formed.aligned, ?_, sized, peak_take formed.peak
    formed.place formed.chained.small (Nat.le_of_add_right_le formed.available_le) same⟩, fun a at' => ?_,
    fun a at' => ?_⟩, fun b amount => ?_, keeps.trans keeps'⟩
  · have other : P.tail ≠ p := fun same => formed.chained.blocks.head_notMem (same ▸ inside)
    exact (others (Chained.block_mem List.mem_cons_self) other).trans formed.tailUsed
  · by_cases same : a = p
    · rw [same, used]
      exact ⟨fun early => absurd early (notMem_rest formed.chained.frees.nodup), fun no => by cases no⟩
    · rw [others (old at') same, ← formed.listed a at', mem_middle]
      exact (or_iff_right same).symm
  · rw [next (old at')]
    have before := formed.merged a at'
    by_cases same : a = p
    · exact .inl (same ▸ used)
    · by_cases behind : (m.items a).next = p
      · exact .inr (behind ▸ used)
      · rw [others (old at') same, others (formed.chained.next_mem (List.mem_cons_of_mem _ at')) behind]
        exact before
  · by_cases same : b = p
    · rw [same]
      constructor
      · rintro ⟨at', _, fits⟩
        exact .inr ⟨rfl, fits.symm.trans (size at')⟩
      · rintro (⟨_, still, _⟩ | ⟨_, fits⟩)
        · rw [free] at still
          cases still
        · exact ⟨inside, used, (size inside).trans fits.symm⟩
    · rw [or_iff_left fun both => same both.1]
      unfold Occupied
      refine and_congr_right fun at' => ?_
      rw [others (old at') same, size at']

/-- The front of a free block is taken, and the rest becomes a free block. -/
theorem Formed.take_front (formed : Formed m P h bs fs) (listed : p ∈ fs) (even : 4 ∣ amount)
    (fits : amount + memheapSize + memheapMinialloc ≤ m.itemSize p) (place : new = p + amount + memheapSize)
    {m1 : Memory} (first : m1 = m.breakDown P.freeHeader p new)
    (result : m' = ((((m1.removeFree p).put p ({ · with nextFree := 0, prevFree := 0 })).insertFree
      P.freeHeader new).put p fun item => { item with magic := item.magic ||| memheapUsed })) :
    ∃ bs' fs', Formed m' P (h.take (amount + memheapSize)) bs' fs' ∧
      (∀ b size, Occupied m' bs' b size ↔ Occupied m bs b size ∨ b = p ∧ size = amount) ∧
      Memory.Keeps (P.headers bs ++ P.headers bs') m m' := by
  have inside := formed.chained.subset listed
  have free := (formed.listed p inside).mp listed
  have ends := formed.chained.next_eq inside
  have low : p + memheapSize ≤ new := by omega
  have high : new + memheapSize ≤ (m.items p).next := by
    unfold memheapSize memheapMinialloc at *
    omega
  obtain ⟨u, v, rfl⟩ := List.append_of_mem inside
  obtain ⟨s, t, rfl⟩ := List.append_of_mem listed
  have fresh := formed.chained.new_notMem low high
  obtain ⟨cut, cutNext, cutFree⟩ := formed.chained.breakDown_fields low high first
  have broken := formed.chained.breakDown low high
  have keeps := formed.chained.breakDown_keeps low high
  rw [← first] at broken keeps
  have newIn : new ∈ u ++ p :: new :: v := by simp
  have more : u ++ p :: v ⊆ u ++ p :: new :: v :=
    (((List.sublist_cons_self new v).cons_cons p).append_left u).subset
  have old : ∀ {y}, y ∈ P.headers (u ++ p :: v) → y ∈ P.headers (u ++ p :: new :: v) ∧ y ≠ new :=
    fun at' => ⟨headers_subset more at', fun same => fresh (same ▸ at')⟩
  have head : ∀ {y}, y ∈ u ++ p :: v → y ∈ P.headers (u ++ p :: v) := fun at' =>
    Chained.block_mem (List.mem_cons_of_mem _ at')
  have headNew : new ∈ P.headers (u ++ p :: new :: v) := Chained.block_mem (List.mem_cons_of_mem _ newIn)
  obtain ⟨taken, alike, keeps1⟩ := broken.takeOut rfl
  have newOut : new ∉ s ++ t := fun at' => fresh (head (formed.chained.subset (mem_middle.mpr (.inr at'))))
  have listedAgain := taken.insertFree newIn newOut
  have alike := alike.trans (taken.insertFree_alike newIn newOut)
  obtain ⟨chained, keeps2, used, fields⟩ := listedAgain.markUsed (p := p) (by simp) result
  have next : ∀ {b}, b ∈ P.headers (u ++ p :: v) → b ≠ p → (m'.items b).next = (m.items b).next := by
    intro b at' other
    have here := (old at').1
    rw [(fields b here).1, (alike b here).1, (cut b at').1, if_neg other]
  have nextP : (m'.items p).next = new := by
    have here := (old (head inside)).1
    rw [(fields p here).1, (alike p here).1, (cut p (head inside)).1, if_pos rfl]
  have pNew : new ≠ p := fun same => (old (head inside)).2 same.symm
  have nextNew : (m'.items new).next = (m.items p).next := by
    rw [(fields new headNew).1, (alike new headNew).1, cutNext]
  have others : ∀ {b}, b ∈ P.headers (u ++ p :: v) → b ≠ p → (m'.items b).isUsed = (m.items b).isUsed := by
    intro b at' other
    have here := (old at').1
    rw [(fields b here).2 other, alike.used here, (cut b at').2]
  have freeNew : (m'.items new).isUsed = false := by
    rw [(fields new headNew).2 pNew, alike.used headNew, cutFree]
  have rest : ∀ y ∈ u ++ v, y ≠ p := fun y at' same => notMem_rest formed.chained.blocks.nodup (same ▸ at')
  have sizeP : m'.itemSize p = amount := chained.size_of_next (by simp) (by omega)
  have load : ∀ y ∈ u ++ v, m'.payload y = m.payload y := fun y at' => by
    have here := head (mem_middle.mpr (.inr at'))
    rw [Memory.payload, Memory.payload, others here (rest y at'), size_of_same_next (next here (rest y at'))]
  have loads : ((u ++ p :: new :: v).map m'.payload).sum = amount + ((u ++ p :: v).map m.payload).sum := by
    rw [sum_middle, sum_middle, sum_middle, List.map_congr_left load, Memory.payload_of_free free,
      Memory.payload_of_free freeNew, Memory.payload_of_used used, sizeP, Nat.zero_add]
  have count : (u ++ p :: new :: v).length = (u ++ p :: v).length + 1 := by
    rw [length_middle, length_middle, length_middle]
  have enough := formed.le_available free
  have sized := formed.sized
  unfold Sized at sized
  obtain ⟨same, sized⟩ := sized_take (P := P) m' h (u ++ p :: new :: v) (amount + memheapSize)
    formed.small (by omega) (by
      rw [loads, count, Nat.mul_succ]
      omega)
  have split : ∀ {a}, a ∈ u ++ p :: new :: v → a = p ∨ a = new ∨ a ∈ u ++ v :=
    fun at' => (mem_middle.mp at').imp_right mem_middle.mp
  refine ⟨u ++ p :: new :: v, new :: (s ++ t), ⟨⟨take_toPool formed.place, chained, ⟨formed.aligned.1,
    fun a at' => ?_⟩, ?_, sized, peak_take formed.peak formed.place formed.chained.small
    (Nat.le_of_add_right_le formed.available_le) same⟩, fun a at' => ?_, fun a at' => ?_⟩, fun b size => ?_, ?_⟩
  · rcases split at' with rfl | rfl | at'
    · exact formed.aligned.2 a inside
    · have before := formed.aligned.2 p inside
      have := formed.chained.start_le (List.mem_cons_of_mem _ inside)
      rw [place]
      unfold memheapSize
      omega
    · exact formed.aligned.2 a (mem_middle.mpr (.inr at'))
  · have other : P.tail ≠ p := fun same => formed.chained.blocks.head_notMem (same ▸ inside)
    exact (others (Chained.block_mem List.mem_cons_self) other).trans formed.tailUsed
  · rcases split at' with rfl | rfl | at'
    · rw [used]
      refine ⟨fun early => ?_, fun no => by cases no⟩
      rcases List.mem_cons.mp early with same | early
      · exact absurd same.symm pNew
      · exact absurd early (notMem_rest formed.chained.frees.nodup)
    · exact ⟨fun _ => freeNew, fun _ => List.mem_cons_self⟩
    · have here := mem_middle (x := p).mpr (.inr at')
      rw [others (head here) (rest a at'), ← formed.listed a here, mem_middle, List.mem_cons]
      have apart : a ≠ new := (old (head here)).2
      rw [or_iff_right apart, or_iff_right (rest a at')]
  · rcases split at' with rfl | rfl | at'
    · exact .inl used
    · right
      rw [nextNew, others (formed.chained.next_mem (List.mem_cons_of_mem _ inside)) fun same => by
        unfold memheapSize at *
        omega]
      have before := formed.merged p inside
      rw [free] at before
      exact before.resolve_left Bool.false_ne_true
    · have here := mem_middle (x := p).mpr (.inr at')
      rw [next (head here) (rest a at')]
      by_cases behind : (m.items a).next = p
      · exact .inr (behind ▸ used)
      · rw [others (head here) (rest a at'),
          others (formed.chained.next_mem (List.mem_cons_of_mem _ here)) behind]
        exact formed.merged a here
  · constructor
    · rintro ⟨at', still, same⟩
      rcases split at' with rfl | rfl | at'
      · exact .inr ⟨rfl, same.symm.trans sizeP⟩
      · rw [freeNew] at still
        cases still
      · have here := mem_middle (x := p).mpr (.inr at')
        rw [others (head here) (rest b at')] at still
        rw [size_of_same_next (next (head here) (rest b at'))] at same
        exact .inl ⟨here, still, same⟩
    · rintro (⟨at', still, same⟩ | ⟨rfl, rfl⟩)
      · rcases mem_middle.mp at' with rfl | later
        · rw [free] at still
          cases still
        · exact ⟨more at', (others (head at') (rest b later)).trans still,
            (size_of_same_next (next (head at') (rest b later))).trans same⟩
      · exact ⟨by simp, used, sizeP⟩
  · have wide : Memory.Keeps (P.headers (u ++ p :: new :: v)) m1 m' :=
      keeps1.trans ((taken.insertFree_keeps newIn).trans keeps2)
    refine (keeps.mono ?_).trans (wide.mono fun y at' => List.mem_append_right _ at')
    intro y at'
    rcases List.mem_cons.mp at' with rfl | at'
    · exact List.mem_append_right _ headNew
    · exact List.mem_append_left _ at'

/-- `rt_memheap_alloc` fails and changes nothing, or puts one more block in use. -/
theorem rtMemheapAlloc_spec (formed : Formed m P h bs fs) (request : Nat) :
    (rtMemheapAlloc m h request = some (m, h, 0) ∧
      (h.availableSize ≤ served request ∨ ∀ p ∈ fs, m.itemSize p < served request)) ∨
    ∃ m' h' p bs' fs', rtMemheapAlloc m h request = some (m', h', p + memheapSize) ∧
      served request < h.availableSize ∧ (p ∈ fs ∧ served request ≤ m.itemSize p) ∧
      Formed m' P h' bs' fs' ∧ served request ≤ m'.itemSize p ∧
      (∀ b amount, Occupied m' bs' b amount ↔ Occupied m bs b amount ∨ b = p ∧ amount = m'.itemSize p) ∧
      Memory.Keeps (P.headers bs ++ P.headers bs') m m' := by
  unfold rtMemheapAlloc
  generalize demand : served request = size
  have even : 4 ∣ size := demand ▸ served_dvd request
  by_cases room : size < h.availableSize
  · rw [if_pos room, formed.place, formed.chained.search_eq]
    cases found : fs.find? fun p => decide (size ≤ m.itemSize p) with
    | none =>
      refine .inl ⟨rfl, .inr fun p listed => ?_⟩
      have := List.find?_eq_none.mp found p listed
      simpa using this
    | some p =>
      right
      have listed := List.mem_of_find?_eq_some found
      have fits : size ≤ m.itemSize p := by simpa using List.find?_some found
      have inside := formed.chained.subset listed
      have ends := formed.chained.next_eq inside
      have high := (formed.chained.inside_pool (formed.chained.after inside).2.1).2
      have top := formed.chained.placed.high
      have small := formed.chained.small
      have bound := formed.available_le
      have sum : u32 (size + memheapSize + memheapMinialloc) = size + memheapSize + memheapMinialloc :=
        u32_eq (by
          unfold memheapSize memheapMinialloc at *
          omega)
      have ptr : u32 (p + memheapSize) = p + memheapSize := u32_eq (by
        unfold memheapSize at *
        omega)
      dsimp only
      by_cases large : m.itemSize p ≥ size + memheapSize + memheapMinialloc
      · have place : u32 (p + size + memheapSize) = p + size + memheapSize := u32_eq (by
          unfold memheapSize at *
          omega)
        rw [sum, if_pos large, place, ptr]
        obtain ⟨bs', fs', formed', same, keeps⟩ := formed.take_front listed even large rfl rfl rfl
        have exact : Memory.itemSize _ p = size := ((same p size).mpr (.inr ⟨rfl, rfl⟩)).2.2
        refine ⟨_, _, p, bs', fs', rfl, room, ⟨listed, fits⟩, formed', Nat.le_of_eq exact.symm, ?_, keeps⟩
        rw [exact]
        exact same
      · rw [sum, if_neg large, ptr]
        obtain ⟨fs', formed', same, keeps⟩ := formed.take_whole listed rfl
        have exact : Memory.itemSize _ p = m.itemSize p := ((same p _).mpr (.inr ⟨rfl, rfl⟩)).2.2
        refine ⟨_, _, p, bs, fs', rfl, room, ⟨listed, fits⟩, formed', exact.symm ▸ fits, ?_,
          keeps.mono (List.subset_append_left _ _)⟩
        rw [exact]
        exact same
  · rw [if_neg room]
    exact .inl ⟨rfl, .inl (Nat.not_lt.mp room)⟩

/-- The end of a block in use is cut off. -/
theorem Chained.cut (chained : Chained m P (u ++ p :: v) fs) (used : (m.items p).isUsed = true)
    (low : p + memheapSize ≤ new) (high : new + memheapSize ≤ (m.items p).next)
    (result : m' = m.breakDown P.freeHeader p new) (place : h.toPool = P)
    (aligned : 4 ∣ P.poolSize ∧ ∀ a ∈ u ++ p :: v, 4 ∣ a - P.startAddr) (even : 4 ∣ new - P.startAddr)
    (tailUsed : (m.items P.tail).isUsed = true)
    (listed : ∀ a ∈ u ++ p :: v, a ∈ fs ↔ (m.items a).isUsed = false)
    (merged : ∀ a ∈ u ++ p :: v, (m.items a).isUsed = true ∨ (m.items (m.items a).next).isUsed = true)
    (sized : h.availableSize + ((u ++ v).map m.payload).sum + (new - p) +
      memheapSize * ((u ++ p :: v).length + 1) = P.poolSize)
    (peak : P.poolSize ≤ h.availableSize + h.maxUsedSize ∧ h.maxUsedSize ≤ P.poolSize) :
    Loose m' P h (u ++ p :: new :: v) fs [new] new ∧ LeftUsed m' (u ++ p :: new :: v) new ∧
      (∀ b size, Occupied m' (u ++ p :: new :: v) b size ↔
        Occupied m (u ++ p :: v) b size ∧ b ≠ p ∨ b = p ∧ size = new - p - memheapSize) ∧
      Memory.Keeps (P.headers (u ++ p :: v) ++ P.headers (u ++ p :: new :: v)) m m' := by
  obtain ⟨fields, nextNew, freeNew⟩ := chained.breakDown_fields low high result
  have fresh := chained.new_notMem low high
  have inside : p ∈ u ++ p :: v := by simp
  have newIn : new ∈ u ++ p :: new :: v := by simp
  have broken := chained.breakDown low high
  have keeps := chained.breakDown_keeps low high
  rw [← result] at broken keeps
  have more : u ++ p :: v ⊆ u ++ p :: new :: v :=
    (((List.sublist_cons_self new v).cons_cons p).append_left u).subset
  have head : ∀ {y}, y ∈ u ++ p :: v → y ∈ P.headers (u ++ p :: v) := fun at' =>
    block_mem (List.mem_cons_of_mem _ at')
  have split : ∀ {a}, a ∈ u ++ p :: new :: v → a = p ∨ a = new ∨ a ∈ u ++ v :=
    fun at' => (mem_middle.mp at').imp_right mem_middle.mp
  have rest : ∀ y ∈ u ++ v, y ≠ p := fun y at' same => notMem_rest chained.blocks.nodup (same ▸ at')
  have next : ∀ {b}, b ∈ P.headers (u ++ p :: v) → b ≠ p → (m'.items b).next = (m.items b).next :=
    fun at' other => (fields _ at').1.trans (if_neg other)
  have nextP : (m'.items p).next = new := (fields p (head inside)).1.trans (if_pos rfl)
  have still := fun {b} (at' : b ∈ P.headers (u ++ p :: v)) => (fields b at').2
  have usedP : (m'.items p).isUsed = true := (still (head inside)).trans used
  have sizeP : m'.itemSize p = new - p - memheapSize := broken.size_of_next (by simp) (by omega)
  have load : ∀ y ∈ u ++ v, m'.payload y = m.payload y := fun y at' => by
    have here := head (mem_middle (x := p).mpr (.inr at'))
    rw [Memory.payload, Memory.payload, still here, size_of_same_next (next here (rest y at'))]
  have count : (u ++ p :: new :: v).length = (u ++ p :: v).length + 1 := by
    rw [length_middle, length_middle, length_middle]
  refine ⟨⟨⟨place, broken, ⟨aligned.1, fun a at' => ?_⟩, ?_, ?_, peak⟩, newIn, freeNew, ?_, ?_, ?_⟩, ?_, ?_, ?_⟩
  · rcases split at' with rfl | rfl | at'
    · exact aligned.2 a inside
    · exact even
    · exact aligned.2 a (mem_middle.mpr (.inr at'))
  · exact (still (block_mem List.mem_cons_self)).trans tailUsed
  · rw [Sized, count, Nat.mul_succ]
    rw [sum_middle, sum_middle, List.map_congr_left load, Memory.payload_of_free freeNew,
      Memory.payload_of_used usedP, sizeP]
    omega
  · intro a at' listed'
    rw [List.mem_singleton.mp at'] at listed'
    exact fresh (head (chained.subset listed'))
  · intro a at'
    rw [List.singleton_append, List.mem_cons]
    rcases split at' with rfl | rfl | at'
    · rw [still (head inside), ← listed a inside]
      exact or_iff_right fun same => fresh (same ▸ head inside)
    · exact ⟨fun _ => freeNew, fun _ => .inl rfl⟩
    · have here := mem_middle (x := p).mpr (.inr at')
      rw [still (head here), ← listed a here]
      exact or_iff_right fun same => fresh (same ▸ head here)
  · intro a at' other away
    rcases split at' with rfl | rfl | at'
    · exact .inl usedP
    · exact absurd rfl other
    · have here := mem_middle (x := p).mpr (.inr at')
      rw [next (head here) (rest a at'), still (head here), still (chained.next_mem (List.mem_cons_of_mem _ here))]
      exact merged a here
  · intro a at' there
    rcases split at' with rfl | rfl | at'
    · exact usedP
    · rw [nextNew] at there
      unfold memheapSize at *
      omega
    · have here := mem_middle (x := p).mpr (.inr at')
      rw [next (head here) (rest a at')] at there
      exact absurd (there ▸ chained.next_mem (List.mem_cons_of_mem _ here)) fresh
  · intro b size
    constructor
    · rintro ⟨at', inUse, same⟩
      rcases split at' with rfl | rfl | at'
      · exact .inr ⟨rfl, same.symm.trans sizeP⟩
      · rw [freeNew] at inUse
        cases inUse
      · have here := mem_middle (x := p).mpr (.inr at')
        rw [still (head here)] at inUse
        rw [size_of_same_next (next (head here) (rest b at'))] at same
        exact .inl ⟨⟨here, inUse, same⟩, rest b at'⟩
    · rintro (⟨⟨at', inUse, same⟩, other⟩ | ⟨rfl, rfl⟩)
      · exact ⟨more at', (still (head at')).trans inUse, (size_of_same_next (next (head at') other)).trans same⟩
      · exact ⟨by simp, usedP, sizeP⟩
  · refine keeps.mono fun y at' => ?_
    rcases List.mem_cons.mp at' with rfl | at'
    · exact List.mem_append_right _ (block_mem (List.mem_cons_of_mem _ newIn))
    · exact List.mem_append_left _ at'

/-- Extending a block in use into the free block behind it. -/
theorem growBlock_spec (formed : Formed m P h bs fs) (inside : p ∈ bs) (used : (m.items p).isUsed = true)
    (free : (m.items (m.items p).next).isUsed = false) (even : 4 ∣ amount) (more : m.itemSize p < amount)
    (room : amount + memheapMinialloc < m.itemSize (m.items p).next + m.itemSize p) :
    ∃ bs' fs', Formed (growBlock m h p amount).1 P (growBlock m h p amount).2 bs' fs' ∧
      (∀ b size, Occupied (growBlock m h p amount).1 bs' b size ↔
        Occupied m bs b size ∧ b ≠ p ∨ b = p ∧ size = amount) ∧
      Memory.Keeps (P.headers bs ++ P.headers bs') m (growBlock m h p amount).1 := by
  have chained := formed.chained
  have short : (m.items p).next ≠ P.tail := fun same => by
    have inUse := formed.tailUsed
    rw [← same, free] at inUse
    cases inUse
  obtain ⟨u, v, shape⟩ := chained.split_next inside short
  have ends := chained.next_eq inside
  have xIn : (m.items p).next ∈ bs := (List.mem_cons.mp (chained.after inside).2.1).resolve_left short
  have back := chained.next_of inside rfl
  have top := chained.placed.high
  have bound := (chained.inside_pool (chained.after xIn).2.1).2
  have listed := (formed.listed _ xIn).mpr free
  unfold growBlock
  generalize there : (m.items p).next = x at *
  have xEnds := chained.next_eq xIn
  obtain ⟨s, t, row⟩ := List.append_of_mem listed
  have shape' : bs = (u ++ [p]) ++ x :: v := by rw [shape, List.append_assoc, List.singleton_append]
  rw [shape', row] at chained
  have behind : (m.items x).prev ≠ P.tail := fun same =>
    formed.chained.blocks.head_notMem (same ▸ back.symm ▸ inside)
  obtain ⟨removed, joined, keeps⟩ := chained.removeBoth behind
  rw [← shape'] at joined keeps
  rw [List.append_assoc, List.singleton_append] at removed
  generalize first : (m.removeFree x).removeBlock x = m1 at removed joined keeps
  have head : ∀ {y}, y ∈ bs → y ∈ P.headers bs := fun at' => Chained.block_mem (List.mem_cons_of_mem _ at')
  have old : ∀ {y}, y ∈ u ++ p :: v → y ∈ bs ∧ y ≠ x := fun {y} at' => by
    have distinct := notMem_rest (shape' ▸ formed.chained.blocks.nodup)
    rw [List.append_assoc, List.singleton_append] at distinct
    refine ⟨?_, fun same => distinct (same ▸ at')⟩
    rw [shape', mem_middle, List.append_assoc, List.singleton_append]
    exact .inr at'
  have still := fun {b} (at' : b ∈ P.headers bs) => joined.used at'
  have onward : (m1.items p).next = (m.items x).next := (joined p (head inside)).1.trans (if_pos back.symm)
  have pLow := (formed.chained.after inside).1
  have next : ∀ {b}, b ∈ u ++ p :: v → b ≠ p → (m1.items b).next = (m.items b).next := fun at' other =>
    (joined _ (head (old at').1)).1.trans (if_neg (back.symm ▸ other))
  have place : u32 (p + memheapSize + amount) = p + memheapSize + amount := u32_eq (by
    unfold memheapSize memheapMinialloc at *
    omega)
  have oldSize : sub32 amount (m.itemSize p) = amount - m.itemSize p := by
    refine sub32_eq ?_ (Nat.le_of_lt more)
    unfold memheapSize memheapMinialloc at *
    omega
  have load : ∀ y ∈ u ++ v, m1.payload y = m.payload y := fun y at' => by
    have here := mem_middle (x := p).mpr (.inr at')
    have other : y ≠ p := fun same => notMem_rest removed.blocks.nodup (same ▸ at')
    rw [Memory.payload, Memory.payload, still (head (old here).1), size_of_same_next (next here other)]
  have loads : ((u ++ v).map m1.payload).sum + m.itemSize p = (bs.map m.payload).sum := by
    rw [shape, sum_middle, sum_middle, List.map_congr_left load, Memory.payload_of_free free,
      Memory.payload_of_used used, Nat.zero_add, Nat.add_comm]
  have count : bs.length = (u ++ p :: v).length + 1 := by
    rw [shape, length_middle, length_middle, length_middle]
  have enough : amount - m.itemSize p ≤ h.availableSize := by
    have := formed.toTiled
    rw [shape'] at this
    have := this.le_available free
    unfold memheapMinialloc at room
    omega
  have sized := formed.sized
  rw [Sized, count, Nat.mul_succ] at sized
  have same : (h.take (amount - m.itemSize p)).availableSize = h.availableSize - (amount - m.itemSize p) :=
    sub32_eq formed.small enough
  obtain ⟨loose, before, same', keeps'⟩ := removed.cut (h := h.take (amount - m.itemSize p))
    ((still (head inside)).trans used) (show p + memheapSize ≤ p + memheapSize + amount by omega) (by
      rw [onward]
      unfold memheapSize memheapMinialloc at *
      omega) rfl
    (take_toPool formed.place) ⟨formed.aligned.1, fun a at' => formed.aligned.2 a (old at').1⟩ (by
      have := formed.aligned.2 p inside
      have := formed.chained.start_le (List.mem_cons_of_mem _ inside)
      unfold memheapSize
      omega)
    ((still (Chained.block_mem List.mem_cons_self)).trans formed.tailUsed)
    (fun a at' => by
      rw [still (head (old at').1), ← formed.listed a (old at').1, row, mem_middle]
      exact (or_iff_right (old at').2).symm)
    (fun a at' => by
      by_cases other : a = p
      · exact .inl (other ▸ (still (head inside)).trans used)
      · rw [next at' other, still (head (old at').1),
          still (formed.chained.next_mem (List.mem_cons_of_mem _ (old at').1))]
        exact formed.merged a (old at').1)
    (by
      rw [same]
      unfold memheapSize memheapMinialloc at *
      omega)
    (peak_take formed.peak formed.place formed.chained.small (Nat.le_of_add_right_le formed.available_le) same)
  have after : ((m1.breakDown P.freeHeader p (p + memheapSize + amount)).items
      ((m1.breakDown P.freeHeader p (p + memheapSize + amount)).items (p + memheapSize + amount)).next).isUsed = true := by
    have reach := removed.next_mem (a := p) (by simp)
    rw [onward] at reach
    have low : p + memheapSize ≤ p + memheapSize + amount := by omega
    obtain ⟨fields, cutNext, _⟩ := removed.breakDown_fields low (by
      rw [onward]
      unfold memheapSize memheapMinialloc at *
      omega) rfl
    rw [cutNext, onward, (fields _ reach).2, still (formed.chained.next_mem (List.mem_cons_of_mem _ xIn))]
    have beside := formed.merged x xIn
    rw [free] at beside
    exact beside.resolve_left Bool.false_ne_true
  dsimp only
  rw [oldSize, place, first, take_toPool formed.place]
  obtain ⟨formed', last, keeps''⟩ := loose.insert before after
  refine ⟨_, _, formed', fun b size => (last b size).trans ((same' b size).trans (or_congr ?_ ?_)), ?_⟩
  · refine and_congr_left fun other => ?_
    constructor
    · rintro ⟨at', inUse, fits⟩
      rw [still (head (old at').1)] at inUse
      rw [size_of_same_next (next at' other)] at fits
      exact ⟨(old at').1, inUse, fits⟩
    · rintro ⟨at', inUse, fits⟩
      rw [shape', mem_middle, List.append_assoc, List.singleton_append] at at'
      rcases at' with rfl | at'
      · rw [free] at inUse
        cases inUse
      · exact ⟨at', (still (head (old at').1)).trans inUse, (size_of_same_next (next at' other)).trans fits⟩
  · rw [(by omega : p + memheapSize + amount - p - memheapSize = amount)]
  · have fewer : P.headers (u ++ p :: v) ⊆ P.headers bs := headers_subset fun y at' => (old at').1
    refine (keeps.mono (List.subset_append_left _ _)).trans ((keeps'.mono ?_).trans
      (keeps''.mono (List.subset_append_right _ _)))
    exact List.append_subset.mpr ⟨fun y at' => List.mem_append_left _ (fewer at'), List.subset_append_right _ _⟩

/-- Cutting the end off a block in use; a free block behind it takes the end in. -/
theorem shrinkBlock_spec (formed : Formed m P h bs fs) (inside : p ∈ bs) (used : (m.items p).isUsed = true)
    (even : 4 ∣ amount) (room : amount + memheapSize + memheapMinialloc < m.itemSize p) :
    ∃ bs' fs', Formed (shrinkBlock m h p amount).1 P (shrinkBlock m h p amount).2 bs' fs' ∧
      (∀ b size, Occupied (shrinkBlock m h p amount).1 bs' b size ↔
        Occupied m bs b size ∧ b ≠ p ∨ b = p ∧ size = amount) ∧
      Memory.Keeps (P.headers bs ++ P.headers bs') m (shrinkBlock m h p amount).1 := by
  have chained := formed.chained
  have ends := chained.next_eq inside
  have top := chained.placed.high
  have bound := (chained.inside_pool (chained.after inside).2.1).2
  have place : u32 (p + amount + memheapSize) = p + amount + memheapSize := u32_eq (by
    unfold memheapSize memheapMinialloc at *
    omega)
  unfold shrinkBlock
  dsimp only
  rw [place, formed.place]
  generalize here : p + amount + memheapSize = new at *
  have low : p + memheapSize ≤ new := by omega
  have high : new + memheapSize ≤ (m.items p).next := by
    unfold memheapSize memheapMinialloc at *
    omega
  obtain ⟨u, v, rfl⟩ := List.append_of_mem inside
  obtain ⟨fields, cutNext, _⟩ := chained.breakDown_fields low high rfl
  generalize first : m.breakDown P.freeHeader p new = m1 at *
  have sized := formed.sized
  rw [Sized, sum_middle, Memory.payload_of_used used] at sized
  have gain : h.availableSize + (m.itemSize p - amount - memheapSize) < 2 ^ 32 := by
    have := chained.small
    omega
  have same : (h.give (m.itemSize p - amount - memheapSize)).availableSize =
      h.availableSize + (m.itemSize p - amount - memheapSize) := u32_eq gain
  obtain ⟨loose, before, same', keeps⟩ := chained.cut (h := h.give (m.itemSize p - amount - memheapSize))
    used low high first.symm (give_toPool formed.place) formed.aligned (by
      have := formed.aligned.2 p inside
      have := chained.start_le (List.mem_cons_of_mem _ inside)
      rw [← here]
      unfold memheapSize
      omega) formed.tailUsed formed.listed formed.merged (by
      rw [same]
      unfold memheapSize memheapMinialloc at *
      omega) (peak_give formed.peak same)
  have newIn : new ∈ u ++ p :: new :: v := by simp
  obtain ⟨bs', fs', formed', newIn', onward, last, keeps'⟩ := loose.close before (.inr rfl) rfl rfl rfl
  rw [if_neg (List.cons_ne_nil _ _)] at formed' onward last keeps'
  have keep : (if (!(m1.items (m1.items new).next).isUsed) = true
      then h.lower (m1.itemSize (m1.items new).next) else h).toPool = P := by
    split
    · exact lower_toPool formed.place
    · exact formed.place
  rw [keep]
  generalize (if (!(m1.items (m1.items new).next).isUsed) = true
    then (m1.mergeRight new (m1.items new).next).removeFree (m1.items new).next
    else m1).insertFree P.freeHeader new = final at formed' onward last keeps' ⊢
  have ghost : (if (!(m1.items (m1.items new).next).isUsed) = true
        then h.lower (m1.itemSize (m1.items new).next) else h).give
          (final.itemSize new) = if (!(m1.items (m1.items new).next).isUsed) = true
            then (h.give (m.itemSize p - amount - memheapSize)).give memheapSize
            else h.give (m.itemSize p - amount - memheapSize) := by
    cases inUse : (m1.items (m1.items new).next).isUsed with
    | true =>
      simp only [inUse, Bool.not_true, Bool.false_eq_true, if_false] at onward ⊢
      have rest : (final.items new).next = new + memheapSize + (m.itemSize p - amount - memheapSize) := by
        unfold memheapSize memheapMinialloc at *
        omega
      rw [formed'.chained.size_of_next newIn' rest]
    | false =>
      simp only [inUse, Bool.not_false, if_true] at onward ⊢
      have short : (m1.items new).next ≠ P.tail := fun same => by
        have used := loose.tailUsed
        rw [← same, inUse] at used
        cases used
      have beyond := (List.mem_cons.mp (loose.chained.after loose.member).2.1).resolve_left short
      have far := loose.chained.next_eq beyond
      have rest : (final.items new).next = new + memheapSize + (m1.itemSize (m1.items new).next +
          (m.itemSize p - amount - memheapSize + memheapSize)) := by
        unfold memheapSize memheapMinialloc at *
        omega
      rw [formed'.chained.size_of_next newIn' rest]
      exact lower_give _ _ _ _
  refine ⟨bs', fs', ?_, fun b size => (last b size).trans ((same' b size).trans (or_congr Iff.rfl ?_)), ?_⟩
  · rw [ghost]
    exact formed'
  · rw [(by omega : new - p - memheapSize = amount)]
  · have cover : P.headers (u ++ p :: new :: v) ⊆ P.headers (u ++ p :: v) ++ P.headers bs' := by
      intro y at'
      by_cases same : y = new
      · exact List.mem_append_right _ (same ▸ Chained.block_mem (List.mem_cons_of_mem _ newIn'))
      · refine List.mem_append_left _ (headers_subset (fun z at' => at') ?_)
        simp only [Pool.headers, List.mem_cons, mem_middle, same, false_or] at at' ⊢
        exact at'
    exact (keeps.mono (List.append_subset.mpr ⟨List.subset_append_left _ _, cover⟩)).trans (keeps'.mono cover)

/-- `rt_memheap_init` puts the heap in order: one free block of the whole pool. -/
theorem rtMemheapInit_spec {freeHeader startAddr size : Nat} (placed : Pool.Placed ⟨startAddr, size / 4 * 4, freeHeader⟩)
    (result : (m', h) = rtMemheapInit m freeHeader startAddr size) :
    Formed m' ⟨startAddr, size / 4 * 4, freeHeader⟩ h [startAddr] [startAddr] ∧
      Memory.Keeps (Pool.headers ⟨startAddr, size / 4 * 4, freeHeader⟩ [startAddr]) m m' := by
  generalize shape : (⟨startAddr, size / 4 * 4, freeHeader⟩ : Pool) = P at *
  have startAt : P.startAddr = startAddr := by rw [← shape]
  have pool : P.poolSize = size / 4 * 4 := by rw [← shape]
  have list : P.freeHeader = freeHeader := by rw [← shape]
  have low := placed.low
  have high := placed.high
  have room := placed.room
  have clear := placed.apart
  have available : sub32 (size / 4 * 4) (2 * memheapSize) = P.poolSize - 2 * memheapSize := by
    rw [← pool]
    exact sub32_eq (by omega) room
  have tail : u32 (startAddr + (P.poolSize - 2 * memheapSize) + memheapSize) = P.tail := by
    unfold Pool.tail memheapSize at *
    rw [u32_eq] <;> omega
  unfold rtMemheapInit at result
  simp only [Prod.mk.injEq] at result
  rw [available, tail, ← startAt, ← list, ← pool] at result
  obtain ⟨made, object⟩ := result
  have tailAt : P.tail + memheapSize = P.startAddr + P.poolSize := by
    unfold Pool.tail memheapSize at *
    omega
  have startLow : P.startAddr + memheapSize ≤ P.tail := by
    unfold memheapSize at *
    omega
  have spread : Spread (P.headers [P.startAddr]) := by
    intro a first b second other
    simp only [Pool.headers, List.mem_cons, List.not_mem_nil, or_false] at first second
    unfold Apart
    rcases first with rfl | rfl | rfl <;> rcases second with rfl | rfl | rfl <;> omega
  have listIn : P.freeHeader ∈ P.headers [P.startAddr] := by simp [Pool.headers]
  have tailIn : P.tail ∈ P.headers [P.startAddr] := by simp [Pool.headers]
  have startIn : P.startAddr ∈ P.headers [P.startAddr] := by simp [Pool.headers]
  have startList : P.startAddr ≠ P.freeHeader := by
    unfold memheapSize at *
    omega
  have startTail : P.startAddr ≠ P.tail := by
    unfold memheapSize at *
    omega
  have listTail : P.freeHeader ≠ P.tail := by
    unfold memheapSize at *
    omega
  generalize one : (m.put P.freeHeader fun _ => ⟨memheapMagic, P.freeHeader, 0, 0, P.freeHeader, P.freeHeader⟩).put
    P.startAddr (fun _ => ⟨memheapMagic, P.freeHeader, P.tail, P.tail, P.startAddr, P.startAddr⟩) = m2 at made
  have header : m2.items P.freeHeader = ⟨memheapMagic, P.freeHeader, 0, 0, P.freeHeader, P.freeHeader⟩ := by
    rw [← one, Memory.put_items spread startIn listIn, if_neg (Ne.symm startList), Memory.put_self]
  have block : m2.items P.startAddr = ⟨memheapMagic, P.freeHeader, P.tail, P.tail, P.startAddr, P.startAddr⟩ := by
    rw [← one, Memory.put_self]
  have nextIn : (m2.items P.freeHeader).nextFree ∈ P.headers [P.startAddr] := by
    rw [header]
    exact listIn
  have inserted := fun {b} (at' : b ∈ P.headers [P.startAddr]) => Memory.insertFree_items (m := m2) spread listIn
    startIn nextIn startList (by rw [header]; exact Ne.symm startList) at'
  have keeps : Memory.Keeps (P.headers [P.startAddr]) m m' := by
    rw [made]
    refine Memory.Keeps.trans ?_ ((Memory.insertFree_keeps spread listIn startIn nextIn startList).trans
      (Memory.put_keeps tailIn))
    rw [← one]
    exact Memory.put_put_keeps listIn startIn
  have listEnd : m'.items P.freeHeader = ⟨memheapMagic, P.freeHeader, 0, 0, P.startAddr, P.startAddr⟩ := by
    rw [made, Memory.put_items spread tailIn listIn, if_neg listTail, inserted listIn, header]
    simp only [if_true]
  have startEnd : m'.items P.startAddr = ⟨memheapMagic, P.freeHeader, P.tail, P.tail, P.freeHeader, P.freeHeader⟩ := by
    rw [made, Memory.put_items spread tailIn startIn, if_neg startTail, inserted startIn, header, block]
    simp only [if_neg startList, if_true]
  have tailEnd : m'.items P.tail =
      ⟨memheapMagic ||| memheapUsed, P.freeHeader, P.startAddr, P.startAddr, 0, 0⟩ := by
    rw [made, Memory.put_self]
  have chained : Chained m' P [P.startAddr] [P.startAddr] := by
    refine ⟨placed, ⟨by simp [Ne.symm startTail], ?_⟩, ⟨by simp [Ne.symm startList], ?_⟩, ?_, rfl, fun _ => id, ?_⟩
    · simp only [Way, tailEnd, startEnd, and_self]
    · simp only [Way, listEnd, startEnd, and_self]
    · simp only [List.singleton_append, List.pairwise_cons, List.mem_singleton, forall_eq]
      exact ⟨startLow, by simp⟩
    · intro a at'
      simp only [List.mem_cons, List.not_mem_nil, or_false] at at'
      rcases at' with rfl | rfl
      · rw [tailEnd]
        exact ⟨by simp only [MemheapItem.genuine]; decide, rfl⟩
      · rw [startEnd]
        exact ⟨by simp only [MemheapItem.genuine]; decide, rfl⟩
  have free : (m'.items P.startAddr).isUsed = false := by
    rw [startEnd]
    simp only [MemheapItem.isUsed]
    decide
  have used : (m'.items P.tail).isUsed = true := by
    rw [tailEnd]
    simp only [MemheapItem.isUsed]
    decide
  have most : sub32 P.poolSize (P.poolSize - 2 * memheapSize) = 2 * memheapSize := by
    rw [sub32_eq (by omega) (by omega)]
    omega
  have counts : h.availableSize = P.poolSize - 2 * memheapSize ∧ h.maxUsedSize = 2 * memheapSize := by
    rw [object, most]
    exact ⟨rfl, rfl⟩
  rw [← startAt]
  refine ⟨⟨⟨?_, chained, ⟨pool ▸ Nat.dvd_mul_left _ _, ?_⟩, used, ?_, ?_⟩, ?_, ?_⟩, keeps⟩
  · rw [object]
  · intro a at'
    rw [List.mem_singleton.mp at', Nat.sub_self]
    exact Nat.dvd_zero _
  · simp only [Sized, List.map_cons, List.map_nil, List.sum_cons, List.sum_nil, Memory.payload_of_free free,
      List.length_singleton, counts.1]
    unfold memheapSize at *
    omega
  · omega
  · intro a at'
    rw [List.mem_singleton.mp at', free]
    simp
  · intro a at'
    rw [List.mem_singleton.mp at', startEnd]
    exact .inr used

end RemoteBoot.Kernel
