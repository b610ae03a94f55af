import RemoteBoot.Linked
import RemoteBoot.Kernel.Memheap

/-! The two lists of a heap and the stores that change them. Every pointer the code
follows is one of the headers of the heap, and these do not overlap, so a store through a
pointer changes one header and leaves the others as they are. -/
namespace RemoteBoot.Kernel
open Linked

def Apart (a b : Nat) : Prop := a + memheapSize ≤ b ∨ b + memheapSize ≤ a

def Spread (S : List Nat) : Prop := ∀ a ∈ S, ∀ b ∈ S, a ≠ b → Apart a b

/-- Nothing was stored but in headers at these addresses. -/
structure Memory.Keeps (S : List Nat) (m m' : Memory) : Prop where
  items : ∀ b, (∀ a ∈ S, Apart a b) → m'.items b = m.items b
  bytes : ∀ x, (∀ a ∈ S, x < a ∨ a + memheapSize ≤ x) → m'.bytes x = m.bytes x

/-- Nothing changed that says where blocks lie and which are in use. -/
def Memory.Alike (S : List Nat) (m m' : Memory) : Prop :=
  ∀ b ∈ S, (m'.items b).next = (m.items b).next ∧ (m'.items b).magic = (m.items b).magic

instance : Std.Symm Apart := ⟨fun _ _ apart => apart.symm⟩

namespace Memory
variable {m m' m'' : Memory} {S T : List Nat} {a b x p new list pool : Nat}
  {change : MemheapItem → MemheapItem}

theorem Keeps.refl (S : List Nat) (m : Memory) : Keeps S m m := ⟨fun _ _ => rfl, fun _ _ => rfl⟩

theorem Keeps.trans (first : Keeps S m m') (second : Keeps S m' m'') : Keeps S m m'' :=
  ⟨fun b clear => (second.items b clear).trans (first.items b clear),
    fun x clear => (second.bytes x clear).trans (first.bytes x clear)⟩

theorem Keeps.mono (keeps : Keeps S m m') (more : S ⊆ T) : Keeps T m m' :=
  ⟨fun b clear => keeps.items b fun a inside => clear a (more inside),
    fun x clear => keeps.bytes x fun a inside => clear a (more inside)⟩

theorem Alike.trans (first : Alike S m m') (second : Alike S m' m'') : Alike S m m'' := by
  intro b inside
  obtain ⟨way, kind⟩ := first b inside
  obtain ⟨way', kind'⟩ := second b inside
  exact ⟨way'.trans way, kind'.trans kind⟩

theorem Alike.mono (alike : Alike T m m') (fewer : S ⊆ T) : Alike S m m' :=
  fun b inside => alike b (fewer inside)

theorem Alike.used (alike : Alike S m m') (inside : b ∈ S) : (m'.items b).isUsed = (m.items b).isUsed := by
  rw [MemheapItem.isUsed, (alike b inside).2, MemheapItem.isUsed]

theorem Alike.size (alike : Alike S m m') (inside : b ∈ S) : m'.itemSize b = m.itemSize b := by
  rw [itemSize, (alike b inside).1, itemSize]

theorem put_self (m : Memory) (a : Nat) (change) : (m.put a change).items a = change (m.items a) :=
  if_pos rfl

theorem put_apart (apart : Apart a b) : (m.put a change).items b = m.items b := by
  have other : b ≠ a := by
    rintro rfl
    unfold Apart memheapSize at apart
    omega
  simp only [put, spoil, if_neg other]
  rw [if_neg]
  unfold Apart at apart
  omega

theorem put_items (spread : Spread S) (first : a ∈ S) (second : b ∈ S) :
    (m.put a change).items b = if b = a then change (m.items a) else m.items b := by
  split
  · rename_i same
    rw [same, put_self]
  · rename_i other
    exact put_apart (spread a first b second (Ne.symm other))

theorem put_keeps (inside : a ∈ S) : Keeps S m (m.put a change) := by
  refine ⟨fun b clear => put_apart (clear a inside), fun x clear => ?_⟩
  have := clear a inside
  simp only [put, spoil]
  rw [if_neg (by omega)]

/-! Each change of a list is stores to addresses known before the first of them. -/

theorem removeFree_eq (spread : Spread S) (here : x ∈ S) (next : (m.items x).nextFree ∈ S) :
    m.removeFree x = (m.put (m.items x).nextFree ({ · with prevFree := (m.items x).prevFree })).put
      (m.items x).prevFree ({ · with nextFree := (m.items x).nextFree }) := by
  unfold removeFree
  generalize there : (m.items x).nextFree = n at next ⊢
  generalize back : (m.items x).prevFree = q
  have still : ((m.put n ({ · with prevFree := q })).items x).prevFree = q ∧
      ((m.put n ({ · with prevFree := q })).items x).nextFree = n := by
    rw [put_items spread next here]
    split
    · rename_i same
      exact ⟨rfl, same ▸ there⟩
    · exact ⟨back, there⟩
  dsimp only at still ⊢
  rw [still.1, still.2]

theorem insertFree_eq (spread : Spread S) (first : list ∈ S) (here : x ∈ S) (other : x ≠ list) :
    m.insertFree list x =
      ((m.put x ({ · with nextFree := (m.items list).nextFree, prevFree := list })).put
        (m.items list).nextFree ({ · with prevFree := x })).put list ({ · with nextFree := x }) := by
  have still : ((m.put x ({ · with nextFree := (m.items list).nextFree, prevFree := list })).items list).nextFree =
      (m.items list).nextFree := by
    rw [put_items spread here first, if_neg (Ne.symm other)]
  dsimp only [insertFree] at still ⊢
  rw [still]

theorem breakDown_eq (spread : Spread S) (first : p ∈ S) (here : new ∈ S) (other : new ≠ p) :
    m.breakDown pool p new =
      (((m.put new ({ · with magic := memheapMagic, poolPtr := pool })).put new
        ({ · with prev := p, next := (m.items p).next })).put (m.items p).next ({ · with prev := new })).put p
          ({ · with next := new }) := by
  have still : ((m.put new ({ · with magic := memheapMagic, poolPtr := pool })).items p).next = (m.items p).next := by
    rw [put_items spread here first, if_neg (Ne.symm other)]
  have same : (((m.put new ({ · with magic := memheapMagic, poolPtr := pool })).put new
      ({ · with prev := p, next := (m.items p).next })).items p).next = (m.items p).next := by
    rw [put_items spread here first, if_neg (Ne.symm other), still]
  dsimp only [breakDown] at still same ⊢
  rw [still, same]

theorem removeBlock_eq (spread : Spread S) (here : x ∈ S) (next : (m.items x).next ∈ S) :
    m.removeBlock x = (m.put (m.items x).next ({ · with prev := (m.items x).prev })).put
      (m.items x).prev ({ · with next := (m.items x).next }) := by
  unfold removeBlock
  generalize there : (m.items x).next = n at next ⊢
  generalize back : (m.items x).prev = q
  have still : ((m.put n ({ · with prev := q })).items x).prev = q ∧
      ((m.put n ({ · with prev := q })).items x).next = n := by
    rw [put_items spread next here]
    split
    · rename_i same
      exact ⟨rfl, same ▸ there⟩
    · exact ⟨back, there⟩
  dsimp only at still ⊢
  rw [still.1, still.2]

theorem mergeLeft_eq (spread : Spread S) (here : x ∈ S) (prev : (m.items x).prev ∈ S) :
    m.mergeLeft x = (m.put (m.items x).prev ({ · with next := (m.items x).next })).put
      (m.items x).next ({ · with prev := (m.items x).prev }) := by
  unfold mergeLeft
  generalize there : (m.items x).next = n
  generalize back : (m.items x).prev = q at prev ⊢
  have still : ((m.put q ({ · with next := n })).items x).prev = q ∧
      ((m.put q ({ · with next := n })).items x).next = n := by
    rw [put_items spread prev here]
    split
    · rename_i same
      exact ⟨same ▸ back, rfl⟩
    · exact ⟨back, there⟩
  dsimp only at still ⊢
  rw [still.1, still.2]

theorem mergeRight_eq (spread : Spread S) (here : x ∈ S) (next : (m.items x).next ∈ S) :
    m.mergeRight p x = (m.put (m.items x).next ({ · with prev := p })).put p
      ({ · with next := (m.items x).next }) := by
  unfold mergeRight
  generalize there : (m.items x).next = n at next ⊢
  have still : ((m.put n ({ · with prev := p })).items x).next = n := by
    rw [put_items spread next here]
    split
    · rename_i same
      exact same ▸ there
    · exact there
  dsimp only at still ⊢
  rw [still]

/-! What the headers are then. -/

theorem removeFree_items (spread : Spread S) (here : x ∈ S) (next : (m.items x).nextFree ∈ S)
    (prev : (m.items x).prevFree ∈ S) (inside : b ∈ S) :
    (m.removeFree x).items b = { m.items b with
      prevFree := if b = (m.items x).nextFree then (m.items x).prevFree else (m.items b).prevFree
      nextFree := if b = (m.items x).prevFree then (m.items x).nextFree else (m.items b).nextFree } := by
  rw [removeFree_eq spread here next, put_items spread prev inside, put_items spread next inside,
    put_items spread next prev]
  generalize (m.items x).nextFree = n
  generalize (m.items x).prevFree = q
  apply MemheapItem.ext <;> split_ifs <;> simp_all

theorem insertFree_items (spread : Spread S) (first : list ∈ S) (here : x ∈ S)
    (next : (m.items list).nextFree ∈ S) (other : x ≠ list) (apart : (m.items list).nextFree ≠ x)
    (inside : b ∈ S) :
    (m.insertFree list x).items b = { m.items b with
      nextFree := if b = list then x else if b = x then (m.items list).nextFree else (m.items b).nextFree
      prevFree := if b = (m.items list).nextFree then x else if b = x then list else (m.items b).prevFree } := by
  rw [insertFree_eq spread first here other, put_items spread first inside, put_items spread next inside,
    put_items spread next first, put_items spread here inside, put_items spread here next,
    put_items spread here first]
  generalize (m.items list).nextFree = n at apart ⊢
  apply MemheapItem.ext <;> split_ifs <;> simp_all

theorem breakDown_items (spread : Spread S) (first : p ∈ S) (here : new ∈ S) (next : (m.items p).next ∈ S)
    (other : new ≠ p) (apart : (m.items p).next ≠ new) (inside : b ∈ S) :
    (m.breakDown pool p new).items b = { m.items b with
      magic := if b = new then memheapMagic else (m.items b).magic
      poolPtr := if b = new then pool else (m.items b).poolPtr
      next := if b = p then new else if b = new then (m.items p).next else (m.items b).next
      prev := if b = (m.items p).next then new else if b = new then p else (m.items b).prev } := by
  rw [breakDown_eq spread first here other, put_items spread first inside, put_items spread next inside,
    put_items spread next first, put_items spread here inside, put_items spread here next,
    put_items spread here first, put_items spread here inside, put_items spread here next,
    put_items spread here first, put_items spread here here]
  generalize (m.items p).next = n at apart ⊢
  apply MemheapItem.ext <;> split_ifs <;> simp_all

/-- The header at `b` once block `x` is out of the block list. -/
def without (m : Memory) (x b : Nat) : MemheapItem :=
  { m.items b with
    prev := if b = (m.items x).next then (m.items x).prev else (m.items b).prev
    next := if b = (m.items x).prev then (m.items x).next else (m.items b).next }

theorem removeBlock_items (spread : Spread S) (here : x ∈ S) (next : (m.items x).next ∈ S)
    (prev : (m.items x).prev ∈ S) (inside : b ∈ S) : (m.removeBlock x).items b = m.without x b := by
  rw [removeBlock_eq spread here next, put_items spread prev inside, put_items spread next inside,
    put_items spread next prev, without]
  generalize (m.items x).next = n
  generalize (m.items x).prev = q
  apply MemheapItem.ext <;> split_ifs <;> simp_all

theorem mergeLeft_items (spread : Spread S) (here : x ∈ S) (next : (m.items x).next ∈ S)
    (prev : (m.items x).prev ∈ S) (inside : b ∈ S) : (m.mergeLeft x).items b = m.without x b := by
  rw [mergeLeft_eq spread here prev, put_items spread next inside, put_items spread prev inside,
    put_items spread prev next, without]
  generalize (m.items x).next = n
  generalize (m.items x).prev = q
  apply MemheapItem.ext <;> split_ifs <;> simp_all

theorem mergeRight_items (spread : Spread S) (here : x ∈ S) (next : (m.items x).next ∈ S)
    (prev : (m.items x).prev ∈ S) (inside : b ∈ S) :
    (m.mergeRight (m.items x).prev x).items b = m.without x b := by
  rw [mergeRight_eq spread here next, put_items spread prev inside, put_items spread next inside,
    put_items spread next prev, without]
  generalize (m.items x).next = n
  generalize (m.items x).prev = q
  apply MemheapItem.ext <;> split_ifs <;> simp_all

/-! And where stores went. -/

theorem put_put_keeps {c : Nat} {later : MemheapItem → MemheapItem} (first : a ∈ S) (second : c ∈ S) :
    Keeps S m ((m.put a change).put c later) :=
  (put_keeps first).trans (put_keeps second)

theorem removeFree_keeps (spread : Spread S) (here : x ∈ S) (next : (m.items x).nextFree ∈ S)
    (prev : (m.items x).prevFree ∈ S) : Keeps S m (m.removeFree x) := by
  rw [removeFree_eq spread here next]
  exact put_put_keeps next prev

theorem insertFree_keeps (spread : Spread S) (first : list ∈ S) (here : x ∈ S)
    (next : (m.items list).nextFree ∈ S) (other : x ≠ list) : Keeps S m (m.insertFree list x) := by
  rw [insertFree_eq spread first here other]
  exact (put_put_keeps here next).trans (put_keeps first)

theorem breakDown_keeps (spread : Spread S) (first : p ∈ S) (here : new ∈ S) (next : (m.items p).next ∈ S)
    (other : new ≠ p) : Keeps S m (m.breakDown pool p new) := by
  rw [breakDown_eq spread first here other]
  exact (put_put_keeps here here).trans (put_put_keeps next first)

theorem removeBlock_keeps (spread : Spread S) (here : x ∈ S) (next : (m.items x).next ∈ S)
    (prev : (m.items x).prev ∈ S) : Keeps S m (m.removeBlock x) := by
  rw [removeBlock_eq spread here next]
  exact put_put_keeps next prev

theorem mergeLeft_prev (spread : Spread S) (here : x ∈ S) (next : (m.items x).next ∈ S)
    (prev : (m.items x).prev ∈ S) : ((m.mergeLeft x).items x).prev = (m.items x).prev := by
  rw [mergeLeft_eq spread here prev, put_items spread next here]
  split
  · rfl
  · rw [put_items spread prev here]
    split
    · rename_i same
      exact congrArg (fun y => (m.items y).prev) same.symm
    · rfl

theorem mergeLeft_keeps (spread : Spread S) (here : x ∈ S) (next : (m.items x).next ∈ S)
    (prev : (m.items x).prev ∈ S) : Keeps S m (m.mergeLeft x) := by
  rw [mergeLeft_eq spread here prev]
  exact put_put_keeps prev next

theorem mergeRight_keeps (spread : Spread S) (first : p ∈ S) (here : x ∈ S) (next : (m.items x).next ∈ S) :
    Keeps S m (m.mergeRight p x) := by
  rw [mergeRight_eq spread here next]
  exact put_put_keeps next first

end Memory

/-- Where the block of length 0 at the end of the pool lies. -/
def Pool.tail (P : Pool) : Nat := P.startAddr + P.poolSize - memheapSize

structure Pool.Placed (P : Pool) : Prop where
  low : 0 < P.startAddr
  high : P.startAddr + P.poolSize ≤ 2 ^ 32
  room : 2 * memheapSize ≤ P.poolSize
  apart : P.freeHeader + memheapSize ≤ P.startAddr ∨ P.startAddr + P.poolSize ≤ P.freeHeader

/-- The block list visits `bs` in the order of their addresses, the free list `fs`. -/
structure Chained (m : Memory) (P : Pool) (bs fs : List Nat) : Prop where
  placed : P.Placed
  blocks : Circuit (fun a => (m.items a).next) (fun a => (m.items a).prev) P.tail bs
  frees : Circuit (fun a => (m.items a).nextFree) (fun a => (m.items a).prevFree) P.freeHeader fs
  order : (bs ++ [P.tail]).Pairwise fun a b => a + memheapSize ≤ b
  first : bs.head? = some P.startAddr
  subset : fs ⊆ bs
  genuine : ∀ a ∈ P.tail :: bs, (m.items a).genuine = true ∧ (m.items a).poolPtr = P.freeHeader

/-- The block `x` is part of the block before it, and nothing else changed in the block list. -/
def Joined (S : List Nat) (x : Nat) (m m' : Memory) : Prop :=
  ∀ b ∈ S, (m'.items b).next = (if b = (m.items x).prev then (m.items x).next else (m.items b).next) ∧
    (m'.items b).magic = (m.items b).magic

def Pool.headers (P : Pool) (bs : List Nat) : List Nat := P.freeHeader :: P.tail :: bs

namespace Chained
variable {m m' : Memory} {P : Pool} {bs fs fs' u v s t : List Nat} {a b p x new : Nat}

theorem below_tail (chained : Chained m P bs fs) (inside : a ∈ bs) : a + memheapSize ≤ P.tail :=
  (List.pairwise_append.mp chained.order).2.2 a inside _ (List.mem_singleton_self _)

theorem tail_bound (chained : Chained m P bs fs) : P.tail + memheapSize = P.startAddr + P.poolSize := by
  have := chained.placed.room
  unfold Pool.tail memheapSize at *
  omega

theorem start_le (chained : Chained m P bs fs) (inside : a ∈ P.tail :: bs) : P.startAddr ≤ a := by
  rcases List.mem_cons.mp inside with rfl | inside
  · have := chained.tail_bound
    have := chained.placed.room
    unfold memheapSize at *
    omega
  · have order := chained.order
    have first := chained.first
    cases bs with
    | nil => cases inside
    | cons c bs =>
      cases Option.some.inj first
      rcases List.mem_cons.mp inside with same | later
      · exact Nat.le_of_eq same.symm
      · have := (List.pairwise_cons.mp order).1 a (by simp [later])
        unfold memheapSize at this
        omega

theorem inside_pool (chained : Chained m P bs fs) (inside : a ∈ P.tail :: bs) :
    P.startAddr ≤ a ∧ a + memheapSize ≤ P.startAddr + P.poolSize := by
  refine ⟨chained.start_le inside, ?_⟩
  rw [← chained.tail_bound]
  rcases List.mem_cons.mp inside with rfl | inside
  · exact Nat.le_refl _
  · exact Nat.le_add_right_of_le (chained.below_tail inside)

theorem apart_of_blocks (chained : Chained m P bs fs) (first : a ∈ P.tail :: bs) (second : b ∈ P.tail :: bs)
    (other : a ≠ b) : Apart a b := by
  have pairs : (bs ++ [P.tail]).Pairwise Apart := chained.order.imp Or.inl
  exact pairs.forall (by simpa [or_comm] using first) (by simpa [or_comm] using second) other

theorem apart_of_inside (chained : Chained m P bs fs) (low : P.startAddr ≤ a)
    (high : a + memheapSize ≤ P.startAddr + P.poolSize) : Apart P.freeHeader a := by
  have := chained.placed.apart
  unfold Apart
  omega

theorem spread (chained : Chained m P bs fs) : Spread (P.headers bs) := by
  intro a first b second other
  rcases List.mem_cons.mp first with rfl | first <;> rcases List.mem_cons.mp second with rfl | second
  · exact absurd rfl other
  · obtain ⟨low, high⟩ := chained.inside_pool second
    exact chained.apart_of_inside low high
  · obtain ⟨low, high⟩ := chained.inside_pool first
    exact (chained.apart_of_inside low high).symm
  · exact chained.apart_of_blocks first second other

theorem ne_freeHeader (chained : Chained m P bs fs) (inside : a ∈ P.tail :: bs) : a ≠ P.freeHeader := by
  rintro rfl
  have := chained.apart_of_inside (chained.inside_pool inside).1 (chained.inside_pool inside).2
  unfold Apart memheapSize at this
  omega

/-- The block behind `p` is the next one in the order of addresses. -/
theorem after (chained : Chained m P bs fs) (inside : p ∈ bs) :
    p + memheapSize ≤ (m.items p).next ∧ (m.items p).next ∈ P.tail :: bs ∧
      ∀ b ∈ P.tail :: bs, b ≤ p ∨ (m.items p).next ≤ b := by
  obtain ⟨u, v, rfl⟩ := List.append_of_mem inside
  have path := (path_append.mp chained.blocks.2).2
  have order := chained.order
  rw [List.append_assoc, List.cons_append] at order
  obtain ⟨early, late, across⟩ := List.pairwise_append.mp order
  have before : ∀ b ∈ u, b ≤ p := fun b here => by
    have := across b here p List.mem_cons_self
    omega
  cases v with
  | nil =>
    have next : (m.items p).next = P.tail := path.1
    rw [next]
    refine ⟨chained.below_tail inside, List.mem_cons_self, fun b here => ?_⟩
    rcases List.mem_cons.mp here with rfl | here
    · exact .inr (Nat.le_refl _)
    · rcases List.mem_append.mp here with here | here
      · exact .inl (before b here)
      · exact .inl (Nat.le_of_eq (List.mem_singleton.mp here))
  | cons y v =>
    have next : (m.items p).next = y := path.1.1
    obtain ⟨close, later⟩ := List.pairwise_cons.mp late
    rw [next]
    refine ⟨close y (by simp), by simp, fun b here => ?_⟩
    have behind : ∀ b ∈ v ++ [P.tail], y ≤ b := fun b here => by
      have := (List.pairwise_cons.mp later).1 b here
      omega
    simp only [List.mem_cons, List.mem_append] at here
    rcases here with rfl | here | rfl | rfl | here
    · exact .inr (behind _ (by simp))
    · exact .inl (before b here)
    · exact .inl (Nat.le_refl _)
    · exact .inr (Nat.le_refl _)
    · exact .inr (behind b (by simp [here]))

theorem block_mem (inside : a ∈ P.tail :: bs) : a ∈ P.headers bs := List.mem_cons_of_mem _ inside

theorem next_mem (chained : Chained m P bs fs) (inside : a ∈ P.tail :: bs) :
    (m.items a).next ∈ P.headers bs := block_mem (chained.blocks.next_mem inside).1

theorem prev_mem (chained : Chained m P bs fs) (inside : a ∈ P.tail :: bs) :
    (m.items a).prev ∈ P.headers bs := block_mem (chained.blocks.prev_mem inside).1

theorem listed_mem (chained : Chained m P bs fs) (inside : a ∈ P.freeHeader :: fs) : a ∈ P.headers bs := by
  rcases List.mem_cons.mp inside with rfl | inside
  · exact List.mem_cons_self
  · exact block_mem (List.mem_cons_of_mem _ (chained.subset inside))

theorem nextFree_mem (chained : Chained m P bs fs) (inside : a ∈ P.freeHeader :: fs) :
    (m.items a).nextFree ∈ P.headers bs := chained.listed_mem (chained.frees.next_mem inside).1

theorem prevFree_mem (chained : Chained m P bs fs) (inside : a ∈ P.freeHeader :: fs) :
    (m.items a).prevFree ∈ P.headers bs := chained.listed_mem (chained.frees.prev_mem inside).1

/-- Stores that leave the block list as it is. -/
theorem of_alike (chained : Chained m P bs fs) (alike : Memory.Alike (P.headers bs) m m')
    (back : ∀ b ∈ P.headers bs, (m'.items b).prev = (m.items b).prev ∧ (m'.items b).poolPtr = (m.items b).poolPtr)
    (frees : Circuit (fun a => (m'.items a).nextFree) (fun a => (m'.items a).prevFree) P.freeHeader fs')
    (subset : fs' ⊆ bs) : Chained m' P bs fs' where
  placed := chained.placed
  blocks := chained.blocks.congr (fun y inside => (alike y (block_mem inside)).1)
    (fun y inside => (back y (block_mem inside)).1)
  frees := frees
  order := chained.order
  first := chained.first
  subset := subset
  genuine := by
    intro a inside
    obtain ⟨real, owner⟩ := chained.genuine a inside
    rw [MemheapItem.genuine, (alike a (block_mem inside)).2, (back a (block_mem inside)).2]
    exact ⟨real, owner⟩

theorem removeFree_alike (chained : Chained m P bs (u ++ x :: v)) :
    Memory.Alike (P.headers bs) m (m.removeFree x) := by
  have here : x ∈ P.freeHeader :: (u ++ x :: v) := by simp
  intro b inside
  rw [Memory.removeFree_items chained.spread (chained.listed_mem here) (chained.nextFree_mem here)
    (chained.prevFree_mem here) inside]
  exact ⟨rfl, rfl⟩

theorem removeFree_keeps (chained : Chained m P bs (u ++ x :: v)) :
    Memory.Keeps (P.headers bs) m (m.removeFree x) := by
  have here : x ∈ P.freeHeader :: (u ++ x :: v) := by simp
  exact Memory.removeFree_keeps chained.spread (chained.listed_mem here) (chained.nextFree_mem here)
    (chained.prevFree_mem here)

theorem removeFree (chained : Chained m P bs (u ++ x :: v)) : Chained (m.removeFree x) P bs (u ++ v) := by
  have here : x ∈ P.freeHeader :: (u ++ x :: v) := by simp
  have items := fun {b} (inside : b ∈ P.headers bs) => Memory.removeFree_items (m := m) chained.spread
    (chained.listed_mem here) (chained.nextFree_mem here) (chained.prevFree_mem here) inside
  have fewer : ∀ y ∈ P.freeHeader :: (u ++ v), y ∈ P.headers bs := by
    intro y inside
    apply chained.listed_mem
    simp only [List.mem_cons, List.mem_append] at inside ⊢
    tauto
  refine chained.of_alike chained.removeFree_alike ?_ (chained.frees.remove ?_ ?_ ?_ ?_) ?_
  · intro b inside
    rw [items inside]
    exact ⟨rfl, rfl⟩
  · rw [items (chained.prevFree_mem here)]
    exact if_pos rfl
  · rw [items (chained.nextFree_mem here)]
    exact if_pos rfl
  · intro y inside other
    rw [items (fewer y inside)]
    exact if_neg other
  · intro y inside other
    rw [items (fewer y inside)]
    exact if_neg other
  · intro y inside
    apply chained.subset
    simp only [List.mem_cons, List.mem_append] at inside ⊢
    tauto

/-- A store to the free list pointers of a block that is not in the free list. -/
theorem forget (chained : Chained m P bs fs) (inside : x ∈ bs) (out : x ∉ fs) :
    Chained (m.put x ({ · with nextFree := 0, prevFree := 0 })) P bs fs ∧
      Memory.Alike (P.headers bs) m (m.put x ({ · with nextFree := 0, prevFree := 0 })) := by
  have here : x ∈ P.tail :: bs := List.mem_cons_of_mem _ inside
  have items : ∀ {b}, b ∈ P.headers bs → (m.put x ({ · with nextFree := 0, prevFree := 0 })).items b =
      if b = x then { m.items x with nextFree := 0, prevFree := 0 } else m.items b :=
    fun at' => Memory.put_items chained.spread (block_mem here) at'
  have other := chained.ne_freeHeader here
  have fields : ∀ b ∈ P.headers bs, ∀ {β : Type} (field : MemheapItem → β),
      (∀ item : MemheapItem, field { item with nextFree := 0, prevFree := 0 } = field item) →
        field ((m.put x ({ · with nextFree := 0, prevFree := 0 })).items b) = field (m.items b) := by
    intro b at' β field same
    rw [items at']
    split
    · rename_i there
      rw [there, same]
    · rfl
  have alike : Memory.Alike (P.headers bs) m (m.put x ({ · with nextFree := 0, prevFree := 0 })) :=
    fun b at' => ⟨fields b at' (·.next) fun _ => rfl, fields b at' (·.magic) fun _ => rfl⟩
  have unlisted : ∀ y ∈ P.freeHeader :: fs, y ≠ x := by
    rintro y at' rfl
    rcases List.mem_cons.mp at' with same | at'
    · exact other same
    · exact out at'
  refine ⟨chained.of_alike alike ?_ (chained.frees.congr ?_ ?_) chained.subset, alike⟩
  · exact fun b at' => ⟨fields b at' (·.prev) fun _ => rfl, fields b at' (·.poolPtr) fun _ => rfl⟩
  · intro y at'
    rw [items (chained.listed_mem at'), if_neg (unlisted y at')]
  · intro y at'
    rw [items (chained.listed_mem at'), if_neg (unlisted y at')]

theorem insertFree_items (chained : Chained m P bs fs) (inside : x ∈ bs) (out : x ∉ fs)
    (here : b ∈ P.headers bs) :
    (m.insertFree P.freeHeader x).items b = { m.items b with
      nextFree := if b = P.freeHeader then x else if b = x then (m.items P.freeHeader).nextFree
        else (m.items b).nextFree
      prevFree := if b = (m.items P.freeHeader).nextFree then x else if b = x then P.freeHeader
        else (m.items b).prevFree } := by
  have block : x ∈ P.tail :: bs := List.mem_cons_of_mem _ inside
  have head : P.freeHeader ∈ P.freeHeader :: fs := List.mem_cons_self
  have other := chained.ne_freeHeader block
  refine Memory.insertFree_items chained.spread (chained.listed_mem head) (block_mem block)
    (chained.nextFree_mem head) other ?_ here
  intro same
  have := (chained.frees.next_mem head).1
  rw [same] at this
  exact (List.mem_cons.mp this).elim other out

theorem insertFree_alike (chained : Chained m P bs fs) (inside : x ∈ bs) (out : x ∉ fs) :
    Memory.Alike (P.headers bs) m (m.insertFree P.freeHeader x) := by
  intro b here
  rw [chained.insertFree_items inside out here]
  exact ⟨rfl, rfl⟩

theorem insertFree_keeps (chained : Chained m P bs fs) (inside : x ∈ bs) :
    Memory.Keeps (P.headers bs) m (m.insertFree P.freeHeader x) := by
  have block : x ∈ P.tail :: bs := List.mem_cons_of_mem _ inside
  have head : P.freeHeader ∈ P.freeHeader :: fs := List.mem_cons_self
  exact Memory.insertFree_keeps chained.spread (chained.listed_mem head) (block_mem block)
    (chained.nextFree_mem head) (chained.ne_freeHeader block)

theorem insertFree (chained : Chained m P bs fs) (inside : x ∈ bs) (out : x ∉ fs) :
    Chained (m.insertFree P.freeHeader x) P bs (x :: fs) := by
  have block : x ∈ P.tail :: bs := List.mem_cons_of_mem _ inside
  have head : P.freeHeader ∈ P.freeHeader :: fs := List.mem_cons_self
  have items := fun {b} => chained.insertFree_items (b := b) inside out
  have other := chained.ne_freeHeader block
  have fresh : x ∉ P.freeHeader :: fs := fun at' => (List.mem_cons.mp at').elim other out
  have first := chained.frees.next_mem head
  refine chained.of_alike (chained.insertFree_alike inside out) ?_
    (chained.frees.insert_first fresh ?_ ?_ ?_ ?_ ?_ ?_) ?_
  · intro b here
    rw [items here]
    exact ⟨rfl, rfl⟩
  · rw [items (chained.listed_mem head)]
    exact if_pos rfl
  · rw [items (block_mem block)]
    exact (if_neg fun same : x = (m.items P.freeHeader).nextFree => fresh (same ▸ first.1)).trans (if_pos rfl)
  · rw [items (block_mem block)]
    exact (if_neg other).trans (if_pos rfl)
  · rw [items (chained.nextFree_mem head)]
    exact if_pos rfl
  · intro y at'
    rw [items (chained.listed_mem (List.mem_cons_of_mem _ at'))]
    exact (if_neg fun same : y = P.freeHeader => chained.frees.head_notMem (same ▸ at')).trans
      (if_neg fun same : y = x => out (same ▸ at'))
  · intro y at' later
    rw [items (chained.listed_mem at')]
    exact (if_neg later).trans (if_neg fun same : y = x => fresh (same ▸ at'))
  · intro y at'
    rcases List.mem_cons.mp at' with rfl | at'
    · exact inside
    · exact chained.subset at'

/-- A store to the magic number of a block that keeps it genuine. -/
theorem mark (chained : Chained m P bs fs) (inside : x ∈ bs) (change : BitVec 32 → BitVec 32)
    (real : (change (m.items x).magic &&& memheapMask) == memheapMagic) :
    Chained (m.put x fun item => { item with magic := change item.magic }) P bs fs := by
  have here : x ∈ P.tail :: bs := List.mem_cons_of_mem _ inside
  have items : ∀ {b}, b ∈ P.headers bs →
      (m.put x fun item => { item with magic := change item.magic }).items b =
        if b = x then { m.items x with magic := change (m.items x).magic } else m.items b :=
    fun at' => Memory.put_items chained.spread (block_mem here) at'
  have fields : ∀ b ∈ P.headers bs, ∀ {β : Type} (field : MemheapItem → β),
      (∀ (item : MemheapItem) magic, field { item with magic := magic } = field item) →
        field ((m.put x fun item => { item with magic := change item.magic }).items b) = field (m.items b) := by
    intro b at' β field same
    rw [items at']
    split
    · rename_i there
      rw [there, same]
    · rfl
  refine ⟨chained.placed, chained.blocks.congr ?_ ?_, chained.frees.congr ?_ ?_, chained.order, chained.first,
    chained.subset, ?_⟩
  · exact fun y at' => fields y (block_mem at') (·.next) fun _ _ => rfl
  · exact fun y at' => fields y (block_mem at') (·.prev) fun _ _ => rfl
  · exact fun y at' => fields y (chained.listed_mem at') (·.nextFree) fun _ _ => rfl
  · exact fun y at' => fields y (chained.listed_mem at') (·.prevFree) fun _ _ => rfl
  · intro a at'
    rw [items (block_mem at')]
    split
    · exact ⟨real, (chained.genuine x here).2⟩
    · exact chained.genuine a at'

/-- A header between a block and the one behind it overlaps no other. -/
theorem apart_between (chained : Chained m P bs fs) (inside : p ∈ bs) (low : p + memheapSize ≤ new)
    (high : new + memheapSize ≤ (m.items p).next) (here : a ∈ P.headers bs) : Apart a new := by
  have block : p ∈ P.tail :: bs := List.mem_cons_of_mem _ inside
  obtain ⟨_, next, sides⟩ := chained.after inside
  rcases List.mem_cons.mp here with rfl | here
  · refine chained.apart_of_inside ?_ ?_
    · have := (chained.inside_pool block).1
      omega
    · have := (chained.inside_pool next).2
      omega
  · by_cases same : a = p
    · exact .inl (same ▸ low)
    · have apart := chained.apart_of_blocks here block same
      unfold Apart memheapSize at *
      rcases sides a here with early | late <;> omega

theorem spread_between (chained : Chained m P bs fs) (inside : p ∈ bs) (low : p + memheapSize ≤ new)
    (high : new + memheapSize ≤ (m.items p).next) : Spread (new :: P.headers bs) := by
  have clear := fun {a} => chained.apart_between (a := a) inside low high
  intro a first b second other
  rcases List.mem_cons.mp first with rfl | early
  · rcases List.mem_cons.mp second with same | late
    · exact absurd same.symm other
    · exact (clear late).symm
  · rcases List.mem_cons.mp second with rfl | late
    · exact clear early
    · exact chained.spread a early b late other

section
variable (chained : Chained m P (u ++ p :: v) fs) (low : p + memheapSize ≤ new)
  (high : new + memheapSize ≤ (m.items p).next)
include chained low high

theorem new_notMem : new ∉ P.headers (u ++ p :: v) := by
  intro inside
  have := chained.apart_between (by simp) low high inside
  unfold Apart memheapSize at this
  omega

theorem breakDown_items (here : b ∈ new :: P.headers (u ++ p :: v)) :
    (m.breakDown P.freeHeader p new).items b = { m.items b with
      magic := if b = new then memheapMagic else (m.items b).magic
      poolPtr := if b = new then P.freeHeader else (m.items b).poolPtr
      next := if b = p then new else if b = new then (m.items p).next else (m.items b).next
      prev := if b = (m.items p).next then new else if b = new then p else (m.items b).prev } := by
  have fresh := chained.new_notMem low high
  have first : p ∈ P.headers (u ++ p :: v) := block_mem (by simp)
  have next : (m.items p).next ∈ P.headers (u ++ p :: v) := chained.next_mem (by simp)
  refine Memory.breakDown_items (chained.spread_between (by simp) low high) (List.mem_cons_of_mem _ first)
    List.mem_cons_self (List.mem_cons_of_mem _ next) ?_ ?_ here
  · rintro rfl
    exact fresh first
  · intro same
    exact fresh (same ▸ next)

theorem breakDown_keeps : Memory.Keeps (new :: P.headers (u ++ p :: v)) m (m.breakDown P.freeHeader p new) := by
  have fresh := chained.new_notMem low high
  have first : p ∈ P.headers (u ++ p :: v) := block_mem (by simp)
  refine Memory.breakDown_keeps (chained.spread_between (by simp) low high) (List.mem_cons_of_mem _ first)
    List.mem_cons_self (List.mem_cons_of_mem _ (chained.next_mem (by simp))) ?_
  rintro rfl
  exact fresh first

theorem breakDown : Chained (m.breakDown P.freeHeader p new) P (u ++ p :: new :: v) fs := by
  have fresh := chained.new_notMem low high
  have items := fun {b} => chained.breakDown_items (b := b) low high
  have inside : p ∈ P.tail :: (u ++ p :: v) := by simp
  have old : ∀ {y}, y ∈ P.headers (u ++ p :: v) → y ∈ new :: P.headers (u ++ p :: v) ∧ y ≠ new :=
    fun at' => ⟨List.mem_cons_of_mem _ at', fun same => fresh (same ▸ at')⟩
  have freed : ∀ y ∈ P.freeHeader :: fs, ((m.breakDown P.freeHeader p new).items y).nextFree = (m.items y).nextFree ∧
      ((m.breakDown P.freeHeader p new).items y).prevFree = (m.items y).prevFree := by
    intro y at'
    rw [items (old (chained.listed_mem at')).1]
    exact ⟨rfl, rfl⟩
  refine ⟨chained.placed, chained.blocks.insert_after (fun at' => fresh (block_mem at')) ?_ ?_ ?_ ?_ ?_ ?_,
    chained.frees.congr (fun y at' => (freed y at').1) (fun y at' => (freed y at').2), ?_, ?_, ?_, ?_⟩
  · rw [items (old (block_mem inside)).1]
    exact if_pos rfl
  · rw [items List.mem_cons_self]
    exact (if_neg fun same : new = (m.items p).next => fresh (same ▸ chained.next_mem inside)).trans (if_pos rfl)
  · rw [items List.mem_cons_self]
    exact (if_neg fun same : new = p => (old (block_mem inside)).2 same.symm).trans (if_pos rfl)
  · rw [items (old (chained.next_mem inside)).1]
    exact if_pos rfl
  · intro y at' other
    rw [items (old (block_mem at')).1]
    exact (if_neg other).trans (if_neg (old (block_mem at')).2)
  · intro y at' other
    rw [items (old (block_mem at')).1]
    exact (if_neg other).trans (if_neg (old (block_mem at')).2)
  · have order := chained.order
    have sides := chained.after (p := p) (by simp)
    rw [List.append_assoc, List.cons_append] at order ⊢
    obtain ⟨early, late, across⟩ := List.pairwise_append.mp order
    obtain ⟨close, later⟩ := List.pairwise_cons.mp late
    refine List.pairwise_append.mpr ⟨early, List.pairwise_cons.mpr ⟨?_, List.pairwise_cons.mpr ⟨?_, later⟩⟩, ?_⟩
    · intro b at'
      rcases List.mem_cons.mp at' with rfl | at'
      · exact low
      · exact close b at'
    · intro b at'
      have step := close b at'
      have among : b ∈ P.tail :: (u ++ p :: v) := by
        rcases List.mem_append.mp at' with at' | at'
        · simp [at']
        · simp [List.mem_singleton.mp at']
      have := sides.2.2 b among
      unfold memheapSize at *
      omega
    · intro a at' b behind
      have step := across a at' p List.mem_cons_self
      rcases List.mem_cons.mp behind with rfl | behind
      · exact step
      · rcases List.mem_cons.mp behind with rfl | behind
        · omega
        · exact across a at' b (List.mem_cons_of_mem _ behind)
  · have first := chained.first
    cases u <;> exact first
  · intro y at'
    have := chained.subset at'
    simp only [List.mem_append, List.mem_cons] at this ⊢
    tauto
  · intro y at'
    by_cases same : y = new
    · rw [items (by simp [same]), same]
      exact ⟨by simp only [MemheapItem.genuine, if_true]; decide, if_pos rfl⟩
    · have before : y ∈ P.tail :: (u ++ p :: v) := by
        simp only [List.mem_append, List.mem_cons] at at' ⊢
        tauto
      rw [items (old (block_mem before)).1]
      simp only [if_neg same]
      exact chained.genuine y before

end

/-- A block that is not free is merged with the one before it. -/
theorem merge (chained : Chained m P (u ++ x :: v) fs) (out : x ∉ fs) (behind : (m.items x).prev ≠ P.tail)
    (same : ∀ b ∈ P.headers (u ++ x :: v), m'.items b = m.without x b) : Chained m' P (u ++ v) fs := by
  have here : x ∈ P.tail :: (u ++ x :: v) := by simp
  have old : ∀ {y}, y ∈ P.tail :: (u ++ v) → y ∈ P.tail :: (u ++ x :: v) := by
    intro y at'
    simp only [List.mem_append, List.mem_cons] at at' ⊢
    tauto
  have freed : ∀ y ∈ P.freeHeader :: fs, (m'.items y).nextFree = (m.items y).nextFree ∧
      (m'.items y).prevFree = (m.items y).prevFree := by
    intro y at'
    rw [same y (chained.listed_mem at')]
    exact ⟨rfl, rfl⟩
  refine ⟨chained.placed, chained.blocks.remove ?_ ?_ ?_ ?_,
    chained.frees.congr (fun y at' => (freed y at').1) (fun y at' => (freed y at').2), ?_, ?_, ?_, ?_⟩
  · rw [same _ (chained.prev_mem here)]
    exact if_pos rfl
  · rw [same _ (chained.next_mem here)]
    exact if_pos rfl
  · intro y at' other
    rw [same y (block_mem (old at'))]
    exact if_neg other
  · intro y at' other
    rw [same y (block_mem (old at'))]
    exact if_neg other
  · exact chained.order.sublist (by simp)
  · have first := chained.first
    cases u with
    | nil => exact absurd chained.blocks.2.1.2 behind
    | cons => exact first
  · intro y at'
    have inside := chained.subset at'
    have other : y ≠ x := fun same => out (same ▸ at')
    simp only [List.mem_append, List.mem_cons] at inside ⊢
    tauto
  · intro y at'
    rw [same y (block_mem (old at'))]
    exact chained.genuine y (old at')

theorem mergeLeft (chained : Chained m P (u ++ x :: v) fs) (out : x ∉ fs) (behind : (m.items x).prev ≠ P.tail) :
    Chained (m.mergeLeft x) P (u ++ v) fs ∧ Joined (P.headers (u ++ x :: v)) x m (m.mergeLeft x) ∧
      Memory.Keeps (P.headers (u ++ x :: v)) m (m.mergeLeft x) := by
  have here : x ∈ P.tail :: (u ++ x :: v) := by simp
  have items := fun b at' => Memory.mergeLeft_items (b := b) chained.spread (block_mem here)
    (chained.next_mem here) (chained.prev_mem here) at'
  refine ⟨chained.merge out behind items, fun b at' => ?_, Memory.mergeLeft_keeps chained.spread (block_mem here)
    (chained.next_mem here) (chained.prev_mem here)⟩
  rw [items b at']
  exact ⟨rfl, rfl⟩

/-- A free block is merged with the block before it: it leaves both lists. -/
theorem mergeRight (chained : Chained m P (u ++ x :: v) (s ++ x :: t)) (behind : (m.items x).prev ≠ P.tail) :
    Chained ((m.mergeRight (m.items x).prev x).removeFree x) P (u ++ v) (s ++ t) ∧
      Joined (P.headers (u ++ x :: v)) x m ((m.mergeRight (m.items x).prev x).removeFree x) ∧
      Memory.Keeps (P.headers (u ++ x :: v)) m ((m.mergeRight (m.items x).prev x).removeFree x) := by
  have here : x ∈ P.tail :: (u ++ x :: v) := by simp
  have listed : x ∈ P.freeHeader :: (s ++ x :: t) := by simp
  have merged := fun b at' => Memory.mergeRight_items (b := b) chained.spread (block_mem here)
    (chained.next_mem here) (chained.prev_mem here) at'
  have next : ((m.mergeRight (m.items x).prev x).items x).nextFree = (m.items x).nextFree := by
    rw [merged x (block_mem here)]
    rfl
  have prev : ((m.mergeRight (m.items x).prev x).items x).prevFree = (m.items x).prevFree := by
    rw [merged x (block_mem here)]
    rfl
  have nextIn := chained.nextFree_mem listed
  have prevIn := chained.prevFree_mem listed
  have removed := fun b at' => Memory.removeFree_items (m := m) (b := b) chained.spread (block_mem here)
    nextIn prevIn at'
  -- the two changes touch different fields, so their order does not matter
  have items : ∀ b ∈ P.headers (u ++ x :: v), ((m.mergeRight (m.items x).prev x).removeFree x).items b =
      (m.removeFree x).without x b := by
    intro b at'
    rw [Memory.removeFree_items chained.spread (block_mem here) (next.symm ▸ nextIn) (prev.symm ▸ prevIn) at',
      next, prev, merged b at', Memory.without, Memory.without, removed b at', removed x (block_mem here)]
  refine ⟨chained.removeFree.merge ?_ ?_ items, fun b at' => ?_, ?_⟩
  · intro inside
    have distinct := List.nodup_append.mp chained.frees.nodup
    rcases List.mem_append.mp inside with early | late
    · exact distinct.2.2 x early x List.mem_cons_self rfl
    · exact (List.nodup_cons.mp distinct.2.1).1 late
  · rw [removed x (block_mem here)]
    exact behind
  · rw [items b at', Memory.without, removed b at', removed x (block_mem here)]
    exact ⟨rfl, rfl⟩
  · exact (Memory.mergeRight_keeps chained.spread (chained.prev_mem here) (block_mem here)
      (chained.next_mem here)).trans
        (Memory.removeFree_keeps chained.spread (block_mem here) (next.symm ▸ nextIn) (prev.symm ▸ prevIn))

/-- A free block leaves both lists. -/
theorem removeBoth (chained : Chained m P (u ++ x :: v) (s ++ x :: t)) (behind : (m.items x).prev ≠ P.tail) :
    Chained ((m.removeFree x).removeBlock x) P (u ++ v) (s ++ t) ∧
      Joined (P.headers (u ++ x :: v)) x m ((m.removeFree x).removeBlock x) ∧
      Memory.Keeps (P.headers (u ++ x :: v)) m ((m.removeFree x).removeBlock x) := by
  have here : x ∈ P.tail :: (u ++ x :: v) := by simp
  have removed := chained.removeFree
  have same : ∀ b ∈ P.headers (u ++ x :: v), ((m.removeFree x).items b).next = (m.items b).next ∧
      ((m.removeFree x).items b).prev = (m.items b).prev ∧ ((m.removeFree x).items b).magic = (m.items b).magic := by
    intro b at'
    have listed : x ∈ P.freeHeader :: (s ++ x :: t) := by simp
    rw [Memory.removeFree_items chained.spread (block_mem here) (chained.nextFree_mem listed)
      (chained.prevFree_mem listed) at']
    exact ⟨rfl, rfl, rfl⟩
  have items := fun b at' => Memory.removeBlock_items (b := b) chained.spread (block_mem here)
    (removed.next_mem here) (removed.prev_mem here) at'
  have out : x ∉ s ++ t := by
    have distinct := List.nodup_append.mp chained.frees.nodup
    intro inside
    rcases List.mem_append.mp inside with early | late
    · exact distinct.2.2 x early x List.mem_cons_self rfl
    · exact (List.nodup_cons.mp distinct.2.1).1 late
  refine ⟨removed.merge out ?_ items, fun b at' => ?_, chained.removeFree_keeps.trans
    (Memory.removeBlock_keeps chained.spread (block_mem here) (removed.next_mem here) (removed.prev_mem here))⟩
  · rw [(same x (block_mem here)).2.1]
    exact behind
  · rw [items b at', Memory.without]
    simp only [same b at', same x (block_mem here)]
    exact ⟨trivial, trivial⟩

end Chained
end RemoteBoot.Kernel
