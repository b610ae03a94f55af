import RemoteBoot.Kernel.MemheapCalls

/-! All heaps together, with the blocks their callers hold: what a call does to them, and
what holds all along a run of calls. -/
namespace RemoteBoot.Kernel
open Transition Linked

/-- The heaps and, for each pointer that is in use, what its holder stored there. -/
structure Loans extends Heaps where
  live : Nat → Option (List UInt8)

inductive HeapCall where
  | malloc (size : Nat)
  | calloc (count size : Nat)
  | realloc (rmem newsize : Nat)
  | free (rmem : Nat)
  | write (ptr index : Nat) (value : UInt8)
  deriving DecidableEq

/-- `new` takes the place of `ptr`, with as much of the data there as fits, and the bytes behind
it as they were found. -/
def resized (live : Nat → Option (List UInt8)) (data : List UInt8) (m : Memory) (ptr new newsize : Nat) :
    Nat → Option (List UInt8) :=
  Function.update (Function.update live ptr none) new
    (some (data.take newsize ++ m.read (new + (data.take newsize).length) (newsize - (data.take newsize).length)))

namespace Loans

/-- A new block is in the hands of a caller. -/
def lend (s : Loans) (t : Heaps) (ptr : Nat) (data : List UInt8) : Loans :=
  { t with live := if ptr = 0 then s.live else Function.update s.live ptr (some data) }

def step (s : Loans) : HeapCall → Option Loans
  | .malloc size => (s.rtMalloc size).map fun (t, ptr) => s.lend t ptr (t.mem.read ptr size)
  | .calloc count size => (s.rtCalloc count size).map fun (t, ptr) =>
    s.lend t ptr (List.replicate (count * size) 0)
  | .realloc rmem newsize => (s.rtRealloc rmem newsize).map fun (t, new) =>
    if new = 0 then
      { t with live := if newsize = 0 then Function.update s.live rmem none else s.live }
    else { t with live := resized s.live ((s.live rmem).getD []) t.mem rmem new newsize }
  | .free rmem => (s.rtFree rmem).map fun t => { t with live := Function.update s.live rmem none }
  | .write ptr index value =>
    some { s with
      mem := s.mem.fill (ptr + index) value 1
      live := Function.update s.live ptr ((s.live ptr).map (·.set index value)) }

/-- Calls that callers may make: of pointers only those they hold, and of sizes none that the
arithmetic of a request turns over. -/
def Honest (s : Loans) : HeapCall → Prop
  | .malloc size => size + 3 < 2 ^ 32
  | .calloc count size => count * size + 3 < 2 ^ 32
  | .realloc rmem newsize => (rmem = 0 ∨ (s.live rmem).isSome = true) ∧ newsize + 15 < 2 ^ 32
  | .free rmem => rmem = 0 ∨ (s.live rmem).isSome = true
  | .write ptr index _ => ∃ data, s.live ptr = some data ∧ index < data.length

instance Honest.decidable (s : Loans) : (call : HeapCall) → Decidable (s.Honest call)
  | .malloc size => inferInstanceAs (Decidable (size + 3 < 2 ^ 32))
  | .calloc count size => inferInstanceAs (Decidable (count * size + 3 < 2 ^ 32))
  | .realloc rmem newsize =>
    inferInstanceAs (Decidable ((rmem = 0 ∨ (s.live rmem).isSome = true) ∧ newsize + 15 < 2 ^ 32))
  | .free rmem => inferInstanceAs (Decidable (rmem = 0 ∨ (s.live rmem).isSome = true))
  | .write ptr index _ =>
    decidable_of_iff ((s.live ptr).any (index < ·.length) = true) (by
      rw [Option.any_eq_true]
      simp only [Honest, decide_eq_true_eq])

end Loans

namespace Heaps

@[simp] theorem set_self (s : Heaps) (k : Nat) (m : Memory) (h : Memheap) : (s.set k m h).heaps k = h :=
  Function.update_self ..

theorem set_other {j k : Nat} (other : j ≠ k) (s : Heaps) (m : Memory) (h : Memheap) :
    (s.set k m h).heaps j = s.heaps j :=
  Function.update_of_ne other ..

theorem set_same (s : Heaps) (k : Nat) : s.set k s.mem (s.heaps k) = s := by
  rw [set, Function.update_eq_self]

end Heaps

structure Region where
  freeHeader : Nat
  startAddr : Nat
  size : Nat
  deriving DecidableEq

def Region.pool (r : Region) : Pool := ⟨r.startAddr, r.size / 4 * 4, r.freeHeader⟩

/-- A heap object is initialised; the object list has the newest first, the system heap apart. -/
def Heaps.add (s : Heaps) (r : Region) : Heaps :=
  let (m, h) := rtMemheapInit s.mem r.freeHeader r.startAddr r.size
  { mem := m
    heaps := Function.update s.heaps r.freeHeader h
    order := match s.order with
      | [] => [r.freeHeader]
      | system :: others => system :: r.freeHeader :: others }

def Loans.boot (m : Memory) (regions : List Region) : Loans where
  toHeaps := regions.foldl Heaps.add ⟨m, fun _ => ⟨⟨0, 0, 0⟩, 0, 0⟩, []⟩
  live _ := none

/-- The free blocks of a heap in the order of its free list. -/
def Heaps.freeBlocks (s : Heaps) (k : Nat) : List Nat :=
  cells (fun a => (s.mem.items a).nextFree) k (s.heaps k).poolSize (s.mem.items k).nextFree

/-- The addresses of a heap: those of its pool and of its free list header. -/
def Pool.Holds (P : Pool) (x : Nat) : Prop :=
  P.startAddr ≤ x ∧ x < P.startAddr + P.poolSize ∨ P.freeHeader ≤ x ∧ x < P.freeHeader + memheapSize

def Separate (P Q : Pool) : Prop := ∀ x, P.Holds x → ¬ Q.Holds x

theorem Separate.symm {P Q : Pool} (separate : Separate P Q) : Separate Q P :=
  fun x there here => separate x here there

/-- Where the heaps lie, each named by the address of its object. -/
structure Layout where
  order : List Nat
  pools : Nat → Pool
  named : ∀ k ∈ order, (pools k).freeHeader = k
  separate : ∀ j ∈ order, ∀ k ∈ order, j ≠ k → Separate (pools j) (pools k)

variable {m m' : Memory} {P Q : Pool} {h h' : Memheap} {bs bs' fs fs' : List Nat} {a b k p amount : Nat}
  {Z : Layout} {s : Heaps} {live live' : Nat → Option (List UInt8)} {L : Nat → List Nat}

theorem Formed.congr (formed : Formed m P h bs fs) (same : ∀ b ∈ P.headers bs, m'.items b = m.items b) :
    Formed m' P h bs fs := by
  have chained := formed.chained
  have block : ∀ {y}, y ∈ P.tail :: bs → m'.items y = m.items y := fun at' => same _ (Chained.block_mem at')
  have inner : ∀ {y}, y ∈ bs → m'.items y = m.items y := fun at' => block (List.mem_cons_of_mem _ at')
  have chained' : Chained m' P bs fs := by
    refine ⟨chained.placed, chained.blocks.congr ?_ ?_, chained.frees.congr ?_ ?_, chained.order, chained.first,
      chained.subset, ?_⟩
    · exact fun y at' => congrArg (·.next) (block at')
    · exact fun y at' => congrArg (·.prev) (block at')
    · exact fun y at' => congrArg (·.nextFree) (same y (chained.listed_mem at'))
    · exact fun y at' => congrArg (·.prevFree) (same y (chained.listed_mem at'))
    · intro y at'
      rw [block at']
      exact chained.genuine y at'
  have load : ∀ y ∈ bs, m'.payload y = m.payload y := fun y at' => by
    rw [Memory.payload, Memory.payload, Memory.itemSize, Memory.itemSize, inner at']
  refine ⟨⟨formed.place, chained', formed.aligned, ?_, ?_, formed.peak⟩, fun y at' => ?_, fun y at' => ?_⟩
  · rw [block List.mem_cons_self]
    exact formed.tailUsed
  · rw [Sized, List.map_congr_left load]
    exact formed.sized
  · rw [inner at']
    exact formed.listed y at'
  · rw [inner at', same _ (chained.next_mem (List.mem_cons_of_mem _ at'))]
    exact formed.merged y at'

theorem Chained.holds (chained : Chained m P bs fs) (inside : a ∈ P.headers bs) {x : Nat} (low : a ≤ x)
    (high : x < a + memheapSize) : P.Holds x := by
  rcases List.mem_cons.mp inside with rfl | inside
  · exact .inr ⟨low, high⟩
  · obtain ⟨first, last⟩ := chained.inside_pool inside
    exact .inl ⟨by omega, by omega⟩

theorem Chained.payload_holds (chained : Chained m P bs fs) (inside : p ∈ bs) {i : Nat}
    (within : i < m.itemSize p) : P.Holds (p + memheapSize + i) := by
  have ends := chained.next_eq inside
  have low := (chained.inside_pool (List.mem_cons_of_mem _ inside)).1
  have high := (chained.inside_pool (chained.after inside).2.1).2
  exact .inl ⟨by omega, by omega⟩

theorem apart_of_separate (first : Chained m P bs fs) (second : Chained m' Q bs' fs') (separate : Separate P Q)
    (here : a ∈ P.headers bs) (there : b ∈ Q.headers bs') : Apart a b := by
  by_contra overlap
  unfold Apart at overlap
  rcases Nat.le_total a b with less | less
  · exact separate b (first.holds here less (by omega)) (second.holds there (Nat.le_refl _)
      (by unfold memheapSize; omega))
  · exact separate a (first.holds here (Nat.le_refl _) (by unfold memheapSize; omega))
      (second.holds there less (by omega))

/-- The bytes of a block in use lie in no header. -/
theorem Chained.payload_clear (chained : Chained m P bs fs) (inside : p ∈ bs) {i : Nat}
    (within : i < m.itemSize p) (here : a ∈ P.headers bs) :
    p + memheapSize + i < a ∨ a + memheapSize ≤ p + memheapSize + i := by
  have ends := chained.next_eq inside
  obtain ⟨_, next, sides⟩ := chained.after inside
  rcases List.mem_cons.mp here with rfl | here
  · have := chained.placed.apart
    have := (chained.inside_pool (List.mem_cons_of_mem _ inside)).1
    have := (chained.inside_pool next).2
    omega
  · rcases sides a here with early | late
    · right
      omega
    · left
      omega

/-- Everything a run of calls keeps: each heap is in order, with the block lists `L`, the
blocks in use are those lent, and each holds what its holder stored. -/
structure Sound (Z : Layout) (s : Heaps) (live : Nat → Option (List UInt8)) (L : Nat → List Nat) : Prop where
  order : s.order = Z.order
  formed : ∀ k ∈ Z.order, ∃ fs, Formed s.mem (Z.pools k) (s.heaps k) (L k) fs
  held : ∀ p data, live p = some data → ∃ k ∈ Z.order, ∃ b amount, p = b + memheapSize ∧
    Occupied s.mem (L k) b amount ∧ data.length ≤ amount ∧ s.mem.read p data.length = data
  known : ∀ k ∈ Z.order, ∀ b amount, Occupied s.mem (L k) b amount → (live (b + memheapSize)).isSome = true

theorem Memory.sum_itemSize (m : Memory) (l : List Nat) : (l.map m.itemSize).sum =
    (l.map m.payload).sum + ((l.filter fun a => !(m.items a).isUsed).map m.itemSize).sum := by
  induction l with
  | nil => rfl
  | cons a l ih =>
    rw [List.map_cons, List.sum_cons, List.map_cons, List.sum_cons, List.filter_cons, ih]
    cases used : (m.items a).isUsed with
    | true =>
      rw [payload_of_used used]
      exact (Nat.add_assoc _ _ _).symm
    | false =>
      rw [payload_of_free used, Nat.zero_add, Nat.add_left_comm]
      rfl

/-- The available size is what the blocks of the free list have together. -/
theorem Formed.free_sum (formed : Formed m P h bs fs) : (fs.map m.itemSize).sum = h.availableSize := by
  have balance := formed.chained.balance
  have sized := formed.sized
  have split := m.sum_itemSize bs
  have same : fs.Perm (bs.filter fun a => !(m.items a).isUsed) := by
    refine (List.perm_ext_iff_of_nodup formed.chained.frees.nodup (formed.chained.blocks.nodup.filter _)).mpr fun a => ?_
    rw [List.mem_filter, Bool.not_eq_true']
    constructor
    · intro listed
      have inside := formed.chained.subset listed
      exact ⟨inside, (formed.listed a inside).mp listed⟩
    · rintro ⟨inside, free⟩
      exact (formed.listed a inside).mpr free
  rw [(same.map m.itemSize).sum_eq]
  unfold Sized at sized
  omega

theorem Formed.freeBlocks_eq (formed : Formed s.mem P (s.heaps k) bs fs) (named : P.freeHeader = k) :
    s.freeBlocks k = fs := by
  subst named
  rw [Heaps.freeBlocks, formed.place]
  exact formed.chained.frees.2.cells_eq formed.chained.frees.head_notMem formed.chained.few

theorem Memory.read_congr {n : Nat} (same : ∀ i < n, m'.bytes (p + i) = m.bytes (p + i)) :
    m'.read p n = m.read p n :=
  List.map_congr_left fun i inside => same i (List.mem_range.mp inside)

/-- One heap is changed, by stores to headers of its own. -/
theorem Sound.change (sound : Sound Z s live L) (here : k ∈ Z.order)
    (formed : Formed m' (Z.pools k) h' bs' fs')
    (keeps : Memory.Keeps ((Z.pools k).headers (L k) ++ (Z.pools k).headers bs') s.mem m')
    (held : ∀ p data, live' p = some data →
      (∃ b amount, p = b + memheapSize ∧ Occupied m' bs' b amount ∧ data.length ≤ amount ∧
        m'.read p data.length = data) ∨
      live p = some data ∧ ∀ b amount, p = b + memheapSize → Occupied s.mem (L k) b amount →
        Occupied m' bs' b amount)
    (known : ∀ b amount, Occupied m' bs' b amount → (live' (b + memheapSize)).isSome = true)
    (others : ∀ q, (live q).isSome = true → (∀ b amount, q = b + memheapSize → ¬ Occupied s.mem (L k) b amount) →
      (live' q).isSome = true) :
    Sound Z (s.set k m' h') live' (Function.update L k bs') := by
  obtain ⟨fs, before⟩ := sound.formed k here
  have aside : ∀ j ∈ Z.order, j ≠ k → ∀ b ∈ (Z.pools j).headers (L j), m'.items b = s.mem.items b := by
    intro j there other b at'
    obtain ⟨_, apart⟩ := sound.formed j there
    refine keeps.items b fun a inside => ?_
    have separate := Z.separate k here j there (Ne.symm other)
    rcases List.mem_append.mp inside with old | new
    · exact apart_of_separate before.chained apart.chained separate old at'
    · exact apart_of_separate formed.chained apart.chained separate new at'
  have still : ∀ j ∈ Z.order, j ≠ k → ∀ b amount, Occupied m' (L j) b amount ↔ Occupied s.mem (L j) b amount := by
    intro j there other b amount
    unfold Occupied
    refine and_congr_right fun inside => ?_
    rw [Memory.itemSize, aside j there other b (Chained.block_mem (List.mem_cons_of_mem _ inside)), Memory.itemSize]
  refine ⟨sound.order, fun j there => ?_, fun p data lent => ?_, fun j there b amount inUse => ?_⟩
  · by_cases same : j = k
    · rw [same, Function.update_self, Heaps.set_self]
      exact ⟨fs', formed⟩
    · rw [Function.update_of_ne same, Heaps.set_other same]
      obtain ⟨fs, apart⟩ := sound.formed j there
      exact ⟨fs, apart.congr (aside j there same)⟩
  · rcases held p data lent with ⟨b, amount, rfl, inUse, fits, same⟩ | ⟨lent, kept⟩
    · refine ⟨k, here, b, amount, rfl, ?_, fits, same⟩
      rw [Function.update_self]
      exact inUse
    · obtain ⟨j, there, b, amount, rfl, inUse, fits, same⟩ := sound.held p data lent
      refine ⟨j, there, b, amount, rfl, ?_, fits, ?_⟩
      · by_cases own : j = k
        · rw [own] at inUse ⊢
          rw [Function.update_self]
          exact kept b amount rfl inUse
        · rw [Function.update_of_ne own]
          exact (still j there own b amount).mpr inUse
      · have size := inUse.2.2
        have wide : ∀ {n}, n < data.length → n < s.mem.itemSize b := fun less => by omega
        refine (Memory.read_congr fun i less => keeps.bytes _ fun a inside => ?_).trans same
        obtain ⟨_, owner⟩ := sound.formed j there
        by_cases own : j = k
        · rw [own] at inUse
          have inUse' := kept b amount rfl inUse
          rcases List.mem_append.mp inside with old | new
          · exact before.chained.payload_clear inUse.1 (wide less) old
          · exact formed.chained.payload_clear inUse'.1 (by rw [inUse'.2.2]; omega) new
        · have separate := Z.separate j there k here own
          have inPool := owner.chained.payload_holds inUse.1 (wide less)
          by_contra reach
          refine separate _ inPool ?_
          rcases List.mem_append.mp inside with old | new
          · exact before.chained.holds old (by omega) (by omega)
          · exact formed.chained.holds new (by omega) (by omega)
  · by_cases own : j = k
    · rw [own, Function.update_self] at inUse
      exact known b amount inUse
    · rw [Function.update_of_ne own] at inUse
      have before' := (still j there own b amount).mp inUse
      refine others _ (sound.known j there b amount before') fun c size same inUse' => ?_
      have : b = c := Nat.add_right_cancel same
      subst this
      obtain ⟨_, owner⟩ := sound.formed j there
      exact Z.separate j there k here own b
        (owner.chained.holds (Chained.block_mem (List.mem_cons_of_mem _ before'.1)) (Nat.le_refl _)
          (by unfold memheapSize; omega))
        (before.chained.holds (Chained.block_mem (List.mem_cons_of_mem _ inUse'.1)) (Nat.le_refl _)
          (by unfold memheapSize; omega))

end RemoteBoot.Kernel
