import Mathlib
import RemoteBoot.Transition

/-! The heap that `rt_malloc` serves: pools cut into blocks, each behind a header with the
links of two lists. All blocks of a pool form one circle in the order of their addresses,
and the free ones a second circle through the header of the heap object. -/
namespace RemoteBoot.Kernel

/-- `RT_MEMHEAP_SIZE`, the six words of a header. -/
def memheapSize : Nat := 24

def memheapMinialloc : Nat := 12

def memheapMagic : BitVec 32 := 0x1ea01ea0#32

def memheapMask : BitVec 32 := 0xfffffffe#32

def memheapUsed : BitVec 32 := 0x01#32

/-- Sums and differences of `rt_uint32_t` values and pointers. -/
def u32 (n : Nat) : Nat := n % 2 ^ 32

def sub32 (a b : Nat) : Nat := u32 (a + (2 ^ 32 - u32 b))

/-- `RT_ALIGN(size, RT_ALIGN_SIZE)`. -/
def rtAlign (size : Nat) : Nat := u32 (size + 3) / 4 * 4

@[ext] structure MemheapItem where
  magic : BitVec 32
  poolPtr : Nat
  next : Nat
  prev : Nat
  nextFree : Nat
  prevFree : Nat
  deriving DecidableEq

def MemheapItem.blank : MemheapItem := ⟨0#32, 0, 0, 0, 0, 0⟩

def MemheapItem.isUsed (item : MemheapItem) : Bool := (item.magic &&& memheapUsed) != 0#32

def MemheapItem.genuine (item : MemheapItem) : Bool := (item.magic &&& memheapMask) == memheapMagic

/-- The memory as headers and as bytes. Both lie in the same place, so a store of the one
kind spoils what there was of the other kind, and headers it only partly covers. -/
structure Memory where
  items : Nat → MemheapItem
  bytes : Nat → UInt8

namespace Memory

def spoil (m : Memory) (low high : Nat) : Memory where
  items a := if a < high ∧ low < a + memheapSize then .blank else m.items a
  bytes x := if low ≤ x ∧ x < high then 0 else m.bytes x

/-- A store to fields of the header at `a`. -/
def put (m : Memory) (a : Nat) (change : MemheapItem → MemheapItem) : Memory where
  items b := if b = a then change (m.items a) else (m.spoil a (a + memheapSize)).items b
  bytes := (m.spoil a (a + memheapSize)).bytes

/-- `rt_memcpy` between blocks. -/
def copy (m : Memory) (dst src count : Nat) : Memory where
  items := (m.spoil dst (dst + count)).items
  bytes x := if dst ≤ x ∧ x < dst + count then m.bytes (src + (x - dst)) else m.bytes x

/-- `rt_memset`. -/
def fill (m : Memory) (dst : Nat) (value : UInt8) (count : Nat) : Memory where
  items := (m.spoil dst (dst + count)).items
  bytes x := if dst ≤ x ∧ x < dst + count then value else m.bytes x

def read (m : Memory) (ptr count : Nat) : List UInt8 :=
  (List.range count).map fun i => m.bytes (ptr + i)

/-- `MEMITEM_SIZE`. -/
def itemSize (m : Memory) (a : Nat) : Nat := sub32 (sub32 (m.items a).next a) memheapSize

/-- Takes a block out of the free list. -/
def removeFree (m : Memory) (x : Nat) : Memory :=
  let m := m.put (m.items x).nextFree ({ · with prevFree := (m.items x).prevFree })
  m.put (m.items x).prevFree ({ · with nextFree := (m.items x).nextFree })

/-- Puts a block in front of the free list. -/
def insertFree (m : Memory) (freeList x : Nat) : Memory :=
  let m := m.put x ({ · with nextFree := (m.items freeList).nextFree, prevFree := freeList })
  let m := m.put (m.items freeList).nextFree ({ · with prevFree := x })
  m.put freeList ({ · with nextFree := x })

/-- Marks a new free block and puts it behind `header` in the block list. -/
def breakDown (m : Memory) (pool header new : Nat) : Memory :=
  let m := m.put new ({ · with magic := memheapMagic, poolPtr := pool })
  let m := m.put new ({ · with prev := header, next := (m.items header).next })
  let m := m.put (m.items header).next ({ · with prev := new })
  m.put header ({ · with next := new })

/-- Merges a block with its right neighbor. -/
def mergeRight (m : Memory) (header right : Nat) : Memory :=
  let m := m.put (m.items right).next ({ · with prev := header })
  m.put header ({ · with next := (m.items right).next })

/-- Merges a block with its left neighbor, the order of the two stores being the other. -/
def mergeLeft (m : Memory) (header : Nat) : Memory :=
  let m := m.put (m.items header).prev ({ · with next := (m.items header).next })
  m.put (m.items header).next ({ · with prev := (m.items header).prev })

/-- Takes a block out of the block list. -/
def removeBlock (m : Memory) (x : Nat) : Memory :=
  let m := m.put (m.items x).next ({ · with prev := (m.items x).prev })
  m.put (m.items x).prev ({ · with next := (m.items x).next })

end Memory

/-- Where a heap lies. Heap objects are named by the address of their `free_header`. -/
structure Pool where
  startAddr : Nat
  poolSize : Nat
  freeHeader : Nat
  deriving DecidableEq

structure Memheap extends Pool where
  availableSize : Nat
  maxUsedSize : Nat
  deriving DecidableEq

/-- The bytes of an allocation leave `available_size` and may raise `max_used_size`. -/
def Memheap.take (h : Memheap) (count : Nat) : Memheap :=
  let available := sub32 h.availableSize count
  { h with
    availableSize := available
    maxUsedSize := if sub32 h.poolSize available > h.maxUsedSize then sub32 h.poolSize available
      else h.maxUsedSize }

def Memheap.lower (h : Memheap) (count : Nat) : Memheap :=
  { h with availableSize := sub32 h.availableSize count }

def Memheap.give (h : Memheap) (count : Nat) : Memheap :=
  { h with availableSize := u32 (h.availableSize + count) }

def rtMemheapInit (m : Memory) (freeHeader startAddr size : Nat) : Memory × Memheap :=
  let poolSize := size / 4 * 4
  let available := sub32 poolSize (2 * memheapSize)
  let tail := u32 (startAddr + available + memheapSize)
  let m := m.put freeHeader fun _ => ⟨memheapMagic, freeHeader, 0, 0, freeHeader, freeHeader⟩
  let m := m.put startAddr fun _ => ⟨memheapMagic, freeHeader, tail, tail, startAddr, startAddr⟩
  let m := m.insertFree freeHeader startAddr
  let m := m.put tail fun _ => ⟨memheapMagic ||| memheapUsed, freeHeader, startAddr, startAddr, 0, 0⟩
  (m, ⟨⟨startAddr, poolSize, freeHeader⟩, available, sub32 poolSize available⟩)

/-- The loop over the free list: `some none` where it comes back to the header, and none
where it has not ended after `fuel` blocks. -/
def Memory.search (m : Memory) (freeList size : Nat) : Nat → Nat → Option (Option Nat)
  | 0, p => if p = freeList then some none else none
  | fuel + 1, p =>
    if p = freeList then some none
    else if m.itemSize p ≥ size then some (some p)
    else m.search freeList size fuel (m.items p).nextFree

/-- The request as it is served: aligned, and at least `RT_MEMHEAP_MINIALLOC`. -/
def served (size : Nat) : Nat := if rtAlign size < memheapMinialloc then memheapMinialloc else rtAlign size

/-- `rt_memheap_alloc`. The pointer is 0 where no memory was found; none is a loop without end. -/
def rtMemheapAlloc (m : Memory) (h : Memheap) (request : Nat) : Option (Memory × Memheap × Nat) :=
  let size := served request
  if size < h.availableSize then
    match m.search h.freeHeader size h.poolSize (m.items h.freeHeader).nextFree with
    | none => none
    | some none => some (m, h, 0)
    | some (some p) =>
      let freeSize := m.itemSize p
      if freeSize ≥ u32 (size + memheapSize + memheapMinialloc) then
        -- the rest of the block becomes a free block of its own
        let new := u32 (p + size + memheapSize)
        let m := m.breakDown h.freeHeader p new
        let m := m.removeFree p
        let m := m.put p ({ · with nextFree := 0, prevFree := 0 })
        let m := m.insertFree h.freeHeader new
        let m := m.put p fun item => { item with magic := item.magic ||| memheapUsed }
        some (m, h.take (size + memheapSize), u32 (p + memheapSize))
      else
        let m := m.removeFree p
        let m := m.put p ({ · with nextFree := 0, prevFree := 0 })
        let m := m.put p fun item => { item with magic := item.magic ||| memheapUsed }
        some (m, h.take freeSize, u32 (p + memheapSize))
  else some (m, h, 0)

/-- `rt_memheap_free` behind its checks, from the header of the block on. -/
def freeBlock (m : Memory) (h : Memheap) (header : Nat) : Memory × Memheap :=
  let m := m.put header fun item => { item with magic := item.magic &&& ~~~memheapUsed }
  let h := h.give (m.itemSize header)
  let left := !(m.items (m.items header).prev).isUsed
  let h := if left then h.give memheapSize else h
  let m := if left then m.mergeLeft header else m
  let p := if left then (m.items header).prev else header
  let new := (m.items p).next
  let right := !(m.items new).isUsed
  let h := if right then h.give memheapSize else h
  let m := if right then (m.mergeRight p new).removeFree new else m
  (if left then m else m.insertFree h.freeHeader p, h)

/-- The part of `rt_memheap_realloc` that takes bytes from the free block behind. -/
def growBlock (m : Memory) (h : Memheap) (header newsize : Nat) : Memory × Memheap :=
  let h := h.take (sub32 newsize (m.itemSize header))
  let next := (m.items header).next
  let m := (m.removeFree next).removeBlock next
  let new := u32 (header + memheapSize + newsize)
  let m := m.breakDown h.freeHeader header new
  (m.insertFree h.freeHeader new, h)

/-- The part of `rt_memheap_realloc` that cuts off the end of a block. -/
def shrinkBlock (m : Memory) (h : Memheap) (header newsize : Nat) : Memory × Memheap :=
  let new := u32 (header + newsize + memheapSize)
  let m := m.breakDown h.freeHeader header new
  let free := (m.items new).next
  let right := !(m.items free).isUsed
  let h := if right then h.lower (m.itemSize free) else h
  let m := if right then (m.mergeRight new free).removeFree free else m
  let m := m.insertFree h.freeHeader new
  (m, h.give (m.itemSize new))

/-- All heaps. `order` is the order in which `rt_malloc` tries them, the system heap first. -/
structure Heaps where
  mem : Memory
  heaps : Nat → Memheap
  order : List Nat

namespace Heaps

def set (s : Heaps) (k : Nat) (m : Memory) (h : Memheap) : Heaps :=
  { s with mem := m, heaps := Function.update s.heaps k h }

/-- `rt_memheap_free`; none where an assertion fails. -/
def rtMemheapFree (s : Heaps) (ptr : Nat) : Option Heaps :=
  if ptr = 0 then some s
  else
    let header := sub32 ptr memheapSize
    let item := s.mem.items header
    if item.genuine && item.isUsed && (s.mem.items item.next).genuine then
      let (m, h) := freeBlock s.mem (s.heaps item.poolPtr) header
      some (s.set item.poolPtr m h)
    else none

def alloc (s : Heaps) (k size : Nat) : Option (Heaps × Nat) :=
  (rtMemheapAlloc s.mem (s.heaps k) size).map fun (m, h, ptr) => (s.set k m h, ptr)

def rtMemheapRealloc (s : Heaps) (k ptr request : Nat) : Option (Heaps × Nat) :=
  if request = 0 then (s.rtMemheapFree ptr).map (·, 0)
  else
    let newsize := served request
    if ptr = 0 then s.alloc k newsize
    else
      let header := sub32 ptr memheapSize
      let oldsize := s.mem.itemSize header
      if newsize > oldsize then
        let next := (s.mem.items header).next
        if next > header then
          if !(s.mem.items next).isUsed &&
              decide (u32 (s.mem.itemSize next + oldsize) > u32 (newsize + memheapMinialloc)) then
            let (m, h) := growBlock s.mem (s.heaps k) header newsize
            some (s.set k m h, ptr)
          else
            (s.alloc k newsize).bind fun (s, new) =>
              if new = 0 then some (s, 0)
              else
                ({ s with mem := s.mem.copy new ptr (min oldsize newsize) }.rtMemheapFree ptr).map (·, new)
        else none
      else if u32 (newsize + memheapSize + memheapMinialloc) ≥ oldsize then some (s, ptr)
      else
        let (m, h) := shrinkBlock s.mem (s.heaps k) header newsize
        some (s.set k m h, ptr)

/-- The loop of `rt_malloc` over the heaps. -/
def tryAll (s : Heaps) (size : Nat) : List Nat → Option (Heaps × Nat)
  | [] => some (s, 0)
  | k :: rest =>
    (s.alloc k size).bind fun (s, ptr) => if ptr = 0 then s.tryAll size rest else some (s, ptr)

def rtMalloc (s : Heaps) (size : Nat) : Option (Heaps × Nat) := s.tryAll size s.order

def rtFree (s : Heaps) (rmem : Nat) : Option Heaps := s.rtMemheapFree rmem

def rtRealloc (s : Heaps) (rmem newsize : Nat) : Option (Heaps × Nat) :=
  if rmem = 0 then s.rtMalloc newsize
  else if newsize = 0 then (s.rtFree rmem).map (·, 0)
  else
    let header := sub32 rmem memheapSize
    (s.rtMemheapRealloc (s.mem.items header).poolPtr rmem newsize).bind fun (s, new) =>
      if new = 0 then
        (s.rtMalloc newsize).bind fun (s, new) =>
          if new = 0 then some (s, 0)
          else
            let oldsize := s.mem.itemSize header
            let count := if newsize > oldsize then oldsize else newsize
            ({ s with mem := s.mem.copy new rmem count }.rtFree rmem).map (·, new)
      else some (s, new)

/-- Neither the product is checked nor a size that the alignment turns over. None is also an
`rt_memset` that runs over the end of the block. -/
def rtCalloc (s : Heaps) (count size : Nat) : Option (Heaps × Nat) :=
  let totalSize := u32 (count * size)
  (s.rtMalloc totalSize).bind fun (s, ptr) =>
    if ptr = 0 then some (s, 0)
    else if totalSize ≤ s.mem.itemSize (sub32 ptr memheapSize) then
      some ({ s with mem := s.mem.fill ptr 0 totalSize }, ptr)
    else none

end Heaps
end RemoteBoot.Kernel
