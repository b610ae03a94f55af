import RemoteBoot.Kernel.MemheapRuns

/-! A run of calls that hand back only what they were lent: each call returns, and every
block keeps what its holder stored there. -/
namespace RemoteBoot.Kernel
open Transition

variable {m m' : Memory} {P : Pool} {h' : Memheap} {bs bs' fs fs' : List Nat} {Z : Layout} {s t : Heaps}
  {live : Nat → Option (List UInt8)} {L : Nat → List Nat} {data : List UInt8}
  {a b c j k n amount size count newsize ptr new : Nat}

namespace Memory

@[simp] theorem length_read (m : Memory) (ptr n : Nat) : (m.read ptr n).length = n := by
  rw [read, List.length_map, List.length_range]

theorem read_append (m : Memory) (ptr a b : Nat) : m.read ptr (a + b) = m.read ptr a ++ m.read (ptr + a) b := by
  rw [read, List.range_add, List.map_append, List.map_map]
  simp only [read, Function.comp_def, Nat.add_assoc]

theorem take_read (m : Memory) (ptr : Nat) (less : a ≤ n) : (m.read ptr n).take a = m.read ptr a := by
  obtain ⟨c, rfl⟩ := Nat.exists_eq_add_of_le less
  rw [read_append, List.take_left' (length_read ..)]

theorem read_part (content : m.read ptr data.length = data) (n : Nat) :
    m.read ptr (data.take n).length = data.take n := by
  have part : (data.take n).length ≤ data.length := by
    rw [List.length_take]
    exact Nat.min_le_right _ _
  rw [← take_read _ _ part, content, List.length_take, List.take_eq_take_iff]
  omega

/-- The first part of what is read, and the rest of it behind. -/
theorem read_kept (m : Memory) (ptr : Nat) {kept : List UInt8} (same : m.read ptr kept.length = kept) (n : Nat) :
    m.read ptr (kept ++ m.read (ptr + kept.length) n).length = kept ++ m.read (ptr + kept.length) n := by
  rw [List.length_append, length_read, read_append, same]

theorem copy_read (m : Memory) (dst src : Nat) (less : n ≤ count) : (m.copy dst src count).read dst n = m.read src n := by
  refine List.map_congr_left fun i inside => ?_
  have := List.mem_range.mp inside
  simp only [copy]
  rw [if_pos (by omega), Nat.add_sub_cancel_left]

end Memory

theorem Chained.room (chained : Chained m P bs fs) (inside : b ∈ bs) :
    P.startAddr ≤ b ∧ b + memheapSize + m.itemSize b + memheapSize ≤ P.startAddr + P.poolSize := by
  have ends := chained.next_eq inside
  have low := (chained.inside_pool (List.mem_cons_of_mem _ inside)).1
  have high := (chained.inside_pool (chained.after inside).2.1).2
  exact ⟨low, by omega⟩

/-- From the pointer that a caller holds back to the header. -/
theorem Chained.header_back (chained : Chained m P bs fs) (inside : b ∈ bs) :
    sub32 (b + memheapSize) memheapSize = b := by
  have bounds := chained.room inside
  have high := chained.placed.high
  unfold memheapSize at *
  rw [sub32_eq (by omega) (by omega), Nat.add_sub_cancel]

theorem pointer_ne_zero (b : Nat) : b + memheapSize ≠ 0 := Nat.ne_of_gt (Nat.add_pos_right b (by decide))

/-- No header lies in a block. -/
theorem Chained.header_clear (chained : Chained m P bs fs) (inside : b ∈ bs) (here : a ∈ P.headers bs) :
    a ≤ b ∨ b + memheapSize + m.itemSize b ≤ a := by
  have ends := chained.next_eq inside
  rcases List.mem_cons.mp here with rfl | here
  · have := chained.placed.apart
    have := chained.room inside
    omega
  · rw [← ends]
    exact (chained.after inside).2.2 a here

namespace Sound

theorem fresh (sound : Sound Z s live L) (free : (s.mem.items b).isUsed = false) : live (b + memheapSize) = none := by
  cases found : live (b + memheapSize) with
  | none => rfl
  | some data =>
    obtain ⟨j, _, c, amount, same, inUse, _⟩ := sound.held _ data found
    have : b = c := Nat.add_right_cancel same
    subst this
    rw [inUse.2.1] at free
    cases free

/-- Two blocks in use do not overlap, whatever the heaps they are in. -/
theorem apart (sound : Sound Z s live L) (first : j ∈ Z.order) (second : k ∈ Z.order)
    (here : Occupied s.mem (L j) b amount) (there : Occupied s.mem (L k) c size) (other : b ≠ c) :
    b + memheapSize + amount ≤ c ∨ c + memheapSize + size ≤ b := by
  obtain ⟨_, left⟩ := sound.formed j first
  obtain ⟨_, right⟩ := sound.formed k second
  have ends := left.chained.next_eq here.1
  have ends' := right.chained.next_eq there.1
  rw [here.2.2] at ends
  rw [there.2.2] at ends'
  by_cases own : j = k
  · subst own
    rcases (left.chained.after here.1).2.2 c (List.mem_cons_of_mem _ there.1) with low | high
    · rcases (left.chained.after there.1).2.2 b (List.mem_cons_of_mem _ here.1) with low' | high'
      · exact absurd (Nat.le_antisymm low' low) other
      · right
        omega
    · left
      omega
  · have room := left.chained.room here.1
    have room' := right.chained.room there.1
    rw [here.2.2] at room
    rw [there.2.2] at room'
    by_contra overlap
    have separate := Z.separate j first k second own
    unfold memheapSize at room room' overlap
    rcases Nat.le_total b c with less | less
    · exact separate c (.inl ⟨by omega, by omega⟩) (.inl ⟨by omega, by omega⟩)
    · exact separate b (.inl ⟨by omega, by omega⟩) (.inl ⟨by omega, by omega⟩)

/-- The holder of a block stores something there. -/
theorem store (sound : Sound Z s live L) (here : k ∈ Z.order) (inUse : Occupied s.mem (L k) b amount)
    (items : ∀ a, a ≤ b ∨ b + memheapSize + amount ≤ a → m'.items a = s.mem.items a)
    (bytes : ∀ x, x < b + memheapSize ∨ b + memheapSize + amount ≤ x → m'.bytes x = s.mem.bytes x)
    (fits : data.length ≤ amount) (stored : m'.read (b + memheapSize) data.length = data) :
    Sound Z { s with mem := m' } (Function.update live (b + memheapSize) (some data)) L := by
  obtain ⟨_, owner⟩ := sound.formed k here
  have same : ∀ j ∈ Z.order, ∀ a ∈ (Z.pools j).headers (L j), m'.items a = s.mem.items a := by
    intro j there a head
    refine items a ?_
    have clear := inUse.2.2
    by_cases own : j = k
    · subst own
      have := owner.chained.header_clear inUse.1 head
      omega
    · obtain ⟨_, other⟩ := sound.formed j there
      have room := owner.chained.room inUse.1
      have holds := fun x => other.chained.holds (x := x) head
      by_contra overlap
      exact Z.separate j there k here own a (holds a (Nat.le_refl _) (by unfold memheapSize; omega))
        (.inl ⟨by omega, by omega⟩)
  have occupied : ∀ j ∈ Z.order, ∀ c size, Occupied m' (L j) c size ↔ Occupied s.mem (L j) c size := by
    intro j there c size
    unfold Occupied
    refine and_congr_right fun inside => ?_
    rw [Memory.itemSize, same j there c (Chained.block_mem (List.mem_cons_of_mem _ inside)), Memory.itemSize]
  refine ⟨sound.order, fun j there => ?_, fun p old lent => ?_, fun j there c size used => ?_⟩
  · obtain ⟨fs, formed⟩ := sound.formed j there
    exact ⟨fs, formed.congr (same j there)⟩
  · by_cases own : p = b + memheapSize
    · rw [own, Function.update_self, Option.some.injEq] at lent
      subst lent
      exact ⟨k, here, b, amount, own, (occupied k here b amount).mpr inUse, fits, own ▸ stored⟩
    · rw [Function.update_of_ne own] at lent
      obtain ⟨j, there, c, size, rfl, used, fits', same'⟩ := sound.held p old lent
      refine ⟨j, there, c, size, rfl, (occupied j there c size).mpr used, fits', ?_⟩
      have other : b ≠ c := fun same => own (by rw [same])
      refine (Memory.read_congr fun i less => bytes _ ?_).trans same'
      have := sound.apart here there inUse used other
      omega
  · have before := (occupied j there c size).mp used
    by_cases own : c + memheapSize = b + memheapSize
    · rw [own, Function.update_self]
      rfl
    · rw [Function.update_of_ne own]
      exact sound.known j there c size before

/-- A block is given back. -/
theorem free (sound : Sound Z s live L) (lent : live ptr = some data) :
    ∃ t L', s.rtMemheapFree ptr = some t ∧ Sound Z t (Function.update live ptr none) L' := by
  obtain ⟨k, here, b, amount, rfl, inUse, _⟩ := sound.held ptr data lent
  obtain ⟨fs, formed⟩ := sound.formed k here
  have chained := formed.chained
  have real := chained.genuine b (List.mem_cons_of_mem _ inUse.1)
  have next := chained.genuine _ (chained.after inUse.1).2.1
  obtain ⟨bs', fs', formed', same, keeps⟩ := freeBlock_spec formed inUse.1 inUse.2.1
  refine ⟨s.set k (freeBlock s.mem (s.heaps k) b).1 (freeBlock s.mem (s.heaps k) b).2, Function.update L k bs', ?_, ?_⟩
  · unfold Heaps.rtMemheapFree
    rw [if_neg (pointer_ne_zero b)]
    simp only [chained.header_back inUse.1, real, inUse.2.1, next.1, Z.named k here, Bool.and_self, if_true]
  · refine sound.change here formed' (keeps.mono (List.subset_append_left _ _)) (fun p old lent' => ?_)
      (fun c size used => ?_) fun q lentq away => ?_
    · right
      by_cases own : p = b + memheapSize
      · rw [own, Function.update_self] at lent'
        cases lent'
      · rw [Function.update_of_ne own] at lent'
        refine ⟨lent', fun c size at' used => (same c size).mpr ⟨used, ?_⟩⟩
        rintro rfl
        exact own at'
    · obtain ⟨used, other⟩ := (same c size).mp used
      rw [Function.update_of_ne fun at' => other (Nat.add_right_cancel at')]
      exact sound.known k here c size used
    · rw [Function.update_of_ne fun at' => away b amount at' inUse]
      exact lentq

end Sound

/-- No free block of the heap `k` takes the request, or all of them together are not more than it. -/
def Heaps.Short (s : Heaps) (k size : Nat) : Prop :=
  ((s.freeBlocks k).map s.mem.itemSize).sum ≤ served size ∨ ∀ b ∈ s.freeBlocks k, s.mem.itemSize b < served size

/-- `ptr` is a new block of at least `size` bytes; its holder may use any number of them. -/
structure Fresh (Z : Layout) (live : Nat → Option (List UInt8)) (size : Nat) (t : Heaps) (ptr : Nat) : Prop where
  valid : ptr ≠ 0
  unused : live ptr = none
  sound : ∃ L', ∀ n ≤ size, Sound Z t (Function.update live ptr (some (t.mem.read ptr n))) L'

namespace Sound

theorem alloc (sound : Sound Z s live L) (here : k ∈ Z.order) (request : Nat) :
    s.alloc k request = some (s, 0) ∧ s.Short k request ∨
    ¬ s.Short k request ∧ ∃ t ptr, s.alloc k request = some (t, ptr) ∧ Fresh Z live (served request) t ptr := by
  obtain ⟨fs, formed⟩ := sound.formed k here
  rcases rtMemheapAlloc_spec formed request with ⟨failed, short⟩ |
    ⟨m', h', p, bs', fs', called, room, ⟨listed, fits⟩, formed', enough, same, keeps⟩
  · refine .inl ⟨?_, ?_⟩
    · rw [Heaps.alloc, failed]
      exact congrArg (fun u => some (u, 0)) (Heaps.set_same s k)
    · rw [Heaps.Short, formed.freeBlocks_eq (Z.named k here), formed.free_sum]
      exact short
  · have inside := formed.chained.subset listed
    have free := (formed.listed p inside).mp listed
    have unused := sound.fresh free
    refine .inr ⟨?_, s.set k m' h', p + memheapSize, ?_, pointer_ne_zero p, unused,
      Function.update L k bs', fun n most => ?_⟩
    · rw [Heaps.Short, formed.freeBlocks_eq (Z.named k here), formed.free_sum]
      rintro (low | small)
      · omega
      · exact absurd (small p listed) (Nat.not_lt.mpr fits)
    · rw [Heaps.alloc, called]
      rfl
    · refine sound.change here formed' keeps (fun q old lent => ?_) (fun c size used => ?_) fun q lent _ => ?_
      · by_cases own : q = p + memheapSize
        · rw [own, Function.update_self, Option.some.injEq] at lent
          subst lent
          rw [Memory.length_read]
          exact .inl ⟨p, m'.itemSize p, own, (same p _).mpr (.inr ⟨rfl, rfl⟩), Nat.le_trans most enough, own ▸ rfl⟩
        · rw [Function.update_of_ne own] at lent
          exact .inr ⟨lent, fun c size _ used => (same c size).mpr (.inl used)⟩
      · by_cases own : c + memheapSize = p + memheapSize
        · rw [own, Function.update_self]
          rfl
        · rw [Function.update_of_ne own]
          rcases (same c size).mp used with used | ⟨at', _⟩
          · exact sound.known k here c size used
          · exact absurd (by rw [at']) own
      · rw [Function.update_of_ne]
        · exact lent
        · rintro rfl
          rw [unused] at lent
          cases lent

/-- The heaps are tried one after another; those that fail stay as they are. -/
theorem tryAll (sound : Sound Z s live L) (request : Nat) (ks : List Nat) (known : ks ⊆ Z.order) :
    s.tryAll request ks = some (s, 0) ∧ (∀ k ∈ ks, s.Short k request) ∨
    (∃ k ∈ ks, ¬ s.Short k request) ∧
      ∃ t ptr, s.tryAll request ks = some (t, ptr) ∧ Fresh Z live (served request) t ptr := by
  induction ks with
  | nil => exact .inl ⟨rfl, fun k inside => absurd inside List.not_mem_nil⟩
  | cons k ks ih =>
    obtain ⟨here, rest⟩ := List.cons_subset.mp known
    rcases sound.alloc here request with ⟨called, short⟩ | ⟨enough, t, ptr, called, fresh⟩
    · have next : s.tryAll request (k :: ks) = s.tryAll request ks := by
        rw [Heaps.tryAll, called]
        rfl
      rw [next]
      refine (ih rest).imp (And.imp_right fun all => ?_) (And.imp_left ?_)
      · exact List.forall_mem_cons.mpr ⟨short, all⟩
      · rintro ⟨j, inside, enough⟩
        exact ⟨j, List.mem_cons_of_mem _ inside, enough⟩
    · refine .inr ⟨⟨k, List.mem_cons_self, enough⟩, t, ptr, ?_, fresh⟩
      rw [Heaps.tryAll, called]
      exact if_neg fresh.valid

theorem malloc (sound : Sound Z s live L) (request : Nat) :
    s.rtMalloc request = some (s, 0) ∧ (∀ k ∈ Z.order, s.Short k request) ∨
    (∃ k ∈ Z.order, ¬ s.Short k request) ∧
      ∃ t ptr, s.rtMalloc request = some (t, ptr) ∧ Fresh Z live (served request) t ptr := by
  rw [Heaps.rtMalloc, sound.order]
  exact sound.tryAll request Z.order (List.Subset.refl _)

end Sound

theorem resized_same (live : Nat → Option (List UInt8)) (data : List UInt8) (m : Memory) (ptr newsize : Nat) :
    resized live data m ptr ptr newsize = Function.update live ptr (some (data.take newsize ++
      m.read (ptr + (data.take newsize).length) (newsize - (data.take newsize).length))) :=
  Function.update_idem ..

theorem length_kept (data rest : List UInt8) (newsize : Nat)
    (whole : rest.length = newsize - (data.take newsize).length) :
    (data.take newsize ++ rest).length = newsize := by
  have := List.length_take_le newsize data
  rw [List.length_append]
  omega

theorem Fresh.other (fresh : Fresh Z live size t new) (lent : live ptr = some data) : ptr ≠ new := by
  rintro rfl
  have unused := fresh.unused
  rw [lent] at unused
  cases unused

/-- The data of a block is copied into a new block, and the old one is given back. -/
theorem Fresh.relocate (fresh : Fresh Z live size t new) (lent : live ptr = some data) (count newsize : Nat)
    (small : count ≤ size) (enough : (data.take newsize).length ≤ count) (fits : newsize ≤ size) :
    ∃ u L', ({ t with mem := t.mem.copy new ptr count } : Heaps).rtMemheapFree ptr = some u ∧
      Sound Z u (resized live data u.mem ptr new newsize) L' := by
  obtain ⟨L1, any⟩ := fresh.sound
  have sound := any size (Nat.le_refl _)
  have other := fresh.other lent
  have still : Function.update live new (some (t.mem.read new size)) ptr = some data := by
    rw [Function.update_of_ne other, lent]
  -- the data of the old block is where it was, so this is what the copy reads
  obtain ⟨_, _, _, _, _, _, _, same⟩ := sound.held ptr data still
  obtain ⟨k, here, b, amount, place, inUse, room, _⟩ := sound.held new _ (Function.update_self ..)
  rw [Memory.length_read] at room
  have stored : Sound Z { t with mem := t.mem.copy new ptr count }
      (Function.update (Function.update live new (some (t.mem.read new size))) new
        (some ((t.mem.copy new ptr count).read new size))) L1 := by
    subst place
    refine sound.store here inUse (fun a clear => if_neg ?_) (fun x clear => if_neg ?_) ?_ ?_
    · omega
    · omega
    · rw [Memory.length_read]
      exact room
    · rw [Memory.length_read]
  have lent' : Function.update (Function.update live new (some (t.mem.read new size))) new
      (some ((t.mem.copy new ptr count).read new size)) ptr = some data := by
    rw [Function.update_of_ne other, still]
  obtain ⟨u, L2, freed, sound'⟩ := stored.free lent'
  refine ⟨u, L2, freed, ?_⟩
  have there : Function.update (Function.update (Function.update live new (some (t.mem.read new size))) new
      (some ((t.mem.copy new ptr count).read new size))) ptr none new =
        some ((t.mem.copy new ptr count).read new size) := by
    rw [Function.update_of_ne (Ne.symm other), Function.update_self]
  obtain ⟨k, here, b, amount, place, inUse, room, content⟩ := sound'.held new _ there
  rw [Memory.length_read] at room content
  have short : (data.take newsize).length ≤ size := Nat.le_trans enough small
  have kept : u.mem.read new (data.take newsize).length = data.take newsize := by
    rw [← Memory.take_read _ _ short, content, Memory.take_read _ _ short, Memory.copy_read _ _ _ enough]
    exact Memory.read_part same newsize
  have final := sound'.store here inUse (fun a _ => (rfl : u.mem.items a = _)) (fun _ _ => rfl)
    ((Nat.le_of_eq (length_kept data _ newsize (Memory.length_read ..))).trans (Nat.le_trans fits room))
    (place ▸ Memory.read_kept u.mem new kept _)
  rw [← place] at final
  have result : resized live data u.mem ptr new newsize =
      Function.update (Function.update (Function.update (Function.update live new (some (t.mem.read new size))) new
        (some ((t.mem.copy new ptr count).read new size))) ptr none) new (some (data.take newsize ++
          u.mem.read (new + (data.take newsize).length) (newsize - (data.take newsize).length))) := by
    unfold resized
    rw [Function.update_idem, Function.update_comm (Ne.symm other), Function.update_idem]
  rw [result]
  exact final

/-- A block in use is made larger or smaller where it is. -/
theorem Sound.resize (sound : Sound Z s live L) (here : k ∈ Z.order) (inUse : Occupied s.mem (L k) b size)
    (lent : live (b + memheapSize) = some data) (fits : data.length ≤ size)
    (content : s.mem.read (b + memheapSize) data.length = data) (formed : Formed m' (Z.pools k) h' bs' fs')
    (same : ∀ c n, Occupied m' bs' c n ↔ Occupied s.mem (L k) c n ∧ c ≠ b ∨ c = b ∧ n = amount)
    (keeps : Memory.Keeps ((Z.pools k).headers (L k) ++ (Z.pools k).headers bs') s.mem m') (enough : newsize ≤ amount) :
    Sound Z (s.set k m' h') (resized live data m' (b + memheapSize) (b + memheapSize) newsize)
      (Function.update L k bs') := by
  obtain ⟨_, before⟩ := sound.formed k here
  have now : Occupied m' bs' b amount := (same b amount).mpr (.inr ⟨rfl, rfl⟩)
  have part : (data.take newsize).length ≤ data.length ∧ (data.take newsize).length ≤ newsize := by
    rw [List.length_take]
    omega
  have kept : m'.read (b + memheapSize) (data.take newsize).length = data.take newsize := by
    refine (Memory.read_congr fun i less => keeps.bytes _ fun a inside => ?_).trans (Memory.read_part content newsize)
    rcases List.mem_append.mp inside with first | second
    · exact before.chained.payload_clear inUse.1 (by rw [inUse.2.2]; omega) first
    · exact formed.chained.payload_clear now.1 (by rw [now.2.2]; omega) second
  rw [resized_same]
  refine sound.change here formed keeps (fun q old there => ?_) (fun c n used => ?_) fun q there away => ?_
  · by_cases own : q = b + memheapSize
    · rw [own, Function.update_self, Option.some.injEq] at there
      subst there
      refine .inl ⟨b, amount, own, now, ?_, own ▸ Memory.read_kept m' _ kept _⟩
      rw [length_kept data _ newsize (Memory.length_read ..)]
      exact enough
    · rw [Function.update_of_ne own] at there
      refine .inr ⟨there, fun c n at' used => (same c n).mpr (.inl ⟨used, ?_⟩)⟩
      rintro rfl
      exact own at'
  · rcases (same c n).mp used with ⟨used, other⟩ | ⟨rfl, _⟩
    · rw [Function.update_of_ne fun at' => other (Nat.add_right_cancel at')]
      exact sound.known k here c n used
    · rw [Function.update_self]
      rfl
  · rw [Function.update_of_ne fun at' => away b size at' inUse]
    exact there

theorem served_served {request : Nat} (small : request + 15 < 2 ^ 32) :
    request ≤ served request ∧ served request + 12 < 2 ^ 32 ∧ served request ≤ served (served request) := by
  have most : served request ≤ request + 3 ∨ served request = 12 := by
    unfold served rtAlign u32 memheapMinialloc
    split <;> omega
  have enough : request ≤ served request := le_served (by omega)
  have even := served_dvd request
  refine ⟨enough, by omega, le_served (by omega)⟩

/-- `rt_memheap_realloc` moves a block, makes it larger or smaller where it is, or fails. -/
theorem Sound.reallocIn (sound : Sound Z s live L) (lent : live ptr = some data) (positive : newsize ≠ 0)
    (small : newsize + 15 < 2 ^ 32) :
    s.rtMemheapRealloc (s.mem.items (sub32 ptr memheapSize)).poolPtr ptr newsize = some (s, 0) ∨
    ∃ t new L', s.rtMemheapRealloc (s.mem.items (sub32 ptr memheapSize)).poolPtr ptr newsize = some (t, new) ∧
      new ≠ 0 ∧ Sound Z t (resized live data t.mem ptr new newsize) L' := by
  obtain ⟨k, here, b, amount, rfl, inUse, room, content⟩ := sound.held ptr data lent
  obtain ⟨fs, formed⟩ := sound.formed k here
  have chained := formed.chained
  have bounds := chained.room inUse.1
  have ends := chained.next_eq inUse.1
  have high := chained.placed.high
  have less := chained.small
  rw [inUse.2.2] at bounds ends
  have owner := (chained.genuine b (List.mem_cons_of_mem _ inUse.1)).2
  rw [Z.named k here] at owner
  obtain ⟨enough, top, again⟩ := served_served small
  have valid := pointer_ne_zero b
  unfold Heaps.rtMemheapRealloc
  rw [if_neg positive, chained.header_back inUse.1, owner]
  dsimp only
  rw [if_neg valid, inUse.2.2]
  by_cases larger : served newsize > amount
  · rw [if_pos larger, if_pos (by unfold memheapSize at ends; omega)]
    by_cases fits : (!(s.mem.items (s.mem.items b).next).isUsed &&
        decide (u32 (s.mem.itemSize (s.mem.items b).next + amount) > u32 (served newsize + memheapMinialloc))) = true
    · right
      rw [if_pos fits]
      obtain ⟨free, spare⟩ := Bool.and_eq_true_iff.mp fits
      have free : (s.mem.items (s.mem.items b).next).isUsed = false := by simpa using free
      have behind : (s.mem.items b).next ∈ L k := by
        refine (List.mem_cons.mp (chained.after inUse.1).2.1).resolve_left fun same => ?_
        rw [same, formed.tailUsed] at free
        cases free
      have bounds' := chained.room behind
      have spare := of_decide_eq_true spare
      rw [u32_eq (by omega), u32_eq (by unfold memheapMinialloc; omega)] at spare
      have more : s.mem.itemSize b < served newsize := by
        rw [inUse.2.2]
        exact larger
      have grows : served newsize + memheapMinialloc < s.mem.itemSize (s.mem.items b).next + s.mem.itemSize b := by
        rw [inUse.2.2]
        exact spare
      obtain ⟨bs', fs', formed', same, keeps⟩ :=
        growBlock_spec formed inUse.1 inUse.2.1 free (served_dvd newsize) more grows
      generalize growBlock s.mem (s.heaps k) b (served newsize) = result at *
      exact ⟨s.set k result.1 result.2, b + memheapSize, _, rfl, valid,
        sound.resize here inUse lent room content formed' same keeps enough⟩
    · rw [if_neg fits]
      rcases sound.alloc here (served newsize) with ⟨called, _⟩ | ⟨_, t, new, called, fresh⟩
      · left
        rw [called]
        rfl
      · right
        obtain ⟨u, L', freed, sound'⟩ := fresh.relocate lent (min amount (served newsize)) newsize
          (by omega) (by rw [List.length_take]; omega) (by omega)
        refine ⟨u, new, L', ?_, fresh.valid, sound'⟩
        rw [called, Option.bind_some]
        dsimp only
        rw [if_neg fresh.valid, freed]
        rfl
  · right
    rw [if_neg larger, u32_eq (by unfold memheapSize memheapMinialloc at *; omega)]
    by_cases near : served newsize + memheapSize + memheapMinialloc ≥ amount
    · rw [if_pos near]
      refine ⟨s, b + memheapSize, L, rfl, valid, ?_⟩
      rw [resized_same]
      exact sound.store here inUse (fun _ _ => rfl) (fun _ _ => rfl)
        ((Nat.le_of_eq (length_kept data _ newsize (Memory.length_read ..))).trans (by omega))
        (Memory.read_kept s.mem _ (Memory.read_part content newsize) _)
    · rw [if_neg near]
      have cuts : served newsize + memheapSize + memheapMinialloc < s.mem.itemSize b := by
        rw [inUse.2.2]
        exact Nat.not_le.mp near
      obtain ⟨bs', fs', formed', same, keeps⟩ :=
        shrinkBlock_spec formed inUse.1 inUse.2.1 (served_dvd newsize) cuts
      generalize shrinkBlock s.mem (s.heaps k) b (served newsize) = result at *
      exact ⟨s.set k result.1 result.2, b + memheapSize, _, rfl, valid,
        sound.resize here inUse lent room content formed' same keeps enough⟩

end RemoteBoot.Kernel
