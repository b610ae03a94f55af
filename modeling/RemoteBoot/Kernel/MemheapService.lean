import RemoteBoot.Kernel.MemheapSafety

/-! The heaps of the board in service: they are put in order at the start, and calls that
hand back only what they were lent keep them so. -/
namespace RemoteBoot.Kernel
open Transition

variable {m : Memory} {Z : Layout} {s t : Heaps} {live : Nat → Option (List UInt8)} {L : Nat → List Nat}
  {data : List UInt8} {k n amount size count newsize ptr new : Nat} {r : Region} {regions : List Region}

theorem Memory.fill_all (m : Memory) (ptr n : Nat) (value : UInt8) :
    (m.fill ptr value n).read ptr n = List.replicate n value := by
  refine List.eq_replicate_iff.mpr ⟨Memory.length_read .., fun x inside => ?_⟩
  obtain ⟨i, within, rfl⟩ := List.mem_map.mp inside
  have := List.mem_range.mp within
  simp only [fill]
  rw [if_pos (by omega)]

theorem Memory.fill_one (m : Memory) (ptr n i : Nat) (value : UInt8) :
    (m.fill (ptr + i) value 1).read ptr n = (m.read ptr n).set i value := by
  refine List.ext_getElem (by rw [List.length_set, Memory.length_read, Memory.length_read]) fun j first _ => ?_
  rw [List.getElem_set]
  simp only [read, List.getElem_map, List.getElem_range, fill]
  by_cases same : i = j
  · rw [if_pos same, if_pos (by omega)]
  · rw [if_neg same, if_neg (by omega)]

theorem Sound.nothing_at_zero (sound : Sound Z s live L) : live 0 = none := by
  cases found : live 0 with
  | none => rfl
  | some data =>
    obtain ⟨_, _, b, _, same, _⟩ := sound.held 0 data found
    exact absurd same.symm (pointer_ne_zero b)

/-- A lent block is filled with one value from `offset` on. -/
theorem Sound.fill (sound : Sound Z s live L) (lent : live ptr = some data) (offset count : Nat) (value : UInt8)
    (within : offset + count ≤ data.length) (filled : List UInt8) (same : filled.length = data.length)
    (stored : (s.mem.fill (ptr + offset) value count).read ptr data.length = filled) :
    Sound Z { s with mem := s.mem.fill (ptr + offset) value count } (Function.update live ptr (some filled)) L := by
  obtain ⟨k, here, b, amount, rfl, inUse, room, _⟩ := sound.held ptr data lent
  refine sound.store here inUse (fun a clear => if_neg ?_) (fun x clear => if_neg ?_) (same ▸ room) (same ▸ stored)
  · omega
  · omega

theorem Fresh.lend (fresh : Fresh Z live size t ptr) (most : n ≤ size) :
    ∃ L', Sound Z t (Function.update live ptr (some (t.mem.read ptr n))) L' :=
  fresh.sound.imp fun _ any => any n most

theorem Fresh.cleared (fresh : Fresh Z live size t ptr) (most : n ≤ size) :
    ∃ L', Sound Z { t with mem := t.mem.fill ptr 0 n } (Function.update live ptr (some (List.replicate n 0))) L' := by
  obtain ⟨L', sound⟩ := fresh.lend most
  have filled := sound.fill (Function.update_self ..) 0 n 0 (by rw [Memory.length_read, Nat.zero_add])
    (List.replicate n 0) (by rw [List.length_replicate, Memory.length_read])
    (by rw [Memory.length_read, Nat.add_zero, Memory.fill_all])
  rw [Nat.add_zero, Function.update_idem] at filled
  exact ⟨L', filled⟩

/-- Where a new block is, and how many bytes it has. -/
theorem Fresh.block (fresh : Fresh Z live size t ptr) :
    size ≤ t.mem.itemSize (sub32 ptr memheapSize) ∧ t.mem.itemSize (sub32 ptr memheapSize) + 2 * memheapSize < 2 ^ 32 ∧
      sub32 ptr memheapSize + memheapSize = ptr := by
  obtain ⟨_, home⟩ := fresh.lend (Nat.le_refl _)
  obtain ⟨k, here, b, amount, rfl, inUse, room, _⟩ := home.held ptr _ (Function.update_self ..)
  obtain ⟨_, formed⟩ := home.formed k here
  have bounds := formed.chained.room inUse.1
  have low := formed.chained.placed.low
  have high := formed.chained.placed.high
  rw [Memory.length_read] at room
  rw [formed.chained.header_back inUse.1, inUse.2.2]
  rw [inUse.2.2] at bounds
  exact ⟨room, by omega, rfl⟩

/-- `rt_realloc` of a lent block: where its heap fails, the others are tried. -/
theorem Sound.realloc (sound : Sound Z s live L) (lent : live ptr = some data) (positive : newsize ≠ 0)
    (small : newsize + 15 < 2 ^ 32) :
    s.rtRealloc ptr newsize = some (s, 0) ∨
    ∃ t new L', s.rtRealloc ptr newsize = some (t, new) ∧ new ≠ 0 ∧
      Sound Z t (resized live data t.mem ptr new newsize) L' := by
  have valid : ptr ≠ 0 := by
    rintro rfl
    rw [sound.nothing_at_zero] at lent
    cases lent
  have fits := (served_served small).1
  unfold Heaps.rtRealloc
  rw [if_neg valid, if_neg positive]
  dsimp only
  rcases sound.reallocIn lent positive small with failed | ⟨t, new, L', called, other, sound'⟩
  · rw [failed]
    rcases sound.malloc newsize with ⟨called, _⟩ | ⟨_, t, new, called, fresh⟩
    · left
      simp only [Option.bind_some, called]
      rfl
    · right
      obtain ⟨_, home⟩ := fresh.lend (n := 0) (Nat.zero_le _)
      have still := (Function.update_of_ne (fresh.other lent) (some (t.mem.read new 0)) live).trans lent
      obtain ⟨k, here, b, amount, place, inUse, room, _⟩ := home.held ptr data still
      obtain ⟨_, formed⟩ := home.formed k here
      have header : sub32 ptr memheapSize = b := place ▸ formed.chained.header_back inUse.1
      obtain ⟨u, L', freed, sound'⟩ := fresh.relocate lent
        (if newsize > amount then amount else newsize) newsize
        (by split <;> omega) (by rw [List.length_take]; split <;> omega) fits
      refine ⟨u, new, L', ?_, fresh.valid, sound'⟩
      simp only [Option.bind_some, called, if_true]
      rw [if_neg fresh.valid, header, inUse.2.2, Heaps.rtFree, freed]
      rfl
  · right
    refine ⟨t, new, L', ?_, other, sound'⟩
    simp only [called, Option.bind_some]
    exact if_neg other

theorem Sound.forget_zero (sound : Sound Z s live L) : Function.update live 0 none = live := by
  rw [← sound.nothing_at_zero, Function.update_eq_self]

/-! Each call of a careful caller returns, and the heaps stay in order. -/

namespace Loans
variable {s : Loans}

theorem malloc_sound (sound : Sound Z s.toHeaps s.live L) (honest : s.Honest (.malloc size)) :
    ∃ t L', s.step (.malloc size) = some t ∧ Sound Z t.toHeaps t.live L' := by
  rcases sound.malloc size with ⟨called, _⟩ | ⟨_, t, ptr, called, fresh⟩
  · refine ⟨s.lend s.toHeaps 0 (s.mem.read 0 size), L, ?_, sound⟩
    rw [step, called]
    rfl
  · obtain ⟨L', sound'⟩ := fresh.lend (le_served honest)
    refine ⟨s.lend t ptr (t.mem.read ptr size), L', ?_, ?_⟩
    · rw [step, called]
      rfl
    · rw [lend, if_neg fresh.valid]
      exact sound'

theorem calloc_sound (sound : Sound Z s.toHeaps s.live L) (honest : s.Honest (.calloc count size)) :
    ∃ t L', s.step (.calloc count size) = some t ∧ Sound Z t.toHeaps t.live L' := by
  have whole : u32 (count * size) = count * size := u32_eq (Nat.lt_of_le_of_lt (Nat.le_add_right ..) honest)
  have most := le_served honest
  rcases sound.malloc (count * size) with ⟨called, _⟩ | ⟨_, t, ptr, called, fresh⟩
  · refine ⟨s.lend s.toHeaps 0 (List.replicate (count * size) 0), L, ?_, sound⟩
    rw [step, Heaps.rtCalloc, whole, called]
    rfl
  · obtain ⟨L', sound'⟩ := fresh.cleared most
    refine ⟨s.lend { t with mem := t.mem.fill ptr 0 (count * size) } ptr (List.replicate (count * size) 0), L', ?_, ?_⟩
    · rw [step, Heaps.rtCalloc, whole, called]
      simp only [Option.bind_some, if_neg fresh.valid, if_pos (Nat.le_trans most fresh.block.1), Option.map_some]
    · rw [lend, if_neg fresh.valid]
      exact sound'

/-- `rt_realloc` of no block is `rt_malloc`. -/
theorem realloc_zero_sound (sound : Sound Z s.toHeaps s.live L) (small : newsize + 15 < 2 ^ 32) :
    ∃ t L', s.step (.realloc 0 newsize) = some t ∧ Sound Z t.toHeaps t.live L' := by
  have fits := (served_served small).1
  rcases sound.malloc newsize with ⟨called, _⟩ | ⟨_, t, new, called, fresh⟩
  · refine ⟨{ s.toHeaps with live := if newsize = 0 then Function.update s.live 0 none else s.live }, L, ?_, ?_⟩
    · rw [step, Heaps.rtRealloc, if_pos rfl, called]
      rfl
    · dsimp only
      rw [sound.forget_zero, ite_self]
      exact sound
  · obtain ⟨L', sound'⟩ := fresh.lend fits
    refine ⟨{ t with live := resized s.live ((s.live 0).getD []) t.mem 0 new newsize }, L', ?_, ?_⟩
    · rw [step, Heaps.rtRealloc, if_pos rfl, called]
      exact congrArg some (if_neg fresh.valid)
    · dsimp only
      rw [resized, sound.forget_zero, sound.nothing_at_zero]
      simpa only [Option.getD_none, List.take_nil, List.length_nil, List.nil_append, Nat.add_zero, Nat.sub_zero]
        using sound'

theorem realloc_sound (sound : Sound Z s.toHeaps s.live L) (honest : s.Honest (.realloc ptr newsize)) :
    ∃ t L', s.step (.realloc ptr newsize) = some t ∧ Sound Z t.toHeaps t.live L' := by
  obtain ⟨rfl | mine, small⟩ := honest
  · exact realloc_zero_sound sound small
  have valid : ptr ≠ 0 := by
    rintro rfl
    rw [sound.nothing_at_zero] at mine
    cases mine
  obtain ⟨data, lent⟩ := Option.isSome_iff_exists.mp mine
  by_cases freed : newsize = 0
  · subst freed
    obtain ⟨t, L', called, sound'⟩ := sound.free lent
    refine ⟨{ t with live := Function.update s.live ptr none }, L', ?_, sound'⟩
    rw [step, Heaps.rtRealloc, if_neg valid, if_pos rfl, Heaps.rtFree, called]
    rfl
  · rcases sound.realloc lent freed small with called | ⟨t, new, L', called, other, sound'⟩
    · refine ⟨s, L, ?_, sound⟩
      rw [step, called]
      simp only [Option.map_some, if_true, if_neg freed]
    · refine ⟨{ t with live := resized s.live ((s.live ptr).getD []) t.mem ptr new newsize }, L', ?_, ?_⟩
      · rw [step, called]
        exact congrArg some (if_neg other)
      · rw [lent]
        exact sound'

theorem free_sound (sound : Sound Z s.toHeaps s.live L) (honest : s.Honest (.free ptr)) :
    ∃ t L', s.step (.free ptr) = some t ∧ Sound Z t.toHeaps t.live L' := by
  rcases honest with rfl | mine
  · refine ⟨{ s.toHeaps with live := Function.update s.live 0 none }, L, rfl, ?_⟩
    dsimp only
    rw [sound.forget_zero]
    exact sound
  · obtain ⟨data, lent⟩ := Option.isSome_iff_exists.mp mine
    obtain ⟨t, L', called, sound'⟩ := sound.free lent
    refine ⟨{ t with live := Function.update s.live ptr none }, L', ?_, sound'⟩
    rw [step, Heaps.rtFree, called]
    rfl

theorem write_sound {index : Nat} {value : UInt8} (sound : Sound Z s.toHeaps s.live L)
    (honest : s.Honest (.write ptr index value)) :
    ∃ t L', s.step (.write ptr index value) = some t ∧ Sound Z t.toHeaps t.live L' := by
  obtain ⟨data, lent, within⟩ := honest
  obtain ⟨_, _, _, _, _, _, _, content⟩ := sound.held ptr data lent
  refine ⟨_, L, rfl, ?_⟩
  dsimp only
  rw [lent]
  refine sound.fill lent index 1 value within _ (List.length_set ..) ?_
  rw [Memory.fill_one, content]

theorem step_sound {call : HeapCall} (sound : Sound Z s.toHeaps s.live L) (honest : s.Honest call) :
    ∃ t L', s.step call = some t ∧ Sound Z t.toHeaps t.live L' := by
  cases call with
  | malloc size => exact malloc_sound sound honest
  | calloc count size => exact calloc_sound sound honest
  | realloc rmem newsize => exact realloc_sound sound honest
  | free rmem => exact free_sound sound honest
  | write ptr index value => exact write_sound sound honest

end Loans

/-! ### The start -/

/-- The pools of the regions have their places, and no two of them overlap. -/
def Laid (regions : List Region) : Prop :=
  (∀ r ∈ regions, r.pool.Placed) ∧ regions.Pairwise fun q r => Separate q.pool r.pool

theorem Heaps.mem_add (s : Heaps) (r : Region) : k ∈ (s.add r).order ↔ k = r.freeHeader ∨ k ∈ s.order := by
  obtain ⟨_, _, order⟩ := s
  cases order with
  | nil => exact List.mem_singleton.trans (by simp)
  | cons system others =>
    simp only [add, List.mem_cons]
    tauto

theorem Pool.holds_header (P : Pool) : P.Holds P.freeHeader :=
  .inr ⟨Nat.le_refl _, Nat.lt_add_of_pos_right (by decide)⟩

theorem Layout.other (clear : ∀ k ∈ Z.order, Separate (Z.pools k) r.pool) : ∀ k ∈ Z.order, k ≠ r.freeHeader := by
  rintro k here rfl
  have own := (Z.pools r.freeHeader).holds_header
  rw [Z.named _ here] at own
  exact clear _ here _ own r.pool.holds_header

def Layout.empty : Layout :=
  ⟨[], fun _ => ⟨0, 0, 0⟩, fun _ here => (nomatch here), fun _ here => (nomatch here)⟩

/-- One more heap in its place in `order`. -/
def Layout.extend (Z : Layout) (r : Region) (order : List Nat)
    (same : ∀ k, k ∈ order ↔ k = r.freeHeader ∨ k ∈ Z.order)
    (clear : ∀ k ∈ Z.order, Separate (Z.pools k) r.pool) : Layout where
  order := order
  pools := Function.update Z.pools r.freeHeader r.pool
  named := by
    intro k here
    rcases (same k).mp here with rfl | here
    · rw [Function.update_self]
      rfl
    · rw [Function.update_of_ne (Layout.other clear k here)]
      exact Z.named k here
  separate := by
    intro j first k second other
    have others := Layout.other clear
    rcases (same j).mp first with rfl | first
    · have there := ((same k).mp second).resolve_left (Ne.symm other)
      rw [Function.update_self, Function.update_of_ne (Ne.symm other)]
      exact (clear k there).symm
    · rw [Function.update_of_ne (others j first)]
      rcases (same k).mp second with rfl | second
      · rw [Function.update_self]
        exact clear j first
      · rw [Function.update_of_ne (others k second)]
        exact Z.separate j first k second other

/-- One more heap, which has no block in use. -/
theorem Sound.add (sound : Sound Z s (fun _ => none) L) (placed : r.pool.Placed)
    (clear : ∀ k ∈ Z.order, Separate (Z.pools k) r.pool) :
    ∃ Z' L', Sound Z' (s.add r) (fun _ => none) L' ∧
      (∀ k, k ∈ Z'.order ↔ k = r.freeHeader ∨ k ∈ Z.order) ∧ Z'.pools r.freeHeader = r.pool ∧
        ∀ k ∈ Z.order, Z'.pools k = Z.pools k := by
  obtain ⟨m', h', result⟩ : ∃ m' h', (m', h') = rtMemheapInit s.mem r.freeHeader r.startAddr r.size := ⟨_, _, rfl⟩
  obtain ⟨formed, keeps⟩ := rtMemheapInit_spec placed result
  have added : s.add r = ⟨m', Function.update s.heaps r.freeHeader h', (s.add r).order⟩ := by
    rw [Heaps.add, ← result]
  have others := Layout.other clear
  have same : ∀ k, k ∈ (s.add r).order ↔ k = r.freeHeader ∨ k ∈ Z.order := fun k => sound.order ▸ s.mem_add r
  have aside : ∀ k ∈ Z.order, ∀ b ∈ (Z.pools k).headers (L k), m'.items b = s.mem.items b := by
    intro k here b inside
    obtain ⟨_, old⟩ := sound.formed k here
    exact keeps.items b fun a new => apart_of_separate formed.chained old.chained (clear k here).symm new inside
  have free : ∀ b amount, ¬ Occupied m' [r.startAddr] b amount := by
    rintro b amount ⟨inside, used, _⟩
    rw [(formed.listed b inside).mp inside] at used
    cases used
  rw [added]
  refine ⟨Z.extend r _ same clear, Function.update L r.freeHeader [r.startAddr], ⟨rfl, fun k here => ?_,
    fun p data lent => ?_, fun k here b amount inUse => ?_⟩, same, Function.update_self ..,
    fun k here => Function.update_of_ne (others k here) ..⟩
  · dsimp only [Layout.extend]
    rcases (same k).mp here with rfl | here
    · rw [Function.update_self, Function.update_self, Function.update_self]
      exact ⟨_, formed⟩
    · have other := others k here
      rw [Function.update_of_ne other, Function.update_of_ne other, Function.update_of_ne other]
      obtain ⟨fs, old⟩ := sound.formed k here
      exact ⟨fs, old.congr (aside k here)⟩
  · cases lent
  · rcases (same k).mp here with rfl | here
    · rw [Function.update_self] at inUse
      exact absurd inUse (free b amount)
    · rw [Function.update_of_ne (others k here)] at inUse
      obtain ⟨inside, used, size⟩ := inUse
      have kept := aside k here b (Chained.block_mem (List.mem_cons_of_mem _ inside))
      refine sound.known k here b amount ⟨inside, ?_, ?_⟩
      · rw [← kept]
        exact used
      · rw [Memory.itemSize, ← kept]
        exact size

/-- The heaps are those of the regions. -/
structure Layout.Covers (Z : Layout) (regions : List Region) : Prop where
  only : ∀ k ∈ Z.order, ∃ r ∈ regions, Z.pools k = r.pool
  all : ∀ r ∈ regions, r.freeHeader ∈ Z.order ∧ Z.pools r.freeHeader = r.pool

theorem Sound.addAll (sound : Sound Z s (fun _ => none) L) (laid : Laid regions)
    (clear : ∀ k ∈ Z.order, ∀ r ∈ regions, Separate (Z.pools k) r.pool) :
    ∃ Z' L', Sound Z' (regions.foldl Heaps.add s) (fun _ => none) L' ∧
      (∀ k ∈ Z.order, k ∈ Z'.order ∧ Z'.pools k = Z.pools k) ∧
      (∀ r ∈ regions, r.freeHeader ∈ Z'.order ∧ Z'.pools r.freeHeader = r.pool) ∧
      ∀ k ∈ Z'.order, k ∈ Z.order ∨ ∃ r ∈ regions, Z'.pools k = r.pool := by
  induction regions generalizing Z s L with
  | nil => exact ⟨Z, L, sound, fun _ here => ⟨here, rfl⟩, fun _ inside => (nomatch inside), fun k here => .inl here⟩
  | cons r rest ih =>
    obtain ⟨Z1, L1, sound1, order1, own, before⟩ :=
      sound.add (laid.1 r List.mem_cons_self) fun k here => clear k here r List.mem_cons_self
    obtain ⟨first, later⟩ := List.pairwise_cons.mp laid.2
    have clear1 : ∀ k ∈ Z1.order, ∀ q ∈ rest, Separate (Z1.pools k) q.pool := by
      intro k here q inside
      rcases (order1 k).mp here with rfl | here
      · rw [own]
        exact first q inside
      · rw [before k here]
        exact clear k here q (List.mem_cons_of_mem _ inside)
    obtain ⟨Z', L', sound', same, each, all⟩ :=
      ih sound1 ⟨fun q inside => laid.1 q (List.mem_cons_of_mem _ inside), later⟩ clear1
    obtain ⟨there, pool⟩ := same r.freeHeader ((order1 _).mpr (.inl rfl))
    refine ⟨Z', L', sound', fun k here => ?_, List.forall_mem_cons.mpr ⟨⟨there, pool.trans own⟩, each⟩, fun k here => ?_⟩
    · obtain ⟨still, same⟩ := same k ((order1 k).mpr (.inr here))
      exact ⟨still, same.trans (before k here)⟩
    · rcases all k here with old | ⟨q, inside, place⟩
      · refine ((order1 k).mp old).symm.imp_right ?_
        rintro rfl
        exact ⟨r, List.mem_cons_self, pool.trans own⟩
      · exact .inr ⟨q, List.mem_cons_of_mem _ inside, place⟩

theorem boot_sound (m : Memory) (laid : Laid regions) :
    ∃ Z L, Sound Z (Loans.boot m regions).toHeaps (Loans.boot m regions).live L ∧ Z.Covers regions := by
  have start : Sound .empty ⟨m, fun _ => ⟨⟨0, 0, 0⟩, 0, 0⟩, []⟩ (fun _ => none) fun _ => [] :=
    ⟨rfl, fun _ here => (nomatch here), fun _ _ lent => (nomatch lent), fun _ here => (nomatch here)⟩
  obtain ⟨Z, L, sound, _, each, all⟩ := start.addAll laid fun _ here => (nomatch here)
  exact ⟨Z, L, sound, fun k here => (all k here).resolve_left List.not_mem_nil, each⟩

def Memory.clear : Memory := ⟨fun _ => .blank, fun _ => 0⟩

def internalRam : Region := ⟨0x24001000, 0x24008000, 0x78000⟩

def sdram : Region := ⟨0x24001100, 0xc0000000, 0x2000000⟩

/-- The internal memory behind the program's own data, and the SDRAM. -/
def boardRegions : List Region := [internalRam, sdram]

theorem board_laid : Laid boardRegions := by
  refine ⟨List.forall_mem_cons.mpr ⟨?_, List.forall_mem_singleton.mpr ?_⟩, List.pairwise_pair.mpr fun x => ?_⟩
  · exact ⟨by decide, by decide, by decide, by decide⟩
  · exact ⟨by decide, by decide, by decide, by decide⟩
  · dsimp only [Pool.Holds, Region.pool, internalRam, sdram, memheapSize]
    omega

/-! ### Runs -/

theorem run_sound {calls : List HeapCall} {s : Loans} (laid : Laid regions)
    (run : Run Loans.step Loans.Honest (Loans.boot m regions) calls s) :
    ∃ Z L, Sound Z s.toHeaps s.live L ∧ Z.Covers regions := by
  obtain ⟨Z, L, start, covers⟩ := boot_sound m laid
  have kept : ∃ L, Sound Z s.toHeaps s.live L := by
    refine run.invariant (P := fun s => ∃ L, Sound Z s.toHeaps s.live L) ?_ ⟨L, start⟩
    rintro s call t ⟨L, sound⟩ honest stepped
    obtain ⟨u, L', called, sound'⟩ := Loans.step_sound sound honest
    rw [called, Option.some.injEq] at stepped
    exact ⟨L', stepped ▸ sound'⟩
  obtain ⟨L', sound⟩ := kept
  exact ⟨Z, L', sound, covers⟩

/-- What the callers of the heaps rely on. -/
structure Loans.Dependable (s : Loans) (regions : List Region) : Prop where
  /-- No assertion fails and no loop goes on without end. -/
  returns : ∀ call, s.Honest call → ∃ t, s.step call = some t
  kept : ∀ ptr data, s.live ptr = some data → s.mem.read ptr data.length = data
  within : ∀ ptr data, s.live ptr = some data → ∃ r ∈ regions, r.startAddr + memheapSize ≤ ptr ∧
    ptr + data.length + memheapSize ≤ r.startAddr + r.size ∧ 4 ∣ ptr - r.startAddr
  apart : ∀ p q data other, s.live p = some data → s.live q = some other → p < q → p + data.length + memheapSize ≤ q

theorem heaps_dependable {calls : List HeapCall} {s : Loans} (laid : Laid regions)
    (run : Run Loans.step Loans.Honest (Loans.boot m regions) calls s) : s.Dependable regions := by
  obtain ⟨Z, L, sound, covers⟩ := run_sound laid run
  refine ⟨fun call honest => ?_, fun ptr data lent => ?_, fun ptr data lent => ?_,
    fun p q data other first second less => ?_⟩
  · obtain ⟨t, _, called, _⟩ := Loans.step_sound sound honest
    exact ⟨t, called⟩
  · obtain ⟨_, _, _, _, _, _, _, content⟩ := sound.held ptr data lent
    exact content
  · obtain ⟨k, here, b, amount, rfl, inUse, room, _⟩ := sound.held ptr data lent
    obtain ⟨fs, formed⟩ := sound.formed k here
    obtain ⟨r, inside, pool⟩ := covers.only k here
    have bounds := formed.chained.room inUse.1
    have even := formed.aligned.2 b inUse.1
    rw [inUse.2.2] at bounds
    rw [pool] at bounds even
    dsimp only [Region.pool] at bounds even
    refine ⟨r, inside, by omega, by omega, ?_⟩
    rw [Nat.sub_add_comm bounds.1]
    exact Nat.dvd_add even (by decide)
  · obtain ⟨j, here, b, amount, rfl, used, room, _⟩ := sound.held p data first
    obtain ⟨k, there, c, size, rfl, used', room', _⟩ := sound.held q other second
    have := sound.apart here there used used' (by rintro rfl; exact Nat.lt_irrefl _ less)
    omega

/-- The board's heaps after some calls, as long as these are honest. -/
def boardAfter (calls : List HeapCall) : Option Loans :=
  calls.foldlM (fun s call => if s.Honest call then s.step call else none) (Loans.boot .clear boardRegions)

theorem boardAfter_run {calls : List HeapCall} {p : Loans → Bool} (tested : (boardAfter calls).any p = true) :
    ∃ s, Run Loans.step Loans.Honest (Loans.boot .clear boardRegions) calls s ∧ p s = true :=
  Run.of_checked tested

/-- Blocks are lent, written to, moved, given back and cut down. -/
def service : List HeapCall :=
  [.malloc 100, .malloc 50, .write 0x24008018 3 7, .realloc 0x24008018 200, .calloc 4 10, .free 0x24008094,
    .realloc 0x240080e0 60]

theorem heaps_dependable_board : ∃ s, Run Loans.step Loans.Honest (Loans.boot .clear boardRegions) service s ∧
    (s.live 0x240080e0).map (·.take 4) = some [0, 0, 0, 7] ∧ s.Dependable boardRegions := by
  have tested : (boardAfter service).any (fun s => (s.live 0x240080e0).map (·.take 4) == some [0, 0, 0, 7]) = true := by
    decide +kernel
  obtain ⟨s, run, lent⟩ := boardAfter_run tested
  exact ⟨s, run, eq_of_beq lent, heaps_dependable board_laid run⟩

/-- `rt_malloc` tries every region. -/
theorem Sound.malloc_regions (sound : Sound Z s live L) (covers : Z.Covers regions) (size : Nat) :
    s.rtMalloc size = some (s, 0) ∧ (∀ r ∈ regions, s.Short r.freeHeader size) ∨
    (¬ ∀ r ∈ regions, s.Short r.freeHeader size) ∧
      ∃ t ptr, s.rtMalloc size = some (t, ptr) ∧ Fresh Z live (served size) t ptr := by
  refine (sound.malloc size).imp (And.imp_right fun short r inside => short _ (covers.all r inside).1)
    (And.imp_left ?_)
  rintro ⟨k, here, enough⟩ short
  obtain ⟨r, inside, pool⟩ := covers.only k here
  have name : r.freeHeader = k := by
    rw [← Z.named k here, pool]
    rfl
  exact enough (name ▸ short r inside)

/-- `rt_malloc` fails exactly where every heap is short, and then it has changed nothing. -/
theorem malloc_null_iff {calls : List HeapCall} {s : Loans} (laid : Laid regions)
    (run : Run Loans.step Loans.Honest (Loans.boot m regions) calls s) (size : Nat) :
    ∃ t ptr, s.rtMalloc size = some (t, ptr) ∧ (ptr = 0 ↔ ∀ r ∈ regions, s.Short r.freeHeader size) ∧
      (ptr = 0 → t = s.toHeaps) := by
  obtain ⟨Z, L, sound, covers⟩ := run_sound laid run
  rcases sound.malloc_regions covers size with ⟨called, short⟩ | ⟨enough, t, ptr, called, fresh⟩
  · exact ⟨s.toHeaps, 0, called, ⟨fun _ => short, fun _ => rfl⟩, fun _ => rfl⟩
  · exact ⟨t, ptr, called, ⟨fun null => absurd null fresh.valid, fun short => absurd short enough⟩,
      fun null => absurd null fresh.valid⟩

theorem malloc_null_iff_board : ∃ s, Run Loans.step Loans.Honest (Loans.boot .clear boardRegions) service s ∧
    (s.rtMalloc 0x2000000).map (·.2) = some 0 ∧ (s.rtMalloc 0x1ffff00).map (·.2) = some 0xc0000018 ∧
    ∃ t ptr, s.rtMalloc 0x2000000 = some (t, ptr) ∧
      (ptr = 0 ↔ ∀ r ∈ boardRegions, s.Short r.freeHeader 0x2000000) ∧ (ptr = 0 → t = s.toHeaps) := by
  have tested : (boardAfter service).any (fun s => (s.rtMalloc 0x2000000).map (·.2) == some 0 &&
      (s.rtMalloc 0x1ffff00).map (·.2) == some 0xc0000018) = true := by
    decide +kernel
  obtain ⟨s, run, answers⟩ := boardAfter_run tested
  obtain ⟨refused, granted⟩ := (Bool.and_eq_true _ _).mp answers
  exact ⟨s, run, eq_of_beq refused, eq_of_beq granted, malloc_null_iff board_laid run 0x2000000⟩

/-- Nothing checks the product of `rt_calloc`: where it does not fit 32 bits, what counts is
the rest that is left of it, for whether there is a block and for how large it is. A rest that
the alignment turns over gets a block of twelve bytes, and clearing it runs over the end. -/
theorem calloc_fits_iff {calls : List HeapCall} {s : Loans} (laid : Laid regions)
    (run : Run Loans.step Loans.Honest (Loans.boot m regions) calls s) (count size : Nat) :
    (s.rtCalloc count size = none ↔
      2 ^ 32 ≤ u32 (count * size) + 3 ∧ ¬ ∀ r ∈ regions, s.Short r.freeHeader (u32 (count * size))) ∧
    ∀ t ptr, s.rtCalloc count size = some (t, ptr) →
      (ptr = 0 ↔ ∀ r ∈ regions, s.Short r.freeHeader (u32 (count * size))) ∧
      (ptr ≠ 0 → (count * size ≤ t.mem.itemSize (sub32 ptr memheapSize) ↔ count * size + 3 < 2 ^ 32)) := by
  obtain ⟨Z, L, sound, covers⟩ := run_sound laid run
  unfold Heaps.rtCalloc
  dsimp only
  rcases sound.malloc_regions covers (u32 (count * size)) with ⟨called, short⟩ | ⟨enough, t, ptr, called, fresh⟩
  · rw [called, Option.bind_some]
    refine ⟨⟨fun failed => (nomatch failed), fun overrun => absurd short overrun.2⟩, ?_⟩
    rintro _ _ ⟨⟩
    exact ⟨⟨fun _ => short, fun _ => rfl⟩, fun granted => absurd rfl granted⟩
  · obtain ⟨least, most, place⟩ := fresh.block
    rw [called, Option.bind_some, if_neg fresh.valid]
    by_cases small : u32 (count * size) + 3 < 2 ^ 32
    · rw [if_pos (Nat.le_trans (le_served small) least)]
      refine ⟨⟨fun failed => (nomatch failed), fun overrun => absurd small (Nat.not_lt.mpr overrun.1)⟩, ?_⟩
      rintro _ _ ⟨⟩
      refine ⟨⟨fun null => absurd null fresh.valid, fun short => absurd short enough⟩, fun _ => ?_⟩
      have kept : (t.mem.fill ptr 0 (u32 (count * size))).itemSize (sub32 ptr memheapSize) =
          t.mem.itemSize (sub32 ptr memheapSize) := by
        refine size_of_same_next (congrArg MemheapItem.next (if_neg ?_))
        omega
      rw [kept]
      constructor
      · intro fits
        unfold memheapSize at *
        omega
      · intro whole
        rw [u32_eq (Nat.lt_of_le_of_lt (Nat.le_add_right ..) whole)] at least
        exact Nat.le_trans (le_served whole) least
    · have beyond : ¬ u32 (count * size) ≤ t.mem.itemSize (sub32 ptr memheapSize) := by
        unfold memheapSize at *
        omega
      rw [if_neg beyond]
      exact ⟨⟨fun _ => ⟨Nat.not_lt.mp small, enough⟩, fun _ => rfl⟩, fun _ _ returned => (nomatch returned)⟩

theorem calloc_fits_iff_board : ∃ s, Run Loans.step Loans.Honest (Loans.boot .clear boardRegions) service s ∧
    s.rtCalloc 0xffffffff 1 = none ∧ (s.rtCalloc 65536 65537).map (·.2) = some 0x24008134 ∧
    (s.rtCalloc 65536 65537 = none ↔
      2 ^ 32 ≤ u32 (65536 * 65537) + 3 ∧ ¬ ∀ r ∈ boardRegions, s.Short r.freeHeader (u32 (65536 * 65537))) ∧
    ∀ t ptr, s.rtCalloc 65536 65537 = some (t, ptr) →
      (ptr = 0 ↔ ∀ r ∈ boardRegions, s.Short r.freeHeader (u32 (65536 * 65537))) ∧
      (ptr ≠ 0 → (65536 * 65537 ≤ t.mem.itemSize (sub32 ptr memheapSize) ↔ 65536 * 65537 + 3 < 2 ^ 32)) := by
  have tested : (boardAfter service).any (fun s => (s.rtCalloc 0xffffffff 1).isNone &&
      (s.rtCalloc 65536 65537).map (·.2) == some 0x24008134) = true := by
    decide +kernel
  obtain ⟨s, run, answers⟩ := boardAfter_run tested
  obtain ⟨overrun, wrapped⟩ := (Bool.and_eq_true _ _).mp answers
  exact ⟨s, run, Option.isNone_iff_eq_none.mp overrun, eq_of_beq wrapped, calloc_fits_iff board_laid run 65536 65537⟩

/-- The sizes that a heap keeps account of. -/
theorem accounts_right {calls : List HeapCall} {s : Loans} (laid : Laid regions)
    (run : Run Loans.step Loans.Honest (Loans.boot m regions) calls s) :
    ∀ r ∈ regions, ((s.freeBlocks r.freeHeader).map s.mem.itemSize).sum = (s.heaps r.freeHeader).availableSize ∧
      r.size / 4 * 4 - (s.heaps r.freeHeader).availableSize ≤ (s.heaps r.freeHeader).maxUsedSize ∧
      (s.heaps r.freeHeader).maxUsedSize ≤ r.size / 4 * 4 := by
  obtain ⟨Z, L, sound, covers⟩ := run_sound laid run
  intro r inside
  obtain ⟨here, pool⟩ := covers.all r inside
  obtain ⟨fs, formed⟩ := sound.formed _ here
  rw [pool] at formed
  rw [formed.freeBlocks_eq rfl]
  exact ⟨formed.free_sum, Nat.sub_le_iff_le_add'.mpr formed.peak.1, formed.peak.2⟩

theorem accounts_right_board : ∃ s, Run Loans.step Loans.Honest (Loans.boot .clear boardRegions) service s ∧
    (s.freeBlocks internalRam.freeHeader).length = 2 ∧
    ∀ r ∈ boardRegions, ((s.freeBlocks r.freeHeader).map s.mem.itemSize).sum = (s.heaps r.freeHeader).availableSize ∧
      r.size / 4 * 4 - (s.heaps r.freeHeader).availableSize ≤ (s.heaps r.freeHeader).maxUsedSize ∧
      (s.heaps r.freeHeader).maxUsedSize ≤ r.size / 4 * 4 := by
  have tested : (boardAfter service).any (fun s => (s.freeBlocks internalRam.freeHeader).length == 2) = true := by
    decide +kernel
  obtain ⟨s, run, parts⟩ := boardAfter_run tested
  exact ⟨s, run, eq_of_beq parts, accounts_right board_laid run⟩

/-- A heap with no block in use is one free block. -/
theorem Formed.whole {h : Memheap} {P : Pool} {bs fs : List Nat} (formed : Formed m P h bs fs)
    (idle : ∀ b ∈ bs, (m.items b).isUsed = false) :
    fs = [P.startAddr] ∧ m.itemSize P.startAddr = h.availableSize ∧ h.availableSize + 2 * memheapSize = P.poolSize := by
  have chained := formed.chained
  have path := chained.blocks.2
  cases bs with
  | nil => cases chained.first
  | cons a rest =>
    obtain rfl : a = P.startAddr := Option.some.inj chained.first
    have next : (m.items P.startAddr).next = P.tail := by
      refine (List.mem_cons.mp (chained.after List.mem_cons_self).2.1).resolve_right fun inside => ?_
      rcases formed.merged P.startAddr List.mem_cons_self with used | used
      · rw [idle _ List.mem_cons_self] at used
        cases used
      · rw [idle _ inside] at used
        cases used
    cases rest with
    | cons y v =>
      have second : (m.items P.startAddr).next = y := path.2.1.1
      have out := (List.nodup_cons.mp chained.blocks.1).1
      refine absurd ?_ out
      rw [← next, second]
      exact List.mem_cons_of_mem _ List.mem_cons_self
    | nil =>
      have listed := (formed.listed P.startAddr List.mem_cons_self).mpr (idle _ List.mem_cons_self)
      have sized := formed.sized
      have ends := chained.next_eq List.mem_cons_self
      have bound := chained.tail_bound
      have room := chained.placed.room
      rw [Sized, List.map_singleton, List.sum_singleton, Memory.payload_of_free (idle _ List.mem_cons_self)] at sized
      have headers : memheapSize * ([P.startAddr].length + 1) = 2 * memheapSize := rfl
      refine ⟨?_, by omega, by omega⟩
      refine List.Perm.eq_singleton ?_
      exact (List.perm_ext_iff_of_nodup chained.frees.nodup (List.nodup_singleton _)).mpr fun b =>
        ⟨fun inside => chained.subset inside, fun inside => List.mem_singleton.mp inside ▸ listed⟩

/-- A heap whose free blocks have all that headers leave has no block in use: a second block
would need a header of its own. -/
theorem Formed.idle {h : Memheap} {P : Pool} {bs fs : List Nat} (formed : Formed m P h bs fs)
    (whole : h.availableSize + 2 * memheapSize = P.poolSize) (listed : fs = [P.startAddr]) :
    ∀ b ∈ bs, (m.items b).isUsed = false := by
  intro b inside
  have free : P.startAddr ∈ fs := listed ▸ List.mem_singleton_self _
  have first := formed.chained.subset free
  have sized := formed.sized
  by_contra used
  have other : b ≠ P.startAddr := by
    rintro rfl
    exact used ((formed.listed _ first).mp free)
  have pair : [b, P.startAddr].Subperm bs := by
    refine List.subperm_of_subset (List.nodup_cons.mpr ⟨?_, List.nodup_singleton _⟩) ?_
    · exact fun same => other (List.mem_singleton.mp same)
    · exact List.cons_subset.mpr ⟨inside, List.cons_subset.mpr ⟨first, List.nil_subset _⟩⟩
  have two : 2 ≤ bs.length := pair.length_le
  unfold Sized memheapSize at *
  omega

/-- Everything is given back exactly when each heap is one free block again, as large as at the
start: no byte gets lost, and none is free that somebody holds. -/
theorem all_given_back {calls : List HeapCall} {s : Loans} (laid : Laid regions)
    (run : Run Loans.step Loans.Honest (Loans.boot m regions) calls s) :
    (∀ ptr, s.live ptr = none) ↔ ∀ r ∈ regions, s.freeBlocks r.freeHeader = [r.startAddr] ∧
      s.mem.itemSize r.startAddr = (s.heaps r.freeHeader).availableSize ∧
      (s.heaps r.freeHeader).availableSize + 2 * memheapSize = r.size / 4 * 4 := by
  obtain ⟨Z, L, sound, covers⟩ := run_sound laid run
  constructor
  · intro returned r inside
    obtain ⟨here, pool⟩ := covers.all r inside
    obtain ⟨fs, formed⟩ := sound.formed _ here
    rw [pool] at formed
    have idle : ∀ b ∈ L r.freeHeader, (s.mem.items b).isUsed = false := by
      intro b member
      refine Bool.eq_false_iff.mpr fun used => ?_
      have lent := sound.known _ here b _ ⟨member, used, rfl⟩
      rw [returned] at lent
      cases lent
    rw [formed.freeBlocks_eq rfl]
    exact formed.whole idle
  · intro whole ptr
    cases lent : s.live ptr with
    | none => rfl
    | some data =>
      obtain ⟨k, here, b, amount, rfl, inUse, _, _⟩ := sound.held ptr data lent
      obtain ⟨r, inside, pool⟩ := covers.only k here
      have name : r.freeHeader = k := by
        rw [← Z.named k here, pool]
        rfl
      obtain ⟨fs, formed⟩ := sound.formed k here
      rw [pool] at formed
      obtain ⟨listed, _, all⟩ := whole r inside
      rw [name, formed.freeBlocks_eq name] at listed
      rw [name] at all
      have free := formed.idle all listed b inUse.1
      rw [inUse.2.1] at free
      cases free

/-- The last two blocks are given back. -/
def closing : List HeapCall := service ++ [.free 0x240080e0, .free 0x24008018]

theorem all_given_back_board : ∃ s, Run Loans.step Loans.Honest (Loans.boot .clear boardRegions) closing s ∧
    ((∀ ptr, s.live ptr = none) ↔ ∀ r ∈ boardRegions, s.freeBlocks r.freeHeader = [r.startAddr] ∧
      s.mem.itemSize r.startAddr = (s.heaps r.freeHeader).availableSize ∧
      (s.heaps r.freeHeader).availableSize + 2 * memheapSize = r.size / 4 * 4) ∧
    ∀ ptr, s.live ptr = none := by
  have tested : (boardAfter closing).any (fun s => decide (∀ r ∈ boardRegions,
      s.freeBlocks r.freeHeader = [r.startAddr] ∧
      s.mem.itemSize r.startAddr = (s.heaps r.freeHeader).availableSize ∧
      (s.heaps r.freeHeader).availableSize + 2 * memheapSize = r.size / 4 * 4)) = true := by
    decide +kernel
  obtain ⟨s, run, whole⟩ := boardAfter_run tested
  have both := all_given_back board_laid run
  exact ⟨s, run, both, both.mpr (of_decide_eq_true whole)⟩

end RemoteBoot.Kernel
