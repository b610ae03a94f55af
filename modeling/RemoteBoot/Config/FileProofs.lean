import RemoteBoot.Lines
import RemoteBoot.Config.File

/-! The reader stores line `i` of the file in member `i` and nothing else; the
writer emits the five members as lines. Both directions of the codec and the
state an interrupted save leaves behind follow from these two facts. -/
namespace RemoteBoot.Config
open Bytes Lines

/-- A string that the file format carries in one line. -/
structure Line where
  bytes : List UInt8
  short : bytes.length < strSize
  noNewline : newline ∉ bytes
  noNul : 0 ∉ bytes

/-- What a configuration says: one line for each member. -/
abbrev Settings := Field → Line

def Settings.lines (s : Settings) : List (List UInt8) := Field.all.map fun f => (s f).bytes

def Settings.encode (s : Settings) : List UInt8 := unlines newline s.lines

def ConfigInfo.Holds (c : ConfigInfo) (s : Settings) : Prop := ∀ f, c.str f = (s f).bytes

theorem ConfigInfo.Holds.terminated {c : ConfigInfo} (holds : c.Holds s) : c.Terminated := by
  intro f
  rw [holds f]
  exact (s f).short

def ConfigInfo.settings (c : ConfigInfo) (short : c.Terminated)
    (noNewline : ∀ f, newline ∉ c.str f) : Settings :=
  fun f => ⟨c.str f, short f, noNewline f, c.not_mem_str f⟩

theorem Line.str {c : ConfigInfo} (l : Line) (cells : c.slot f = l.bytes ++ 0 :: rest) :
    c.str f = l.bytes :=
  (ConfigInfo.str_of_slot cells l.short).trans (cstring_of_not_mem l.noNul)

theorem Settings.lines_get (s : Settings) (f : Field) : s.lines[f.index]? = some (s f).bytes := by
  cases f <;> rfl

theorem Settings.mem_lines {s : Settings} {l : List UInt8} (member : l ∈ s.lines) :
    ∃ f, l = (s f).bytes := by
  obtain ⟨f, _, rfl⟩ := List.mem_map.mp member
  exact ⟨f, rfl⟩

def Settings.block (s : Settings) (f : Field) : List UInt8 :=
  (s f).bytes ++ List.replicate (strSize - (s f).bytes.length) 0

theorem Settings.length_block (s : Settings) (f : Field) : (s.block f).length = strSize := by
  have := (s f).short
  simp only [block, List.length_append, List.length_replicate]
  omega

def Settings.pack (s : Settings) : ConfigInfo :=
  ⟨(Field.all.map s.block).flatten, by simp [Field.all, s.length_block, strSize]⟩

theorem Settings.pack_holds (s : Settings) : s.pack.Holds s := by
  intro f
  have cells := drop_flatten (n := strSize) (i := f.index) (b := s.block f)
    (fun b member => by
      obtain ⟨g, _, rfl⟩ := List.mem_map.mp member
      exact s.length_block g)
    (show (Field.all.map s.block)[f.index]? = some (s.block f) by cases f <;> rfl)
  have room : strSize - (s f).bytes.length = (strSize - (s f).bytes.length - 1) + 1 := by
    have := (s f).short
    omega
  rw [ConfigInfo.str, pack, Field.offset, cells, block, room, List.replicate_succ, List.append_assoc,
    List.cons_append, cstring_append_nul (s f).noNul]

namespace Reader

theorem read_chars {r : Reader} {s : List UInt8} (clean : newline ∉ s)
    (fits : r.temp.length + s.length ≤ strSize) :
    s.foldlM step r = some { r with temp := r.temp ++ s } := by
  induction s generalizing r with
  | nil => simp
  | cons ch s ih =>
    simp only [List.mem_cons, not_or] at clean
    simp only [List.length_cons] at fits
    have stored : r.step ch = some { r with temp := r.temp ++ [ch] } := by
      rw [step, if_pos (Ne.symm clean.1), if_pos (by omega)]
    rw [List.foldlM_cons, stored, Option.bind_eq_bind, Option.bind_some,
      ih clean.2 (by simp only [List.length_append, List.length_singleton]; omega)]
    simp

theorem read_line (c : ConfigInfo) (f : Field) {s : List UInt8} (clean : newline ∉ s)
    (short : s.length < strSize) :
    ∃ d, (s ++ [newline]).foldlM step ⟨[], f.index, c⟩ = some ⟨[], f.index + 1, d⟩ ∧
      d.slot f = s ++ 0 :: (c.slot f).drop (s.length + 1) ∧ ∀ g ≠ f, d.slot g = c.slot g := by
  obtain ⟨d, stored, cells, frame⟩ := c.setString_slot f short
  refine ⟨d, ?_, cells, frame⟩
  have ended : step ⟨s, f.index, c⟩ newline = some ⟨[], f.index + 1, d⟩ := by
    have stored : c.setString (f.index * strSize) s = some d := stored
    simp [step, stored]
  rw [List.foldlM_append, read_chars clean (by simpa using Nat.le_of_lt short)]
  simp [ended]

/-- A sixth line lies past the struct, be it empty. -/
theorem read_past (c : ConfigInfo) {l : List UInt8} (clean : newline ∉ l)
    (fits : l.length ≤ strSize) (cs : List UInt8) :
    (l ++ newline :: cs).foldlM step ⟨[], 5, c⟩ = none := by
  have outside : c.setString (5 * strSize) l = none := by
    rw [ConfigInfo.setString, Option.bind_eq_bind]
    cases c.memcpy (5 * strSize) l with
    | none => rfl
    | some d =>
      have := d.size
      exact dif_neg (by simp only [List.length_singleton]; omega)
  rw [List.foldlM_append, read_chars clean (by simpa using fits)]
  simp [step, outside]

theorem read_lines {ls : List (List UInt8)} (i : Nat) (c : ConfigInfo)
    (few : i + ls.length ≤ 5) (good : ∀ l ∈ ls, newline ∉ l ∧ l.length < strSize) :
    ∃ d, (unlines newline ls).foldlM step ⟨[], i, c⟩ = some ⟨[], i + ls.length, d⟩ ∧
      (∀ f k, f.index = i + k → ∀ l, ls[k]? = some l →
        d.slot f = l ++ 0 :: (c.slot f).drop (l.length + 1)) ∧
      ∀ f, f.index < i ∨ i + ls.length ≤ f.index → d.slot f = c.slot f := by
  induction ls generalizing i c with
  | nil => exact ⟨c, by simp [unlines], by simp, fun _ _ => rfl⟩
  | cons s ls ih =>
    simp only [List.length_cons] at few
    obtain ⟨f, rfl⟩ := Field.exists_index (show i < 5 by omega)
    obtain ⟨clean, short⟩ := good s List.mem_cons_self
    obtain ⟨middle, first, cells, frame⟩ := read_line c f clean short
    obtain ⟨d, rest, later, frames⟩ := ih (f.index + 1) middle (by omega)
      (fun l member => good l (List.mem_cons_of_mem _ member))
    refine ⟨d, ?_, ?_, ?_⟩
    · rw [unlines_cons, ← List.singleton_append, ← List.append_assoc, List.foldlM_append, first,
        Option.bind_eq_bind, Option.bind_some, rest, List.length_cons]
      congr 2
      omega
    · intro g k position l found
      cases k with
      | zero =>
        obtain rfl := Field.index_injective (show g.index = f.index by omega)
        obtain rfl : s = l := by simpa using found
        exact (frames g (by omega)).trans cells
      | succ k =>
        have other : g ≠ f := by
          rintro rfl
          omega
        rw [later g k (by omega) l (by simpa using found), frame g other]
    · intro g outside
      have other : g ≠ f := by
        rintro rfl
        simp only [List.length_cons] at outside
        omega
      rw [frames g (by simp only [List.length_cons] at outside; omega), frame g other]

end Reader

/-- What a read leaves in the struct, for every text of at most five lines that
fit: line `i` and a NUL at the start of member `i`, and nothing else. -/
theorem initFromFile_split (content : List UInt8) (c : ConfigInfo)
    (few : (split newline content).1.length ≤ 5)
    (short : ∀ l ∈ (split newline content).1, l.length < strSize)
    (restFits : (split newline content).2.length ≤ strSize) :
    ∃ d, initFromFile (some content) c = some (.ok d) ∧
      (∀ f l, (split newline content).1[f.index]? = some l →
        d.slot f = l ++ 0 :: (c.slot f).drop (l.length + 1)) ∧
      ∀ f, (split newline content).1.length ≤ f.index → d.slot f = c.slot f := by
  obtain ⟨joined, clean, restClean⟩ := split_spec newline content
  obtain ⟨d, run, cells, frames⟩ := Reader.read_lines 0 c (by simpa using few)
    (fun l member => ⟨clean l member, short l member⟩)
  refine ⟨d, ?_, fun f l found => cells f f.index (by simp) l found,
    fun f beyond => frames f (.inr (by simpa using beyond))⟩
  have whole : content.foldlM Reader.step ⟨[], 0, c⟩ =
      some ⟨(split newline content).2, (split newline content).1.length, d⟩ := by
    conv => lhs; rw [← joined]
    rw [List.foldlM_append, run, Option.bind_eq_bind, Option.bind_some,
      Reader.read_chars restClean (by simpa using restFits)]
    simp
  simp only [initFromFile, whole, Option.bind_eq_bind, Option.bind_some]

theorem initFromFile_past {ls : List (List UInt8)} {l : List UInt8} (five : ls.length = 5)
    (good : ∀ l ∈ ls, newline ∉ l ∧ l.length < strSize) (clean : newline ∉ l)
    (fits : l.length ≤ strSize) (rest : List UInt8) (c : ConfigInfo) :
    initFromFile (some (unlines newline ls ++ (l ++ newline :: rest))) c = none := by
  obtain ⟨d, read, _⟩ := Reader.read_lines 0 c (by omega) good
  have past := Reader.read_past d clean fits rest
  rw [five] at read
  simp only [initFromFile, List.foldlM_append, read, Nat.zero_add, Option.bind_eq_bind,
    Option.bind_some] at past ⊢
  rw [past, Option.bind_none]

end RemoteBoot.Config
