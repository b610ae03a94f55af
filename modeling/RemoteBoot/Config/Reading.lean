import RemoteBoot.Config.FileProofs

/-! What success of `init_from_file` says about where the strings came from. The
function reports `RT_EOK` for every file it can open; a line reaches the struct
only through the newline behind it. -/
namespace RemoteBoot.Config
open Bytes Lines

/-- The lines of a text, the last one with or without its newline. -/
def textLines (content : List UInt8) : List (List UInt8) :=
  (split newline content).1 ++
    if (split newline content).2 = [] then [] else [(split newline content).2]

/-- Reads into any two structs that succeed end with the lines of the file, and
a file with fewer than five lines is an error. -/
def FromFile (content : List UInt8) : Prop :=
  (∀ c d e e', initFromFile (some content) c = some (.ok e) →
    initFromFile (some content) d = some (.ok e') →
    ∀ f, ∃ line, (textLines content)[f.index]? = some line ∧ e.str f = line ∧ e'.str f = line) ∧
  ((textLines content).length < 5 →
    ∀ c, ∃ text, initFromFile (some content) c = some (.error text))

/-- All five lines are there with their newlines, and none holds a NUL. -/
def Delivered (content : List UInt8) : Prop :=
  (split newline content).1.length = 5 ∧ ∀ l ∈ (split newline content).1, 0 ∉ l

theorem length_textLines (content : List UInt8) : (textLines content).length =
    (split newline content).1.length + if (split newline content).2 = [] then 0 else 1 := by
  rw [textLines, List.length_append]
  split <;> rfl

theorem textLines_get {content : List UInt8} (inside : i < (split newline content).1.length) :
    (textLines content)[i]? = (split newline content).1[i]? :=
  List.getElem?_append_left inside

/-- Short lines are read whatever the struct held before, and a member beyond
the complete lines keeps what it held. -/
theorem initFromFile_short (content : List UInt8) (c : ConfigInfo)
    (short : ∀ l ∈ textLines content, l.length < strSize) (few : (textLines content).length ≤ 5) :
    ∃ e, initFromFile (some content) c = some (.ok e) ∧
      (∀ f l, (split newline content).1[f.index]? = some l → e.str f = cstring l) ∧
      ∀ f, (split newline content).1.length ≤ f.index → e.slot f = c.slot f := by
  have complete : ∀ l ∈ (split newline content).1, l.length < strSize :=
    fun l member => short l (List.mem_append_left _ member)
  have restFits : (split newline content).2.length ≤ strSize := by
    by_cases ended : (split newline content).2 = []
    · rw [ended]
      exact Nat.zero_le _
    · refine Nat.le_of_lt (short _ (List.mem_append_right _ ?_))
      rw [if_neg ended]
      exact List.mem_singleton_self _
  obtain ⟨e, read, cells, frames⟩ := initFromFile_split content c
    (by rw [length_textLines] at few; omega) complete restFits
  refine ⟨e, read, fun f l found => ?_, frames⟩
  exact ConfigInfo.str_of_slot (cells f l found) (complete l (List.mem_of_getElem? found))

theorem Delivered.fromFile {content : List UInt8} (delivered : Delivered content)
    (short : ∀ l ∈ textLines content, l.length < strSize) (few : (textLines content).length ≤ 5) :
    FromFile content := by
  obtain ⟨five, noNul⟩ := delivered
  have line : ∀ c e, initFromFile (some content) c = some (.ok e) → ∀ f l,
      (split newline content).1[f.index]? = some l → e.str f = l := by
    intro c e read f l found
    obtain ⟨e', read', strings, _⟩ := initFromFile_short content c short few
    obtain rfl : e' = e := by simpa using read'.symm.trans read
    rw [strings f l found, cstring_of_not_mem (noNul l (List.mem_of_getElem? found))]
  constructor
  · intro c d e e' read read' f
    have inside : f.index < (split newline content).1.length := five ▸ f.index_lt
    have found := List.getElem?_eq_getElem inside
    exact ⟨_, (textLines_get inside).trans found, line c e read f _ found, line d e' read' f _ found⟩
  · intro missing
    rw [length_textLines, five] at missing
    omega

theorem FromFile.delivered {content : List UInt8} (fromFile : FromFile content)
    (short : ∀ l ∈ textLines content, l.length < strSize) (few : (textLines content).length ≤ 5) :
    Delivered content := by
  obtain ⟨success, failure⟩ := fromFile
  obtain ⟨e, read, strings, frames⟩ := initFromFile_short content .zeroed short few
  have enough : (textLines content).length = 5 := by
    by_contra missing
    obtain ⟨text, failed⟩ := failure (by omega) .zeroed
    simp [read] at failed
  have five : (split newline content).1.length = 5 := by
    by_contra missing
    rw [length_textLines] at enough
    -- four complete lines and a rest: the fifth member keeps its zeros
    have unterminated : (split newline content).2 ≠ [] := by
      intro ended
      rw [if_pos ended] at enough
      omega
    rw [if_neg unterminated] at enough
    have four : (split newline content).1.length = Field.macAddress.index := by
      simp only [Field.index]
      omega
    obtain ⟨line, last, string, _⟩ := success _ _ e e read read .macAddress
    have kept : e.str .macAddress = [] := by
      rw [ConfigInfo.str_congr (frames .macAddress (Nat.le_of_eq four)) (by decide)]
      decide
    rw [textLines, List.getElem?_append_right (Nat.le_of_eq four), if_neg unterminated, four,
      Nat.sub_self] at last
    obtain rfl : (split newline content).2 = line := Option.some.inj last
    exact unterminated (string.symm.trans kept)
  refine ⟨five, fun l member nul => ?_⟩
  obtain ⟨i, found⟩ := List.mem_iff_getElem?.mp member
  have inside : i < (split newline content).1.length := (List.getElem?_eq_some_iff.mp found).1
  obtain ⟨f, rfl⟩ := Field.exists_index (five ▸ inside)
  obtain ⟨line, same, string, _⟩ := success _ _ e e read read f
  obtain rfl : l = line := by simpa using (found.symm.trans ((textLines_get inside).symm.trans same))
  exact e.not_mem_str f (string ▸ nul)

/-- For files of at most five lines of at most 99 characters, success means that
the strings came from the file exactly when all five lines end with a newline
and hold no NUL. -/
theorem success_from_file_iff (content : List UInt8)
    (short : ∀ l ∈ textLines content, l.length < strSize) (few : (textLines content).length ≤ 5) :
    FromFile content ↔ Delivered content :=
  ⟨fun fromFile => fromFile.delivered short few, fun delivered => delivered.fromFile short few⟩

/-- The lines `a` to `e`, the last one without a newline. -/
def unfinished : List UInt8 := [97, 10, 98, 10, 99, 10, 100, 10, 101]

theorem unfinished_short : ∀ l ∈ textLines unfinished, l.length < strSize := by
  decide

theorem success_from_file_iff_unfinished : FromFile unfinished ↔ Delivered unfinished :=
  success_from_file_iff unfinished unfinished_short (by decide)

/-- The fifth line is lost and the read succeeds; an empty file is no error either. -/
theorem success_without_file : ¬ (∀ content, (∀ l ∈ textLines content, l.length < strSize) →
      (textLines content).length ≤ 5 → FromFile content) ∧
    initFromFile (some []) .zeroed = some (.ok .zeroed) := by
  refine ⟨fun always => ?_, rfl⟩
  have delivered := (always unfinished unfinished_short (by decide)).delivered unfinished_short
    (by decide)
  exact absurd delivered.1 (by decide)

end RemoteBoot.Config
