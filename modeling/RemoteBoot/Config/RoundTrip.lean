import RemoteBoot.Config.FileProofs

/-! The file codec in both directions, and what an interrupted save leaves for
the next reader. The writer goes by member names, the reader by line numbers;
struct layout is what makes them agree. -/
namespace RemoteBoot.Config
open Lines

theorem split_encode (s : Settings) : split newline s.encode = (s.lines, []) := by
  have clean : ∀ l ∈ s.lines, newline ∉ l := by
    intro l member
    obtain ⟨f, rfl⟩ := s.mem_lines member
    exact (s f).noNewline
  simpa only [Settings.encode, List.append_nil] using split_unlines clean List.not_mem_nil

theorem written_lines (c : ConfigInfo) :
    Card.reliable.written c = unlines newline (Field.all.map c.str) := by
  simp only [Card.written, Card.reliable, Option.getD_none, List.take_length, writeCalls,
    List.mapIdx_cons, List.mapIdx_nil, List.flatten_cons, List.flatten_nil, Field.all,
    List.map_cons, List.map_nil, unlines, List.flatMap_cons, List.flatMap_nil, List.append_assoc,
    List.append_nil]

theorem written_reliable {c : ConfigInfo} (holds : c.Holds s) :
    Card.reliable.written c = s.encode := by
  rw [written_lines, Settings.encode, Settings.lines]
  exact congrArg _ (List.map_congr_left fun f _ => holds f)

theorem initFromFile_encode_slot (s : Settings) (d : ConfigInfo) :
    ∃ e, initFromFile (some s.encode) d = some (.ok e) ∧
      ∀ f, e.slot f = (s f).bytes ++ 0 :: (d.slot f).drop ((s f).bytes.length + 1) := by
  have short : ∀ l ∈ (split newline s.encode).1, l.length < strSize := by
    intro l member
    rw [split_encode] at member
    obtain ⟨f, rfl⟩ := s.mem_lines member
    exact (s f).short
  obtain ⟨e, read, cells, _⟩ := initFromFile_split s.encode d
    (by rw [split_encode]; exact Nat.le_refl 5) short (by rw [split_encode]; exact Nat.zero_le _)
  exact ⟨e, read, fun f => cells f _ (by rw [split_encode]; exact s.lines_get f)⟩

theorem initFromFile_encode (s : Settings) (d : ConfigInfo) :
    ∃ e, initFromFile (some s.encode) d = some (.ok e) ∧ e.Holds s := by
  obtain ⟨e, read, cells⟩ := initFromFile_encode_slot s d
  exact ⟨e, read, fun f => (s f).str (cells f)⟩

/-- Saving and loading restores the strings; loading and saving restores the
file. The prior struct and the prior file do not matter. -/
theorem config_codec_bijection :
    (∀ c : ConfigInfo, c.Terminated → (∀ f, newline ∉ c.str f) → ∀ d file,
      ∃ content, writeToFile .reliable file c = (.ok (), some content) ∧
        ∃ e, initFromFile (some content) d = some (.ok e) ∧ ∀ f, e.str f = c.str f) ∧
    (∀ (s : Settings) (d : ConfigInfo),
      ∃ e, initFromFile (some s.encode) d = some (.ok e) ∧
        ∀ file, writeToFile .reliable file e = (.ok (), some s.encode)) := by
  constructor
  · intro c short noNewline d file
    have holds : c.Holds (c.settings short noNewline) := fun _ => rfl
    obtain ⟨e, read, strings⟩ := initFromFile_encode (c.settings short noNewline) d
    refine ⟨_, ?_, e, read, strings⟩
    simp only [writeToFile, Card.reliable, if_true]
    exact congrArg (fun content => (Except.ok (), some content)) (written_reliable holds)
  · intro s d
    obtain ⟨e, read, holds⟩ := initFromFile_encode s d
    refine ⟨e, read, fun file => ?_⟩
    simp only [writeToFile, Card.reliable, if_true]
    exact congrArg (fun content => (Except.ok (), some content)) (written_reliable holds)

def lettered : Settings := fun _ => ⟨[97], by decide, by decide, by decide⟩

theorem config_codec_bijection_lettered :
    ∃ content, writeToFile .reliable none lettered.pack = (.ok (), some content) ∧
      ∃ e, initFromFile (some content) .zeroed = some (.ok e) ∧
        ∀ f, e.str f = lettered.pack.str f :=
  config_codec_bijection.1 lettered.pack lettered.pack_holds.terminated
    (fun f => by rw [lettered.pack_holds f]; exact (lettered f).noNewline) .zeroed none

theorem interrupted_opened (file : Option (List UInt8)) (c : ConfigInfo) (j : Nat) :
    interrupted (j + 1) file c = some (((writeCalls c).take j).flatten) := by
  have writes : ∀ (calls : List (List UInt8)) (text : List UInt8),
      (calls.map FileOp.write).foldl FileOp.perform (some text) = some (text ++ calls.flatten) := by
    intro calls
    induction calls with
    | nil => simp
    | cons call calls ih =>
      intro text
      rw [List.map_cons, List.foldl_cons, FileOp.perform, Option.map_some, ih]
      simp
  have closed : ∀ (n : Nat) (text : List UInt8),
      (([FileOp.close]).take n).foldl FileOp.perform (some text) = some text := by
    intro n text
    cases n <;> simp [FileOp.perform]
  simp only [interrupted, saveOps, List.cons_append, List.take_succ_cons, List.foldl_cons,
    FileOp.perform, List.take_append, List.foldl_append, ← List.map_take, writes, closed,
    List.nil_append]

/-- `j` writes are `j / 2` complete lines and at most one line that lacks its
terminator. -/
theorem take_writes (nl : UInt8) (ls : List (List UInt8)) (j : Nat) :
    ∃ rest, (((ls.flatMap fun l => [l, [nl]]).take j).flatten = unlines nl (ls.take (j / 2)) ++ rest) ∧
      (rest = [] ∨ rest ∈ ls) := by
  induction ls generalizing j with
  | nil => exact ⟨[], by simp [unlines], .inl rfl⟩
  | cons l ls ih =>
    cases j with
    | zero => exact ⟨[], by simp [unlines], .inl rfl⟩
    | succ j =>
      cases j with
      | zero => exact ⟨l, by simp [unlines], .inr List.mem_cons_self⟩
      | succ j =>
        obtain ⟨rest, same, kind⟩ := ih j
        refine ⟨rest, ?_, kind.imp_right (List.mem_cons_of_mem l)⟩
        have half : (j + 1 + 1) / 2 = j / 2 + 1 := by omega
        rw [half, List.take_succ_cons, unlines_cons, List.flatMap_cons]
        simp only [List.cons_append, List.nil_append, List.take_succ_cons, List.flatten_cons, same,
          List.append_assoc]

theorem writeCalls_eq {c : ConfigInfo} (holds : c.Holds s) :
    writeCalls c = s.lines.flatMap fun l => [l, [newline]] := by
  simp only [writeCalls, holds _, Settings.lines, Field.all, List.map_cons, List.map_nil,
    List.flatMap_cons, List.flatMap_nil, List.cons_append, List.nil_append]

theorem interrupted_read {c : ConfigInfo} (holds : c.Holds new) (file : Option (List UInt8))
    (d : ConfigInfo) (j : Nat) :
    ∃ e, initFromFile (interrupted (j + 1) file c) d = some (.ok e) ∧ ∀ f : Field,
      (2 * f.index + 2 ≤ j → e.str f = (new f).bytes) ∧
      (j < 2 * f.index + 2 → e.slot f = d.slot f) := by
  obtain ⟨rest, content, kind⟩ := take_writes newline new.lines j
  have members : ∀ l ∈ new.lines, newline ∉ l ∧ l.length < strSize := by
    intro l member
    obtain ⟨f, rfl⟩ := new.mem_lines member
    exact ⟨(new f).noNewline, (new f).short⟩
  have restGood : newline ∉ rest ∧ rest.length ≤ strSize := by
    rcases kind with rfl | member
    · exact ⟨List.not_mem_nil, by simp⟩
    · exact ⟨(members rest member).1, Nat.le_of_lt (members rest member).2⟩
  have pieces : split newline (unlines newline (new.lines.take (j / 2)) ++ rest) =
      (new.lines.take (j / 2), rest) :=
    split_unlines (fun l member => (members l (List.mem_of_mem_take member)).1) restGood.1
  obtain ⟨e, read, cells, frames⟩ := initFromFile_split
    (unlines newline (new.lines.take (j / 2)) ++ rest) d
    (by rw [pieces, List.length_take]; exact Nat.min_le_right _ _)
    (by rw [pieces]; exact fun l member => (members l (List.mem_of_mem_take member)).2)
    (by rw [pieces]; exact restGood.2)
  rw [pieces] at cells frames
  refine ⟨e, by rw [interrupted_opened, writeCalls_eq holds, content]; exact read, fun f => ⟨?_, ?_⟩⟩
  · intro complete
    apply (new f).str
    apply cells f
    rw [List.getElem?_take_of_lt (by omega), new.lines_get]
  · intro missing
    apply frames f
    rw [List.length_take]
    omega

/-- No reader ever sees an old string in a file that a save has opened: before
the open it gets all old strings, afterwards the new strings whose lines are
complete, and all of them once the tenth write was made. -/
theorem interrupted_save_never_mixes (old new : Settings) (c d : ConfigInfo)
    (holds : c.Holds new) (k : Nat) :
    ∃ result, initFromFile (interrupted k (some old.encode) c) d = some result ∧
      ∀ e, result = .ok e →
        (k = 0 → e.Holds old) ∧ (11 ≤ k → e.Holds new) ∧
        (0 < k → ∀ f : Field, (2 * f.index + 3 ≤ k → e.str f = (new f).bytes) ∧
          (k < 2 * f.index + 3 → e.slot f = d.slot f)) := by
  cases k with
  | zero =>
    obtain ⟨e, read, oldStrings⟩ := initFromFile_encode old d
    refine ⟨_, read, ?_⟩
    rintro _ ⟨⟩
    exact ⟨fun _ => oldStrings, fun impossible => by omega, fun impossible => by omega⟩
  | succ j =>
    obtain ⟨e, read, members⟩ := interrupted_read holds (some old.encode) d j
    refine ⟨_, read, ?_⟩
    rintro _ ⟨⟩
    refine ⟨fun impossible => by omega, fun all f => (members f).1 ?_, fun _ f => ⟨?_, ?_⟩⟩
    · have := f.index_lt
      omega
    · exact fun complete => (members f).1 (by omega)
    · exact fun missing => (members f).2 (by omega)

/-- Other strings than `lettered`, of another length. -/
def relettered : Settings := fun _ => ⟨[98, 99], by decide, by decide, by decide⟩

/-- The power fails between the second string and its newline. -/
theorem interrupted_save_never_mixes_relettered :
    ∃ result, initFromFile (interrupted 4 (some lettered.encode) relettered.pack) .zeroed =
        some result ∧
      ∀ e, result = .ok e →
        ((4 : Nat) = 0 → e.Holds lettered) ∧ (11 ≤ 4 → e.Holds relettered) ∧
        (0 < 4 → ∀ f : Field, (2 * f.index + 3 ≤ 4 → e.str f = (relettered f).bytes) ∧
          (4 < 2 * f.index + 3 → e.slot f = ConfigInfo.zeroed.slot f)) :=
  interrupted_save_never_mixes lettered relettered relettered.pack .zeroed relettered.pack_holds 4

/-- A struct whose first member is the two lines `a` and `b`. -/
def twoLined : ConfigInfo :=
  ⟨[97, newline, 98] ++ List.replicate 497 0, by rw [List.length_append, List.length_replicate]; rfl⟩

set_option maxRecDepth 4000 in
/-- A save cut right after its open: the reader reports success and delivers
neither the old nor the new strings. A string with a newline is not even read
back from the complete file: the sixth line lies past the struct. -/
theorem save_not_atomic : lettered.pack.Holds lettered ∧
    (∃ e, initFromFile (interrupted 1 (some lettered.encode) lettered.pack) .zeroed =
      some (.ok e) ∧ ¬ e.Holds lettered) ∧
    twoLined.Terminated ∧
    initFromFile (interrupted 12 (some lettered.encode) twoLined) .zeroed = none := by
  refine ⟨lettered.pack_holds, ⟨.zeroed, rfl, ?_⟩, ?_, rfl⟩
  · exact fun holds => absurd (holds .wifiName) (by decide)
  · intro f
    cases f <;> decide

end RemoteBoot.Config
