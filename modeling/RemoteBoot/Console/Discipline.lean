import Mathlib.Data.List.Induction
import RemoteBoot.Lines
import RemoteBoot.Console.Editor

/-! The line editor as a line discipline. The reference cuts the stream at its
line ends and edits each piece by itself; the loop edits in a buffer that keeps
what earlier lines left in it. -/
namespace RemoteBoot.Console
open Config Lines

def crToLf (byte : UInt8) : UInt8 := if byte = 13 then newline else byte

/-- A rub-out deletes the last character kept; any other character is kept. -/
def edit (line : List UInt8) (byte : UInt8) : List UInt8 :=
  if byte = 8 ∨ byte = 127 then line.dropLast else line ++ [byte]

/-- The stream cut at each CR or LF: the finished pieces and the one being typed. -/
def pieces (stream : List UInt8) : List (List UInt8) × List UInt8 :=
  split newline (stream.map crToLf)

/-- The lines that the discipline delivers, with their lengths. -/
def reference (stream : List UInt8) : List (List UInt8 × Nat) :=
  (((pieces stream).1.map fun piece => piece.foldl edit []).filter (· ≠ [])).map fun line =>
    (line, line.length)

/-- The line being typed at the end of a stream. -/
def typing (stream : List UInt8) : List UInt8 := (pieces stream).2.foldl edit []

theorem pieces_enter (stream : List UInt8) {byte : UInt8} (key : Key.of byte = .enter) :
    pieces (stream ++ [byte]) = ((pieces stream).1 ++ [(pieces stream).2], []) := by
  obtain ⟨_, _, enter⟩ := Key.of_eq_enter.mp key
  have ends : crToLf byte = newline := by
    rcases enter with rfl | rfl <;> rfl
  rw [pieces, List.map_append, List.map_singleton, split_concat, if_pos ends]
  rfl

theorem pieces_other (stream : List UInt8) {byte : UInt8} (key : Key.of byte ≠ .enter)
    (notEsc : byte ≠ 27) :
    pieces (stream ++ [byte]) = ((pieces stream).1, (pieces stream).2 ++ [byte]) := by
  have inside : ¬ (byte = 13 ∨ byte = 10) := by
    grind [Key.of]
  have kept : crToLf byte = byte := if_neg fun cr => inside (.inl cr)
  rw [pieces, List.map_append, List.map_singleton, kept, split_concat,
    if_neg (show byte ≠ newline from fun lf => inside (.inr lf))]
  rfl

theorem typing_enter (stream : List UInt8) {byte : UInt8} (key : Key.of byte = .enter) :
    typing (stream ++ [byte]) = [] := by
  rw [typing, pieces_enter stream key]
  rfl

theorem typing_other (stream : List UInt8) {byte : UInt8} (key : Key.of byte ≠ .enter)
    (notEsc : byte ≠ 27) : typing (stream ++ [byte]) = edit (typing stream) byte := by
  rw [typing, pieces_other stream key notEsc, List.foldl_append]
  rfl

theorem reference_enter (stream : List UInt8) {byte : UInt8} (key : Key.of byte = .enter) :
    reference (stream ++ [byte]) = reference stream ++
      if typing stream = [] then [] else [(typing stream, (typing stream).length)] := by
  rw [reference, pieces_enter stream key, List.map_append, List.filter_append, List.map_append]
  congr 1
  rw [List.map_singleton, show (pieces stream).2.foldl edit [] = typing stream from rfl]
  by_cases empty : typing stream = []
  · simp [empty]
  · simp [empty]

theorem reference_other (stream : List UInt8) {byte : UInt8} (key : Key.of byte ≠ .enter)
    (notEsc : byte ≠ 27) : reference (stream ++ [byte]) = reference stream := by
  rw [reference, pieces_other stream key notEsc]
  rfl

/-- The loop after any stream: the discipline was followed so far, and the
buffer holds the line being typed. -/
theorem loop_reference {e : Editor} {stream : List UInt8} (running : e.running = true)
    (fresh : e.line = []) (noEsc : 27 ∉ stream)
    (short : ∀ p, p <+: stream → (typing p).length < lineSize) :
    ∃ t out, e.loop stream = some (t, out) ∧ t.running = true ∧ t.line = typing stream ∧
      delivered out = reference stream := by
  induction stream using List.reverseRecOn with
  | nil => exact ⟨e, [], rfl, running, fresh, rfl⟩
  | append_singleton stream byte ih =>
    simp only [List.mem_append, List.mem_singleton, not_or] at noEsc
    obtain ⟨t, out, looped, stillRunning, typed, passed⟩ := ih noEsc.1
      fun p before => short p (before.trans (List.prefix_append _ _))
    have here := short stream (List.prefix_append _ _)
    have next : ∃ u more, t.step byte = some (u, more) ∧ u.running = true ∧
        u.line = typing (stream ++ [byte]) ∧
        reference (stream ++ [byte]) = reference stream ++ delivered more := by
      cases key : Key.of byte with
      | esc => exact absurd (Key.of_eq_esc.mp key).symm noEsc.2
      | rubout =>
        obtain ⟨_, rubout⟩ := Key.of_eq_rubout.mp key
        have line := typing_other stream (by simp [key]) (Ne.symm noEsc.2)
        rw [edit, if_pos rubout, ← typed] at line
        rw [reference_other stream (by simp [key]) (Ne.symm noEsc.2), line,
          Editor.step_rubout stillRunning key]
        split
        · exact ⟨_, _, rfl, stillRunning, t.rubOut_line, by simp [delivered]⟩
        · rename_i empty
          have nothing : t.line = [] := t.line_eq_nil_iff.mpr (by omega)
          exact ⟨_, _, rfl, stillRunning, by rw [nothing]; rfl, by simp [delivered]⟩
      | enter =>
        rw [typing_enter stream key, reference_enter stream key, ← typed]
        by_cases empty : t.line = []
        · rw [Editor.step_enter_empty stillRunning key empty, if_pos empty]
          exact ⟨_, _, rfl, stillRunning, rfl, rfl⟩
        · have fits : t.line.length ≤ lineSize := by
            rw [typed]
            exact Nat.le_of_lt here
          obtain ⟨r, handled⟩ := cmdHandle_isSome t.console fits
          rw [Editor.step_enter stillRunning key empty, handled, if_neg empty]
          exact ⟨_, _, rfl, stillRunning, rfl, by simp [delivered]⟩
      | char =>
        obtain ⟨_, notRubout, _⟩ := Key.of_eq_char.mp key
        have line := typing_other stream (by simp [key]) (Ne.symm noEsc.2)
        rw [edit, if_neg notRubout, ← typed] at line
        obtain ⟨u, stored⟩ := (t.putChar_isSome byte.toInt8).mpr (by rw [typed]; exact here)
        obtain ⟨added, _, sameRunning⟩ := Editor.putChar_line stored
        rw [reference_other stream (by simp [key]) (Ne.symm noEsc.2), line,
          Editor.step_char stillRunning key, stored]
        exact ⟨_, _, rfl, sameRunning.trans stillRunning, added, by simp [delivered]⟩
    obtain ⟨u, more, stepped, running', line, refs⟩ := next
    refine ⟨u, out ++ more, Editor.loop_append looped (Editor.loop_single stepped), running', line, ?_⟩
    rw [delivered_append, passed, refs]

/-- The console line editor implements its discipline: on a stream without ESC
whose line never outgrows 127 characters the calls of `cmd_handle` are those of
the reference. -/
theorem line_discipline (e : Editor) (running : e.running = true) (fresh : e.curLineLen = 0)
    {stream : List UInt8} (noEsc : 27 ∉ stream)
    (short : ∀ p, p <+: stream → (typing p).length ≤ 127) :
    ∃ t out, e.loop stream = some (t, out) ∧ delivered out = reference stream := by
  obtain ⟨t, out, looped, _, _, passed⟩ := loop_reference running (e.line_eq_nil_iff.mpr fresh) noEsc
    fun p before => Nat.lt_succ_of_le (short p before)
  exact ⟨t, out, looped, passed⟩

/-- `1`, a rub-out, `2`, CR and LF: one line. -/
def rubbedOut : List UInt8 := [49, 127, 50, 13, 10]

theorem line_discipline_rubbedOut : ∃ t out,
    (Editor.start .zeroed 0 .zeroed).loop rubbedOut = some (t, out) ∧
      delivered out = [([50], 1)] := by
  have short : ∀ p, p <+: rubbedOut → (typing p).length ≤ 127 := by
    intro p before
    have all : ∀ n < 6, (typing (rubbedOut.take n)).length ≤ 127 := by decide +kernel
    rw [List.prefix_iff_eq_take.mp before]
    exact all p.length (Nat.lt_succ_of_le before.length_le)
  exact line_discipline (.start .zeroed 0 .zeroed) rfl rfl (by decide) short

end RemoteBoot.Console
