import RemoteBoot.Console.Command

/-! The input loop of `config_init`: the line editor and what it passes to
`cmd_handle`. A character goes through a signed 8-bit variable; the buffer is
never cleared between lines. -/
namespace RemoteBoot.Console
open Config

def escKey : Int8 := 0x1B
def backspaceKey : Int8 := 0x08
def delectKey : Int8 := 0x7F

/-- `sizeof(cur_line)` -/
def lineSize : Nat := 128

/-- The locals of the loop beside the statics of `cmd_handle`. -/
structure Editor where
  console : State
  curLine : List UInt8
  size : curLine.length = lineSize
  curLineLen : Nat
  fits : curLineLen ≤ lineSize
  running : Bool

/-- What the loop does for its reader. A call of `cmd_handle` is recorded with
the characters that count. -/
inductive Output where
  | putc (ch : Int8)
  | cmdHandle (data : List UInt8) (dataLen : Nat)
  | action (a : Action)

namespace Editor

/-- `config_init` at the head of its loop. -/
def start (config : ConfigInfo) (curLvl : Nat) (configTemp : ConfigInfo) : Editor where
  console := ⟨.null, config, curLvl, configTemp⟩
  curLine := List.replicate lineSize 0
  size := List.length_replicate
  curLineLen := 0
  fits := Nat.zero_le _
  running := true

/-- `cur_line[cur_line_len++] = ch`. A store past the buffer is undefined. -/
def putChar (e : Editor) (ch : Int8) : Option Editor :=
  if room : e.curLineLen < lineSize then
    some { e with
      curLine := e.curLine.set e.curLineLen ch.toUInt8
      size := by rw [List.length_set, e.size]
      curLineLen := e.curLineLen + 1
      fits := room }
  else none

/-- `cur_line[--cur_line_len] = 0` -/
def rubOut (e : Editor) : Editor :=
  { e with
    curLine := e.curLine.set (e.curLineLen - 1) 0
    size := by rw [List.length_set, e.size]
    curLineLen := e.curLineLen - 1
    fits := Nat.le_trans (Nat.sub_le _ _) e.fits }

def clear (e : Editor) (console : State) : Editor :=
  { e with console, curLineLen := 0, fits := Nat.zero_le _ }

/-- ESC inside an entry: `cur_cmd = CMD_NULL` -/
def leave (e : Editor) : Editor := { e with console := { e.console with curCmd := .null } }

/-- One turn of the loop. After the `break` nothing is read any more. -/
def step (e : Editor) (byte : UInt8) : Option (Editor × List Output) :=
  let ch := byte.toInt8
  if e.running = false then some (e, [])
  else if ch = escKey ∧ e.console.curCmd ≠ .null then
    some (e.leave, guideInfoPrint.map .action)
  else if ch = escKey then some ({ e with running := false }, [])
  else if ch = backspaceKey ∨ ch = delectKey then
    if 0 < e.curLineLen then some (e.rubOut, [.action (.kprintf "\x08 \x08")]) else some (e, [])
  else if ch = 13 ∨ ch = 10 then
    if 0 < e.curLineLen then do
      let (console, actions) ← cmdHandle e.console e.curLine e.curLineLen
      some (e.clear console, .action (.kprintf "\n") ::
        .cmdHandle (e.curLine.take e.curLineLen) e.curLineLen :: actions.map .action)
    else some (e.clear e.console, [])
  else do
    let e ← e.putChar ch
    some (e, [.putc ch])

def loop (e : Editor) : List UInt8 → Option (Editor × List Output)
  | [] => some (e, [])
  | byte :: bytes => do
    let (e, first) ← e.step byte
    let (e, rest) ← e.loop bytes
    some (e, first ++ rest)

/-- The line being typed. -/
def line (e : Editor) : List UInt8 := e.curLine.take e.curLineLen

end Editor

inductive Key where
  | esc | rubout | enter | char
  deriving DecidableEq

def Key.of (byte : UInt8) : Key :=
  if byte = 27 then .esc else if byte = 8 ∨ byte = 127 then .rubout
  else if byte = 13 ∨ byte = 10 then .enter else .char

theorem Key.of_eq_esc : Key.of byte = .esc ↔ byte = 27 := by
  grind [Key.of]

theorem Key.of_eq_rubout : Key.of byte = .rubout ↔ byte ≠ 27 ∧ (byte = 8 ∨ byte = 127) := by
  grind [Key.of]

theorem Key.of_eq_enter : Key.of byte = .enter ↔
    byte ≠ 27 ∧ ¬ (byte = 8 ∨ byte = 127) ∧ (byte = 13 ∨ byte = 10) := by
  grind [Key.of]

theorem Key.of_eq_char : Key.of byte = .char ↔
    byte ≠ 27 ∧ ¬ (byte = 8 ∨ byte = 127) ∧ ¬ (byte = 13 ∨ byte = 10) := by
  grind [Key.of]

/-- `cmd_handle` looks at the characters that count and at no others. -/
theorem cmdHandle_take (s : State) {data : List UInt8} {n : Nat} (positive : 0 < n) :
    cmdHandle s data n = cmdHandle s (data.take n) n := by
  have taken : (data.take n).take n = data.take n := by
    rw [List.take_take, Nat.min_self]
  have head : (data.take n).headD 0 = data.headD 0 := by
    cases data with
    | nil => rw [List.take_nil]
    | cons byte data => rw [List.take_cons positive]; rfl
  have accepted : macAccepted (data.take n) n = macAccepted data n := by
    rw [macAccepted, macAccepted]
    by_cases width : n = 17
    · subst width
      simp [List.getD_eq_getElem?_getD, List.getElem?_take]
    · have other : (n == 17) = false := by simpa using width
      rw [other, Bool.false_and, Bool.false_and]
  rw [cmdHandle, cmdHandle]
  cases s.curCmd with
  | null => simp only [menu, head]
  | wifi => simp only [wifiEntry, pairEntry, taken]
  | mqtt => simp only [mqttEntry, pairEntry, taken]
  | mac => simp only [macEntry, taken, accepted]

/-- A full line stored in any member but the last ends inside the struct. -/
theorem room_line {f : Field} (small : f.index < 4) {n : Nat} (fits : n ≤ lineSize) :
    f.offset + n < 5 * strSize := by
  simp only [Field.offset, strSize, lineSize] at fits ⊢
  omega

/-- A line that fits the buffer stays inside the struct, though not inside a member. -/
theorem cmdHandle_isSome (s : State) {l : List UInt8} (fits : l.length ≤ lineSize) :
    ∃ r, cmdHandle s l l.length = some r := by
  have pair : ∀ first second ask saved, first.index < second.index → second.index < 4 →
      ∃ r, pairEntry first second ask saved s l l.length = some r := by
    intro first second ask saved order small
    by_cases fresh : s.curLvl = 1
    · obtain ⟨_, entered, _⟩ := pairEntry_first s fresh (room_line (f := first) (by omega) fits)
      exact ⟨_, entered⟩
    · by_cases waiting : s.curLvl = 2
      · obtain ⟨_, _, entered, _⟩ := pairEntry_second s order waiting (room_line small fits)
        exact ⟨_, entered⟩
      · exact ⟨_, pairEntry_neither s fresh waiting l l.length⟩
  rw [cmdHandle]
  cases s.curCmd with
  | null => exact ⟨_, rfl⟩
  | wifi => exact pair _ _ _ _ (by decide) (by decide)
  | mqtt => exact pair _ _ _ _ (by decide) (by decide)
  | mac =>
    by_cases accepted : macAccepted l l.length = true
    · obtain ⟨_, entered, _⟩ := macEntry_stores s accepted
      exact ⟨_, entered⟩
    · exact ⟨_, macEntry_refused s accepted⟩

namespace Editor

theorem length_line (e : Editor) : e.line.length = e.curLineLen := by
  rw [line, List.length_take, e.size, Nat.min_eq_left e.fits]

theorem line_eq_nil_iff (e : Editor) : e.line = [] ↔ e.curLineLen = 0 := by
  rw [← e.length_line, List.length_eq_zero_iff]

theorem putChar_line {e t : Editor} {ch : Int8} (stored : e.putChar ch = some t) :
    t.line = e.line ++ [ch.toUInt8] ∧ t.console = e.console ∧ t.running = e.running := by
  unfold putChar at stored
  split at stored
  · rename_i room
    cases stored
    refine ⟨?_, rfl, rfl⟩
    have inside : e.curLineLen < (e.curLine.set e.curLineLen ch.toUInt8).length := by
      rw [List.length_set, e.size]
      exact room
    simp only [line]
    rw [List.take_succ_eq_append_getElem inside, List.take_set_of_le (Nat.le_refl _),
      List.getElem_set_self]
  · cases stored

theorem putChar_isSome (e : Editor) (ch : Int8) :
    (∃ t, e.putChar ch = some t) ↔ e.line.length < lineSize := by
  rw [length_line, putChar]
  split
  · rename_i room
    exact iff_of_true ⟨_, rfl⟩ room
  · rename_i full
    exact iff_of_false nofun full

theorem rubOut_line (e : Editor) : e.rubOut.line = e.line.dropLast := by
  simp only [rubOut, line]
  rw [List.take_set_of_le (Nat.le_refl _), List.dropLast_eq_take, List.length_take, e.size,
    Nat.min_eq_left e.fits, List.take_take, Nat.min_eq_left (Nat.sub_le _ _)]

theorem toInt8_eq_iff (byte key : UInt8) : byte.toInt8 = key.toInt8 ↔ byte = key :=
  ⟨congrArg Int8.toUInt8, congrArg UInt8.toInt8⟩

theorem keys (byte : UInt8) : (byte.toInt8 = escKey ↔ byte = 27) ∧
    (byte.toInt8 = backspaceKey ↔ byte = 8) ∧ (byte.toInt8 = delectKey ↔ byte = 127) ∧
    (byte.toInt8 = 13 ↔ byte = 13) ∧ (byte.toInt8 = 10 ↔ byte = 10) :=
  ⟨toInt8_eq_iff byte 27, toInt8_eq_iff byte 8, toInt8_eq_iff byte 127, toInt8_eq_iff byte 13,
    toInt8_eq_iff byte 10⟩

section Step
variable {e : Editor} {byte : UInt8}

theorem step_stopped (stopped : e.running = false) : e.step byte = some (e, []) := by
  rw [step]
  exact if_pos stopped

theorem step_running (running : e.running = true) : e.step byte =
    if byte = 27 ∧ e.console.curCmd ≠ .null then
      some (e.leave, guideInfoPrint.map .action)
    else if byte = 27 then some ({ e with running := false }, [])
    else if byte = 8 ∨ byte = 127 then
      if 0 < e.curLineLen then some (e.rubOut, [.action (.kprintf "\x08 \x08")]) else some (e, [])
    else if byte = 13 ∨ byte = 10 then
      if 0 < e.curLineLen then (cmdHandle e.console e.curLine e.curLineLen).map fun r =>
        (e.clear r.1, .action (.kprintf "\n") ::
          .cmdHandle (e.curLine.take e.curLineLen) e.curLineLen :: r.2.map .action)
      else some (e.clear e.console, [])
    else (e.putChar byte.toInt8).map fun t => (t, [.putc byte.toInt8]) := by
  obtain ⟨esc, backspace, delect, cr, lf⟩ := keys byte
  rw [step, if_neg (by rw [running]; decide)]
  simp only [esc, backspace, delect, cr, lf, Option.map_eq_bind, Option.bind_eq_bind]
  rfl

theorem step_leave (running : e.running = true) (inEntry : e.console.curCmd ≠ .null) :
    e.step 27 = some (e.leave, guideInfoPrint.map .action) := by
  rw [step_running running, if_pos ⟨rfl, inEntry⟩]

theorem step_break (running : e.running = true) (atMenu : e.console.curCmd = .null) :
    e.step 27 = some ({ e with running := false }, []) := by
  rw [step_running running, if_neg fun both => both.2 atMenu, if_pos rfl]

theorem step_rubout (running : e.running = true) (key : Key.of byte = .rubout) :
    e.step byte = if 0 < e.curLineLen then some (e.rubOut, [.action (.kprintf "\x08 \x08")])
      else some (e, []) := by
  obtain ⟨notEsc, rubout⟩ := Key.of_eq_rubout.mp key
  rw [step_running running, if_neg fun both => notEsc both.1, if_neg notEsc, if_pos rubout]

/-- A line that is not empty goes to `cmd_handle`. -/
theorem step_enter (running : e.running = true) (key : Key.of byte = .enter)
    (typed : e.line ≠ []) :
    e.step byte = (cmdHandle e.console e.line e.line.length).map fun r =>
      (e.clear r.1, .action (.kprintf "\n") :: .cmdHandle e.line e.line.length ::
        r.2.map .action) := by
  obtain ⟨notEsc, notRubout, enter⟩ := Key.of_eq_enter.mp key
  have positive : 0 < e.curLineLen := Nat.pos_of_ne_zero fun zero => typed (e.line_eq_nil_iff.mpr zero)
  rw [step_running running, if_neg fun both => notEsc both.1, if_neg notEsc, if_neg notRubout,
    if_pos enter, if_pos positive, cmdHandle_take e.console positive, e.length_line]
  rfl

theorem step_enter_empty (running : e.running = true) (key : Key.of byte = .enter)
    (empty : e.line = []) : e.step byte = some (e.clear e.console, []) := by
  obtain ⟨notEsc, notRubout, enter⟩ := Key.of_eq_enter.mp key
  have zero := e.line_eq_nil_iff.mp empty
  rw [step_running running, if_neg fun both => notEsc both.1, if_neg notEsc, if_neg notRubout,
    if_pos enter, if_neg (by omega)]

theorem step_char (running : e.running = true) (key : Key.of byte = .char) :
    e.step byte = (e.putChar byte.toInt8).map fun t => (t, [.putc byte.toInt8]) := by
  obtain ⟨notEsc, notRubout, notEnter⟩ := Key.of_eq_char.mp key
  rw [step_running running, if_neg fun both => notEsc both.1, if_neg notEsc, if_neg notRubout,
    if_neg notEnter]

end Step

theorem loop_append {e t u : Editor} {bytes more : List UInt8} {first second : List Output}
    (head : e.loop bytes = some (t, first)) (tail : t.loop more = some (u, second)) :
    e.loop (bytes ++ more) = some (u, first ++ second) := by
  induction bytes generalizing e first with
  | nil =>
    cases head
    exact tail
  | cons byte bytes ih =>
    simp only [loop, Option.bind_eq_bind, Option.bind_eq_some_iff, Option.some.injEq,
      Prod.mk.injEq, Prod.exists] at head
    obtain ⟨middle, now, stepped, _, later, rest, rfl, rfl⟩ := head
    simp only [List.cons_append, loop, stepped, ih rest, Option.bind_eq_bind, Option.bind_some,
      List.append_assoc]

theorem loop_single {e t : Editor} {byte : UInt8} {out : List Output}
    (stepped : e.step byte = some (t, out)) : e.loop [byte] = some (t, out) := by
  simp [loop, stepped]

end Editor

/-- The calls of `cmd_handle`: the characters and their number. -/
def delivered (out : List Output) : List (List UInt8 × Nat) :=
  out.filterMap fun
    | .cmdHandle data dataLen => some (data, dataLen)
    | _ => none

/-- The configurations handed to `write_to_file`. -/
def savedBy (out : List Output) : List ConfigInfo :=
  out.filterMap fun
    | .action (.writeToFile info) => some info
    | _ => none

@[simp] theorem delivered_append (a b : List Output) :
    delivered (a ++ b) = delivered a ++ delivered b :=
  List.filterMap_append

@[simp] theorem savedBy_append (a b : List Output) : savedBy (a ++ b) = savedBy a ++ savedBy b :=
  List.filterMap_append

@[simp] theorem delivered_cons_action (a : Action) (out : List Output) :
    delivered (.action a :: out) = delivered out := rfl

@[simp] theorem delivered_cons_cmdHandle (data : List UInt8) (dataLen : Nat) (out : List Output) :
    delivered (.cmdHandle data dataLen :: out) = (data, dataLen) :: delivered out := rfl

@[simp] theorem savedBy_cons_kprintf (text : String) (out : List Output) :
    savedBy (.action (.kprintf text) :: out) = savedBy out := rfl

@[simp] theorem savedBy_cons_cmdHandle (data : List UInt8) (dataLen : Nat) (out : List Output) :
    savedBy (.cmdHandle data dataLen :: out) = savedBy out := rfl

@[simp] theorem delivered_actions (actions : List Action) : delivered (actions.map .action) = [] := by
  induction actions with
  | nil => rfl
  | cons action actions ih => exact ih

@[simp] theorem savedBy_actions (actions : List Action) :
    savedBy (actions.map .action) = saves actions := by
  induction actions with
  | nil => rfl
  | cons action actions ih =>
    cases action with
    | kprintf text => exact ih
    | writeToFile info => exact congrArg (info :: ·) ih
end RemoteBoot.Console
