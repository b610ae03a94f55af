import RemoteBoot.Console.Editor
import RemoteBoot.Transition

/-! Every store of the input loop into the line buffer and into the members of
an entry. The buffer has 128 characters and a member 100; the length of the
line is compared with neither. -/
namespace RemoteBoot.Console
open Config Transition

/-- A store to `cur_line[index]`, or a copy of the line to a member with the NUL
at `data_len`. -/
inductive Access where
  | curLine (index : Nat)
  | copy (member : Field) (dataLen : Nat)
  deriving DecidableEq, Repr

def Access.InBounds : Access → Prop
  | .curLine index => index < lineSize
  | .copy _ dataLen => dataLen < strSize

def pairCopies (first second : Field) (curLvl dataLen : Nat) : List Access :=
  if curLvl = 1 then [.copy first dataLen]
  else if curLvl = 2 then [.copy second dataLen] else []

/-- The copy that `cmd_handle` makes of its line. -/
def copies (s : State) (data : List UInt8) (dataLen : Nat) : List Access :=
  match s.curCmd with
  | .null => []
  | .wifi => pairCopies .wifiName .wifiPassword s.curLvl dataLen
  | .mqtt => pairCopies .mqttUsername .mqttPasswd s.curLvl dataLen
  | .mac => if macAccepted data dataLen then [.copy .macAddress dataLen] else []

/-- The stores of one turn of the loop. -/
def Editor.accesses (e : Editor) (byte : UInt8) : List Access :=
  if e.running = false then []
  else match Key.of byte with
    | .esc => []
    | .rubout => if 0 < e.curLineLen then [.curLine (e.curLineLen - 1)] else []
    | .enter => if 0 < e.curLineLen then copies e.console e.curLine e.curLineLen else []
    | .char => [.curLine e.curLineLen]

/-- The loop with a record of its stores and outputs. The editor is gone after a
turn that is undefined. -/
structure Watched where
  editor : Option Editor
  accesses : List Access
  out : List Output

namespace Watched

def start (config : ConfigInfo) (curLvl : Nat) (configTemp : ConfigInfo) : Watched :=
  ⟨some (.start config curLvl configTemp), [], []⟩

def step (w : Watched) (byte : UInt8) : Option Watched :=
  match w.editor with
  | none => some w
  | some e => match e.step byte with
    | some (t, out) => some ⟨some t, w.accesses ++ e.accesses byte, w.out ++ out⟩
    | none => some ⟨none, w.accesses ++ e.accesses byte, w.out⟩

end Watched

/-- Each member ends with a NUL of its own. -/
def Ended (info : ConfigInfo) : Prop := ∀ f, 0 ∈ info.slot f

/-- No store left its buffer, and no save has a member run on into the next. -/
structure Sound (w : Watched) : Prop where
  inside : ∀ access ∈ w.accesses, access.InBounds
  saved : ∀ info ∈ savedBy w.out, Ended info

/-- There is room in the buffer for a character, and in a member of the entry for
the line and its NUL. -/
structure Editor.Fits (e : Editor) (byte : UInt8) : Prop where
  char : e.running = true → Key.of byte = .char → e.curLineLen < lineSize
  enter : e.running = true → Key.of byte = .enter → e.console.curCmd.first.isSome →
    e.curLineLen < strSize

/-- The members that a line replaces, if it is the last one of an entry. -/
def State.replaced (s : State) (line : List UInt8) : Option (List Field) :=
  match s.curCmd with
  | .null => none
  | .wifi => if s.curLvl = 2 then some [.wifiName, .wifiPassword] else none
  | .mqtt => if s.curLvl = 2 then some [.mqttUsername, .mqttPasswd] else none
  | .mac => if macAccepted line line.length then some [.macAddress] else none

/-- The members that are saved along with an entry end with a NUL already. -/
def State.Keeps (s : State) (line : List UInt8) : Prop :=
  ∀ fields ∈ s.replaced line, ∀ f, f ∉ fields → 0 ∈ s.config.slot f

theorem State.keeps_of_ended {s : State} (ended : Ended s.config) (line : List UInt8) : s.Keeps line :=
  fun _ _ f _ => ended f

def Editor.Keeps (e : Editor) (byte : UInt8) : Prop :=
  e.running = true → Key.of byte = .enter → 0 < e.curLineLen → e.console.Keeps e.line

def Watched.Roomy (w : Watched) (byte : UInt8) : Prop := ∀ e ∈ w.editor, e.Fits byte

def Watched.Admitted (w : Watched) (byte : UInt8) : Prop :=
  ∀ e ∈ w.editor, e.Fits byte ∧ e.Keeps byte

/-- What an entry relies on: its level, and a scratch text that ends. -/
def Ready (s : State) : Prop :=
  ∀ f, s.curCmd.first = some f → s.curLvl = 1 ∨ s.curLvl = 2 ∧ 0 ∈ s.configTemp.slot f

theorem Ready.at_menu {s : State} (atMenu : s.curCmd = .null) : Ready s := by
  simp [Ready, atMenu, Cmd.first]

theorem zero_mem_spill {c : ConfigInfo} {l rest : List UInt8}
    (cells : c.slot f = (l ++ 0 :: rest).take strSize) (short : l.length < strSize) :
    0 ∈ c.slot f := by
  rw [cells, List.take_append, List.take_of_length_le (Nat.le_of_lt short),
    List.take_cons (by omega)]
  exact List.mem_append_right _ List.mem_cons_self

theorem pairCopies_inBounds {first second : Field} {curLvl : Nat} (n : Nat)
    (level : curLvl = 1 ∨ curLvl = 2) :
    (∀ access ∈ pairCopies first second curLvl n, access.InBounds) ↔ n < strSize := by
  rcases level with rfl | rfl
  · simp [pairCopies, Access.InBounds]
  · simp [pairCopies, Access.InBounds]

theorem copies_inBounds {s : State} (ready : Ready s) (data : List UInt8) (n : Nat) :
    (∀ access ∈ copies s data n, access.InBounds) ↔ (s.curCmd.first.isSome → n < strSize) := by
  have pair : ∀ first second, s.curCmd.first = some first →
      copies s data n = pairCopies first second s.curLvl n →
      ((∀ access ∈ copies s data n, access.InBounds) ↔
        (s.curCmd.first.isSome → n < strSize)) := by
    intro first second inPair copied
    have level : s.curLvl = 1 ∨ s.curLvl = 2 := (ready first inPair).imp_right And.left
    rw [copied, pairCopies_inBounds n level, inPair, Option.isSome_some]
    exact ⟨fun short _ => short, fun short => short rfl⟩
  cases cmd : s.curCmd with
  | null => simp [copies, cmd, Cmd.first]
  | wifi =>
    rw [← cmd]
    exact pair .wifiName .wifiPassword (by rw [cmd]; rfl) (by rw [copies, cmd])
  | mqtt =>
    rw [← cmd]
    exact pair .mqttUsername .mqttPasswd (by rw [cmd]; rfl) (by rw [copies, cmd])
  | mac =>
    refine iff_of_true (fun access member => ?_) (fun isPair => by cases isPair)
    simp only [copies, cmd] at member
    split at member
    · rename_i accepted
      obtain rfl := List.mem_singleton.mp member
      rw [macAccepted_length accepted]
      exact (by decide : 17 < strSize)
    · cases member

section Pair
variable {first second : Field} {ask saved : String}

theorem pairEntry_ready {s : State} (ready : Ready s) (inPair : s.curCmd.first = some first)
    (order : first.index < second.index)
    (replaces : s.replaced l = if s.curLvl = 2 then some [first, second] else none)
    (short : l.length < strSize) :
    ∃ r, pairEntry first second ask saved s l l.length = some r ∧ Ready r.1 ∧
      ((∀ info ∈ saves r.2, Ended info) ↔ s.Keeps l) ∧ (Ended s.config → Ended r.1.config) := by
  rcases ready first inPair with fresh | ⟨waiting, held⟩
  · obtain ⟨temp, entered, _, cells⟩ := pairEntry_first s fresh (first.room short)
    refine ⟨_, entered, fun f isFirst => .inr ⟨rfl, ?_⟩, ?_, id⟩
    · obtain rfl : first = f := Option.some.inj (inPair.symm.trans isFirst)
      exact zero_mem_spill cells short
    · simp [saves, State.Keeps, replaces, fresh]
  · obtain ⟨temp, config, entered, firstCells, ⟨_, secondCells⟩, frame⟩ :=
      pairEntry_second s order waiting (second.room short)
    have keeps : s.Keeps l ↔ ∀ f, f ≠ first ∧ f ≠ second → 0 ∈ s.config.slot f := by
      rw [State.Keeps, replaces, if_pos waiting]
      simp
    have ended : Ended config ↔ s.Keeps l := by
      rw [keeps]
      constructor
      · rintro ended f ⟨notFirst, notSecond⟩
        rw [← frame f notFirst notSecond]
        exact ended f
      · intro kept f
        by_cases isFirst : f = first
        · rw [isFirst, firstCells]
          exact held
        · by_cases isSecond : f = second
          · rw [isSecond]
            exact zero_mem_spill secondCells short
          · rw [frame f isFirst isSecond]
            exact kept f ⟨isFirst, isSecond⟩
    refine ⟨_, entered, .at_menu rfl, ?_, fun good => ended.mpr (State.keeps_of_ended good l)⟩
    rw [saves_write, saves_kprintf, saves_guide, List.forall_mem_singleton, ended]

end Pair

theorem macEntry_ready {s : State} (ready : Ready s) (inMac : s.curCmd = .mac) (l : List UInt8) :
    ∃ r, macEntry s l l.length = some r ∧ Ready r.1 ∧
      ((∀ info ∈ saves r.2, Ended info) ↔ s.Keeps l) ∧ (Ended s.config → Ended r.1.config) := by
  have replaces : s.replaced l = if macAccepted l l.length then some [.macAddress] else none := by
    rw [State.replaced, inMac]
  by_cases accepted : macAccepted l l.length = true
  · obtain ⟨config, entered, cells, frame⟩ := macEntry_stores s accepted
    have keeps : s.Keeps l ↔ ∀ f, f ≠ .macAddress → 0 ∈ s.config.slot f := by
      rw [State.Keeps, replaces, if_pos accepted]
      simp
    have ended : Ended config ↔ s.Keeps l := by
      rw [keeps]
      constructor
      · intro ended f other
        rw [← frame f other]
        exact ended f
      · intro kept f
        by_cases isMac : f = .macAddress
        · rw [isMac, cells]
          exact List.mem_append_right _ List.mem_cons_self
        · rw [frame f isMac]
          exact kept f isMac
    refine ⟨_, entered, .at_menu rfl, ?_, fun good => ended.mpr (State.keeps_of_ended good l)⟩
    rw [saves_write, saves_kprintf, saves_guide, List.forall_mem_singleton, ended]
  · refine ⟨_, macEntry_refused s accepted, ready, ?_, id⟩
    simp [saves, State.Keeps, replaces, accepted]

/-- A line that fits its member is entered; every member that is saved with it ends
exactly when those did that it does not replace. -/
theorem cmdHandle_ready {s : State} (ready : Ready s) {l : List UInt8}
    (short : s.curCmd.first.isSome → l.length < strSize) :
    ∃ r, cmdHandle s l l.length = some r ∧ Ready r.1 ∧
      ((∀ info ∈ saves r.2, Ended info) ↔ s.Keeps l) ∧ (Ended s.config → Ended r.1.config) := by
  rw [cmdHandle]
  cases cmd : s.curCmd with
  | null =>
    have keeps : s.Keeps l := by simp [State.Keeps, State.replaced, cmd]
    refine ⟨_, rfl, ?_⟩
    rw [menu]
    split
    · exact ⟨ready, by simp [keeps], id⟩
    · exact ⟨fun _ _ => .inl rfl, by simp [keeps], id⟩
  | wifi =>
    exact pairEntry_ready ready (by rw [cmd]; rfl) (by decide) (by rw [State.replaced, cmd])
      (short (by rw [cmd]; rfl))
  | mqtt =>
    exact pairEntry_ready ready (by rw [cmd]; rfl) (by decide) (by rw [State.replaced, cmd])
      (short (by rw [cmd]; rfl))
  | mac => exact macEntry_ready ready cmd l

namespace Editor

theorem accesses_inBounds {e : Editor} (ready : Ready e.console) (byte : UInt8) :
    (∀ access ∈ e.accesses byte, access.InBounds) ↔ e.Fits byte := by
  by_cases running : e.running = true
  · have fits : e.Fits byte ↔ (Key.of byte = .char → e.curLineLen < lineSize) ∧
        (Key.of byte = .enter → e.console.curCmd.first.isSome → e.curLineLen < strSize) :=
      ⟨fun fits => ⟨fits.char running, fits.enter running⟩,
        fun both => ⟨fun _ => both.1, fun _ => both.2⟩⟩
    rw [accesses, if_neg (by rw [running]; decide), fits]
    cases Key.of byte with
    | esc => simp
    | rubout =>
      have size := e.fits
      refine iff_of_true ?_ ⟨by simp, by simp⟩
      by_cases typed : 0 < e.curLineLen
      · simp only [if_pos typed, List.forall_mem_singleton, Access.InBounds]
        omega
      · simp [typed]
    | enter =>
      have some_line := copies_inBounds ready e.curLine e.curLineLen
      by_cases typed : 0 < e.curLineLen
      · simpa [typed] using some_line
      · have zero : e.curLineLen = 0 := by omega
        simp [zero, strSize]
    | char => simp [Access.InBounds]
  · have stopped : e.running = false := by simpa using running
    rw [accesses, if_pos stopped]
    exact iff_of_true (by simp) ⟨fun on => absurd on running, fun on => absurd on running⟩

/-- A turn that fits is defined and leaves the console ready. -/
theorem step_ready {e : Editor} (ready : Ready e.console) (fits : e.Fits byte) :
    ∃ t out, e.step byte = some (t, out) ∧ Ready t.console ∧
      ((∀ info ∈ savedBy out, Ended info) ↔ e.Keeps byte) ∧
      (Ended e.console.config → Ended t.console.config) := by
  by_cases running : e.running = true
  · cases key : Key.of byte with
    | esc =>
      have keeps : e.Keeps byte := by simp [Keeps, key]
      obtain rfl := Key.of_eq_esc.mp key
      by_cases atMenu : e.console.curCmd = .null
      · exact ⟨_, _, step_break running atMenu, ready, by simp [savedBy, keeps], id⟩
      · exact ⟨_, _, step_leave running atMenu, .at_menu rfl, by simp [keeps], id⟩
    | rubout =>
      have keeps : e.Keeps byte := by simp [Keeps, key]
      rw [step_rubout running key]
      split
      · exact ⟨_, _, rfl, ready, by simp [savedBy, keeps], id⟩
      · exact ⟨_, _, rfl, ready, by simp [savedBy, keeps], id⟩
    | enter =>
      by_cases empty : e.line = []
      · have zero := e.line_eq_nil_iff.mp empty
        exact ⟨_, _, step_enter_empty running key empty, ready, by simp [savedBy, Keeps, zero], id⟩
      · have typed : 0 < e.curLineLen := Nat.pos_of_ne_zero (mt e.line_eq_nil_iff.mpr empty)
        obtain ⟨r, handled, after, saved, kept⟩ := cmdHandle_ready ready (l := e.line)
          (by rw [e.length_line]; exact fits.enter running key)
        rw [step_enter running key empty, handled]
        refine ⟨_, _, rfl, after, ?_, kept⟩
        simpa [Keeps, running, key, typed] using saved
    | char =>
      have keeps : e.Keeps byte := by simp [Keeps, key]
      obtain ⟨t, stored⟩ := (e.putChar_isSome byte.toInt8).mpr
        (by rw [e.length_line]; exact fits.char running key)
      obtain ⟨_, console, _⟩ := putChar_line stored
      rw [step_char running key, stored]
      exact ⟨_, _, rfl, console ▸ ready, by simp [savedBy, keeps], console ▸ id⟩
  · have stopped : e.running = false := by simpa using running
    exact ⟨_, _, step_stopped stopped, ready, by simp [savedBy, Keeps, stopped], id⟩

end Editor

namespace Watched

/-- The invariant of a run whose turns fit. -/
def Inv (w : Watched) : Prop := ∀ e ∈ w.editor, Ready e.console

/-- The stores of a turn are in the record also when it is undefined. -/
theorem step_accesses {w t : Watched} {e : Editor} (editor : w.editor = some e)
    (stepped : w.step byte = some t) : t.accesses = w.accesses ++ e.accesses byte := by
  simp only [step, editor] at stepped
  cases turn : e.step byte with
  | none =>
    rw [turn] at stepped
    cases stepped
    rfl
  | some r =>
    rw [turn] at stepped
    cases stepped
    rfl

theorem step_sound {w t : Watched} (inv : Inv w) (sound : Sound w)
    (admitted : w.Admitted byte) (stepped : w.step byte = some t) : Inv t ∧ Sound t := by
  cases editor : w.editor with
  | none =>
    simp only [step, editor] at stepped
    cases stepped
    exact ⟨inv, sound⟩
  | some e =>
    have ready := inv e editor
    obtain ⟨fits, keeps⟩ := admitted e editor
    obtain ⟨next, out, turn, after, saved, _⟩ := Editor.step_ready ready fits
    simp only [step, editor, turn] at stepped
    cases stepped
    refine ⟨fun _ same => Option.some.inj same ▸ after, ?_, ?_⟩
    · intro access member
      rcases List.mem_append.mp member with before | now
      · exact sound.inside access before
      · exact (Editor.accesses_inBounds ready byte).mpr fits access now
    · intro info member
      rw [savedBy_append] at member
      rcases List.mem_append.mp member with before | now
      · exact sound.saved info before
      · exact saved.mpr keeps info now

theorem admitted_of_sound {w t : Watched} (inv : Inv w) (stepped : w.step byte = some t)
    (after : Sound t) : w.Admitted byte := by
  intro e member
  have editor : w.editor = some e := member
  have ready := inv e editor
  have fits : e.Fits byte := by
    refine (Editor.accesses_inBounds ready byte).mp fun access member => ?_
    refine after.inside access ?_
    rw [step_accesses editor stepped]
    exact List.mem_append_right _ member
  obtain ⟨next, out, turn, _, saved, _⟩ := Editor.step_ready ready fits
  simp only [step, editor, turn] at stepped
  cases stepped
  refine ⟨fits, saved.mp fun info member => after.saved info ?_⟩
  rw [savedBy_append]
  exact List.mem_append_right _ member

theorem sound_step_iff {w t : Watched} (inv : Inv w) (sound : Sound w)
    (stepped : w.step byte = some t) : Sound t ↔ w.Admitted byte :=
  ⟨admitted_of_sound inv stepped, fun admitted => (step_sound inv sound admitted stepped).2⟩

theorem step_inv {w t : Watched} (inv : Inv w) (sound : Sound w)
    (stepped : w.step byte = some t) (after : Sound t) : Inv t :=
  (step_sound inv sound (admitted_of_sound inv stepped after) stepped).1

/-- With room for what is typed, members that end go on to do so. -/
theorem step_ended {w t : Watched} (inv : w.Inv ∧ ∀ e ∈ w.editor, Ended e.console.config)
    (roomy : w.Roomy byte) (stepped : w.step byte = some t) :
    t.Inv ∧ ∀ e ∈ t.editor, Ended e.console.config := by
  cases editor : w.editor with
  | none =>
    simp only [step, editor] at stepped
    cases stepped
    exact inv
  | some e =>
    obtain ⟨next, out, turn, after, _, kept⟩ :=
      Editor.step_ready (inv.1 e editor) (roomy e editor)
    simp only [step, editor, turn] at stepped
    cases stepped
    exact ⟨fun _ same => Option.some.inj same ▸ after,
      fun _ same => Option.some.inj same ▸ kept (inv.2 e editor)⟩

theorem start_sound (config : ConfigInfo) (curLvl : Nat) (configTemp : ConfigInfo) :
    Inv (start config curLvl configTemp) ∧ Sound (start config curLvl configTemp) := by
  constructor
  · intro e editor
    obtain rfl := Option.some.inj editor
    exact .at_menu rfl
  · constructor
    · simp [start]
    · simp [start, savedBy]

/-- The loop with its record can take any stream. -/
theorem exists_run (w : Watched) (stream : List UInt8) : ∃ t, Run step Free w stream t := by
  induction stream generalizing w with
  | nil => exact ⟨w, .refl w⟩
  | cons byte stream ih =>
    have total : ∃ t, w.step byte = some t := by
      rw [step]
      split
      · exact ⟨_, rfl⟩
      · split
        · exact ⟨_, rfl⟩
        · exact ⟨_, rfl⟩
    obtain ⟨middle, stepped⟩ := total
    obtain ⟨t, rest⟩ := ih middle
    exact ⟨t, .next trivial stepped rest⟩

theorem always_sound_iff {config configTemp : ConfigInfo} {curLvl : Nat} {stream : List UInt8}
    (run : Run step Free (start config curLvl configTemp) stream w) :
    Always step Sound (start config curLvl configTemp) stream ↔
      Run step Admitted (start config curLvl configTemp) stream w := by
  obtain ⟨inv, sound⟩ := start_sound config curLvl configTemp
  exact run.always_iff Inv step_inv sound_step_iff inv sound

end Watched

/-- No keystroke leaves a buffer, and every saved member ends, exactly when each
character finds room in the line buffer, each line of an entry leaves room for its
NUL in the member, and the members saved along with an entry have a NUL. -/
theorem no_overrun_iff (config : ConfigInfo) (curLvl : Nat) (configTemp : ConfigInfo)
    (stream : List UInt8) :
    Always Watched.step Sound (.start config curLvl configTemp) stream ↔
      ∃ w, Run Watched.step Watched.Admitted (.start config curLvl configTemp) stream w := by
  constructor
  · intro always
    obtain ⟨w, run⟩ := Watched.exists_run (.start config curLvl configTemp) stream
    exact ⟨w, (Watched.always_sound_iff run).mp always⟩
  · rintro ⟨w, admitted⟩
    exact (Watched.always_sound_iff admitted.free).mpr admitted

/-- A loop that starts with members that end needs nothing but the room. -/
theorem no_overrun_iff_room {config : ConfigInfo} (ended : Ended config) (curLvl : Nat)
    (configTemp : ConfigInfo) (stream : List UInt8) :
    Always Watched.step Sound (.start config curLvl configTemp) stream ↔
      ∃ w, Run Watched.step Watched.Roomy (.start config curLvl configTemp) stream w := by
  constructor
  · intro always
    obtain ⟨w, run⟩ := Watched.exists_run (.start config curLvl configTemp) stream
    have admitted := (Watched.always_sound_iff run).mp always
    exact ⟨w, admitted.weaken (fun _ => True) (fun _ _ _ => trivial)
      (fun _ both e member => (both e member).1) trivial⟩
  · rintro ⟨w, roomy⟩
    have inv := (Watched.start_sound config curLvl configTemp).1
    have admitted : Run Watched.step Watched.Admitted (.start config curLvl configTemp) stream w := by
      refine roomy.weaken (fun w => w.Inv ∧ ∀ e ∈ w.editor, Ended e.console.config)
        Watched.step_ended ?_ ⟨inv, fun e member => Option.some.inj member ▸ ended⟩
      exact fun inv room e member =>
        ⟨room e member, fun _ _ _ => State.keeps_of_ended (inv.2 e member) _⟩
    exact (Watched.always_sound_iff roomy.free).mpr admitted

/-- A Wi-Fi name of 100 characters. -/
def longName : List UInt8 := [49, 13] ++ List.replicate 100 97 ++ [13]

theorem overruns :
    ¬ Always Watched.step Sound (.start .zeroed 0 .zeroed) longName ∧
    ¬ Always Watched.step Sound (.start .zeroed 0 .zeroed) (List.replicate 129 97) := by
  have broken : ∀ stream access, ¬ access.InBounds →
      ((stream.foldlM Watched.step (.start .zeroed 0 .zeroed)).any
        fun w => decide (access ∈ w.accesses)) = true →
      ¬ Always Watched.step Sound (.start .zeroed 0 .zeroed) stream := by
    intro stream access outside executed always
    obtain ⟨w, run, member⟩ := Run.of_any executed
    exact outside ((run.always_last always).inside access (of_decide_eq_true member))
  exact ⟨broken _ (.copy .wifiName 100) (Nat.lt_irrefl 100) (by decide +kernel),
    broken _ (.curLine 128) (Nat.lt_irrefl 128) (by decide +kernel)⟩

end RemoteBoot.Console
