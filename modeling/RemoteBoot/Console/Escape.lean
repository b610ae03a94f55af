import RemoteBoot.Console.Editor

/-! ESC in the middle of an entry against a loop started afresh. The level, the
scratch struct and the old characters of the buffer are written before they are
read again; the length of the half-typed line is not reset. -/
namespace RemoteBoot.Console
open Bytes Config

/-- The members agree up to the first NUL in each. -/
def SameText (c d : ConfigInfo) : Prop := ∀ f, cstring (c.slot f) = cstring (d.slot f)

theorem SameText.drop {c d : ConfigInfo} (same : SameText c d) (n : Nat) (bound : n ≤ 5) :
    cstring (c.bytes.drop ((5 - n) * strSize)) = cstring (d.bytes.drop ((5 - n) * strSize)) := by
  induction n with
  | zero =>
    rw [List.drop_of_length_le (Nat.le_of_eq c.size), List.drop_of_length_le (Nat.le_of_eq d.size)]
  | succ n ih =>
    obtain ⟨f, index⟩ := Field.exists_index (show 5 - (n + 1) < 5 by omega)
    have next : (5 - n) * strSize = f.offset + strSize := by
      rw [Field.offset, index, ← Nat.succ_mul]
      congr 1
      omega
    have parts : ∀ e : ConfigInfo, e.bytes.drop f.offset =
        e.slot f ++ e.bytes.drop ((5 - n) * strSize) := by
      intro e
      rw [next, ← List.drop_drop, ConfigInfo.slot, Bytes.slot, List.take_append_drop]
    rw [← index]
    change cstring (c.bytes.drop f.offset) = cstring (d.bytes.drop f.offset)
    rw [parts c, parts d]
    exact cstring_append_congr (by rw [c.length_slot, d.length_slot]) (same f) (ih (by omega))

/-- The strings run on alike, too, where a member has no NUL of its own. -/
theorem SameText.str {c d : ConfigInfo} (same : SameText c d) : c.str = d.str := by
  funext f
  have := f.index_lt
  have tail := same.drop (5 - f.index) (by omega)
  rwa [show 5 - (5 - f.index) = f.index by omega] at tail

/-- What a stored text leaves to read in its member does not depend on what the
member held. -/
theorem cstring_spill {c d : ConfigInfo} {l rest rest' : List UInt8}
    (cells : c.slot f = (l ++ 0 :: rest).take strSize)
    (cells' : d.slot f = (l ++ 0 :: rest').take strSize) :
    cstring (c.slot f) = cstring (d.slot f) := by
  rw [cells, cells', ← take_cstring, ← take_cstring, cstring_append_zero, cstring_append_zero]

/-- Consoles that differ in nothing that an entry still reads. -/
structure Alike (s t : State) : Prop where
  cmd : s.curCmd = t.curCmd
  config : SameText s.config t.config
  level : s.curCmd.first.isSome → s.curLvl = t.curLvl
  waiting : ∀ f, s.curCmd.first = some f → s.curLvl = 2 →
    cstring (s.configTemp.slot f) = cstring (t.configTemp.slot f)

theorem Alike.at_menu {s t : State} (atMenu : s.curCmd = .null) (cmd : s.curCmd = t.curCmd)
    (config : SameText s.config t.config) : Alike s t := by
  refine ⟨cmd, config, ?_, ?_⟩
  · simp [atMenu, Cmd.first]
  · simp [atMenu, Cmd.first]

/-- Two results of a call: consoles that are still alike, and the same saves. -/
structure ResultsAlike (r q : State × List Action) : Prop where
  console : Alike r.1 q.1
  saved : (saves r.2).map ConfigInfo.str = (saves q.2).map ConfigInfo.str

theorem menu_alike {s t : State} (alike : Alike s t) (l : List UInt8) (n : Nat) :
    ResultsAlike (menu s l n) (menu t l n) := by
  simp only [menu]
  split
  · exact ⟨alike, rfl⟩
  · exact ⟨⟨rfl, alike.config, fun _ => rfl, fun _ _ two => by cases two⟩, rfl⟩

section Pair
variable {first second : Field} {ask saved : String}

theorem pairEntry_alike {s t : State} (alike : Alike s t) (inPair : s.curCmd.first = some first)
    (order : first.index < second.index) {l : List UInt8}
    (fits : second.offset + l.length < 5 * strSize) :
    ∃ r q, pairEntry first second ask saved s l l.length = some r ∧
      pairEntry first second ask saved t l l.length = some q ∧ ResultsAlike r q := by
  have level := alike.level (by rw [inPair]; rfl)
  have firstFits : first.offset + l.length < 5 * strSize := by
    simp only [Field.offset, strSize] at fits ⊢
    omega
  by_cases fresh : s.curLvl = 1
  · obtain ⟨temp, entered, _, cells⟩ := pairEntry_first s fresh firstFits
    obtain ⟨temp', entered', _, cells'⟩ := pairEntry_first t (level ▸ fresh) firstFits
    refine ⟨_, _, entered, entered', ⟨⟨alike.cmd, alike.config, fun _ => rfl, fun f isFirst _ => ?_⟩,
      rfl⟩⟩
    obtain rfl : first = f := Option.some.inj (inPair.symm.trans isFirst)
    exact cstring_spill cells cells'
  · by_cases waiting : s.curLvl = 2
    · obtain ⟨temp, config, entered, firstCells, ⟨_, secondCells⟩, frame⟩ :=
        pairEntry_second s order waiting fits
      obtain ⟨temp', config', entered', firstCells', ⟨_, secondCells'⟩, frame'⟩ :=
        pairEntry_second t order (level ▸ waiting) fits
      have same : SameText config config' := by
        intro g
        by_cases isFirst : g = first
        · rw [isFirst, firstCells, firstCells', alike.waiting first inPair waiting]
        · by_cases isSecond : g = second
          · rw [isSecond]
            exact cstring_spill secondCells secondCells'
          · rw [frame g isFirst isSecond, frame' g isFirst isSecond, alike.config g]
      exact ⟨_, _, entered, entered', ⟨.at_menu rfl rfl same, by simp [same.str]⟩⟩
    · exact ⟨_, _, pairEntry_neither s fresh waiting l l.length,
        pairEntry_neither t (level ▸ fresh) (level ▸ waiting) l l.length, ⟨alike, rfl⟩⟩

end Pair

theorem macEntry_alike {s t : State} (alike : Alike s t) (l : List UInt8) :
    ∃ r q, macEntry s l l.length = some r ∧ macEntry t l l.length = some q ∧ ResultsAlike r q := by
  by_cases accepted : macAccepted l l.length = true
  · obtain ⟨config, entered, cells, frame⟩ := macEntry_stores s accepted
    obtain ⟨config', entered', cells', frame'⟩ := macEntry_stores t accepted
    have same : SameText config config' := by
      intro g
      by_cases isMac : g = .macAddress
      · rw [isMac, cells, cells', cstring_append_zero, cstring_append_zero]
      · rw [frame g isMac, frame' g isMac, alike.config g]
    exact ⟨_, _, entered, entered', ⟨.at_menu rfl rfl same, by simp [same.str]⟩⟩
  · exact ⟨_, _, macEntry_refused s accepted, macEntry_refused t accepted, ⟨alike, rfl⟩⟩

theorem cmdHandle_alike {s t : State} (alike : Alike s t) {l : List UInt8}
    (fits : l.length ≤ lineSize) :
    ∃ r q, cmdHandle s l l.length = some r ∧ cmdHandle t l l.length = some q ∧ ResultsAlike r q := by
  rw [cmdHandle, cmdHandle, ← alike.cmd]
  cases cmd : s.curCmd with
  | null => exact ⟨_, _, rfl, rfl, menu_alike alike l l.length⟩
  | wifi =>
    exact pairEntry_alike alike (by rw [cmd]; rfl) (by decide) (room_line (by decide) fits)
  | mqtt =>
    exact pairEntry_alike alike (by rw [cmd]; rfl) (by decide) (room_line (by decide) fits)
  | mac => exact macEntry_alike alike l

namespace Editor

/-- Loops with the same line in alike consoles. -/
structure Alike (e f : Editor) : Prop where
  console : Console.Alike e.console f.console
  line : e.line = f.line
  running : e.running = f.running

/-- What a reader of the outputs can tell apart: the lines and the saved strings. -/
def SameOutput (a b : List Output) : Prop :=
  delivered a = delivered b ∧ (savedBy a).map ConfigInfo.str = (savedBy b).map ConfigInfo.str

theorem SameOutput.append {a b a' b' : List Output} (first : SameOutput a b)
    (second : SameOutput a' b') : SameOutput (a ++ a') (b ++ b') := by
  refine ⟨by rw [delivered_append, delivered_append, first.1, second.1], ?_⟩
  rw [savedBy_append, savedBy_append, List.map_append, List.map_append, first.2, second.2]

theorem step_alike {e f f' : Editor} {out : List Output} (alike : Alike e f) (byte : UInt8)
    (stepped : f.step byte = some (f', out)) :
    ∃ e' out', e.step byte = some (e', out') ∧ Alike e' f' ∧ SameOutput out' out := by
  by_cases running : f.running = true
  · have running' : e.running = true := alike.running.trans running
    cases key : Key.of byte with
    | esc =>
      obtain rfl := Key.of_eq_esc.mp key
      by_cases atMenu : f.console.curCmd = .null
      · rw [step_break running atMenu] at stepped
        cases stepped
        rw [step_break running' (alike.console.cmd.trans atMenu)]
        exact ⟨_, _, rfl, ⟨alike.console, alike.line, rfl⟩, rfl, rfl⟩
      · rw [step_leave running atMenu] at stepped
        cases stepped
        rw [step_leave running' (alike.console.cmd ▸ atMenu)]
        exact ⟨_, _, rfl, ⟨.at_menu rfl rfl alike.console.config, alike.line, alike.running⟩,
          rfl, rfl⟩
    | rubout =>
      have width : e.curLineLen = f.curLineLen := by
        rw [← e.length_line, alike.line, f.length_line]
      rw [step_rubout running key] at stepped
      rw [step_rubout running' key, width]
      split at stepped
      · rename_i some_typed
        cases stepped
        rw [if_pos some_typed]
        exact ⟨_, _, rfl, ⟨alike.console, by rw [rubOut_line, rubOut_line, alike.line],
          alike.running⟩, rfl, rfl⟩
      · rename_i nothing
        cases stepped
        rw [if_neg nothing]
        exact ⟨_, _, rfl, alike, rfl, rfl⟩
    | enter =>
      by_cases empty : f.line = []
      · rw [step_enter_empty running key empty] at stepped
        cases stepped
        rw [step_enter_empty running' key (alike.line.trans empty)]
        exact ⟨_, _, rfl, ⟨alike.console, rfl, alike.running⟩, rfl, rfl⟩
      · have fits : f.line.length ≤ lineSize := by
          rw [f.length_line]
          exact f.fits
        obtain ⟨r, q, handled, handled', results⟩ := cmdHandle_alike alike.console fits
        rw [step_enter running key empty, handled'] at stepped
        cases stepped
        rw [step_enter running' key (alike.line ▸ empty), alike.line, handled]
        refine ⟨_, _, rfl, ⟨results.console, rfl, alike.running⟩, by simp, ?_⟩
        simp only [savedBy_cons_kprintf, savedBy_cons_cmdHandle, savedBy_actions]
        exact results.saved
    | char =>
      rw [step_char running key] at stepped
      obtain ⟨t, stored, same⟩ := Option.map_eq_some_iff.mp stepped
      cases same
      have room := (f.putChar_isSome byte.toInt8).mp ⟨_, stored⟩
      obtain ⟨t', stored'⟩ := (e.putChar_isSome byte.toInt8).mpr (alike.line ▸ room)
      obtain ⟨line, console, still⟩ := putChar_line stored
      obtain ⟨line', console', still'⟩ := putChar_line stored'
      rw [step_char running' key, stored']
      refine ⟨_, _, rfl, ⟨?_, ?_, ?_⟩, rfl, rfl⟩
      · rw [console, console']
        exact alike.console
      · rw [line, line', alike.line]
      · rw [still, still', alike.running]
  · have stopped : f.running = false := by simpa using running
    rw [step_stopped stopped] at stepped
    cases stepped
    exact ⟨e, [], step_stopped (alike.running.trans stopped), alike, rfl, rfl⟩

theorem loop_alike {e f f' : Editor} {bytes : List UInt8} {out : List Output} (alike : Alike e f)
    (looped : f.loop bytes = some (f', out)) :
    ∃ e' out', e.loop bytes = some (e', out') ∧ Alike e' f' ∧ SameOutput out' out := by
  induction bytes generalizing e f out with
  | nil =>
    cases looped
    exact ⟨e, [], rfl, alike, rfl, rfl⟩
  | cons byte bytes ih =>
    simp only [loop, Option.bind_eq_bind, Option.bind_eq_some_iff, Option.some.injEq,
      Prod.mk.injEq, Prod.exists] at looped
    obtain ⟨middle, now, stepped, _, later, rest, rfl, rfl⟩ := looped
    obtain ⟨e', now', stepped', still, same⟩ := step_alike alike byte stepped
    obtain ⟨e'', later', rest', last, same'⟩ := ih still rest
    refine ⟨e'', now' ++ later', ?_, last, same.append same'⟩
    simp only [loop, stepped', rest', Option.bind_eq_bind, Option.bind_some]

end Editor

/-- After an ESC the loop passes on and saves what any loop does that starts at
the menu with the same configuration, on every continuation that such a loop
can take. -/
def FreshAfterEsc (e : Editor) : Prop :=
  ∀ (fresh : Editor), fresh.running = true → fresh.console.curCmd = .null →
    fresh.console.config = e.console.config → fresh.curLineLen = 0 →
    ∀ bytes f out, fresh.loop bytes = some (f, out) →
      ∃ e' out', e.loop (27 :: bytes) = some (e', out') ∧ Editor.SameOutput out' out

/-- CR passes a half-typed line on, where a fresh loop has none. -/
theorem typed_survives_esc {e : Editor} (running : e.running = true)
    (inEntry : e.console.curCmd ≠ .null) (typed : e.curLineLen ≠ 0) : ¬ FreshAfterEsc e := by
  intro fresh
  have left := Editor.step_leave running inEntry
  have enter : Key.of 13 = .enter := rfl
  have quiet : (Editor.start e.console.config 0 .zeroed).loop [13] = some (_, []) :=
    Editor.loop_single (Editor.step_enter_empty rfl enter rfl)
  obtain ⟨e', out, looped, same, _⟩ :=
    fresh (.start e.console.config 0 .zeroed) rfl rfl rfl rfl [13] _ [] quiet
  have fits : e.line.length ≤ lineSize := by
    rw [e.length_line]
    exact e.fits
  obtain ⟨r, handled⟩ := cmdHandle_isSome e.leave.console fits
  have passes := Editor.step_enter (e := e.leave) running enter
    (fun empty => typed (e.line_eq_nil_iff.mp empty))
  rw [show e.leave.line = e.line from rfl, handled] at passes
  simp only [Editor.loop, left, passes, Option.map_some, Option.bind_eq_bind, Option.bind_some,
    Option.some.injEq, Prod.mk.injEq] at looped
  obtain ⟨_, rfl⟩ := looped
  simp [delivered] at same

theorem fresh_after_esc {e : Editor} (running : e.running = true)
    (inEntry : e.console.curCmd ≠ .null) (empty : e.curLineLen = 0) : FreshAfterEsc e := by
  intro fresh running' atMenu config nothing bytes f out looped
  have text : SameText e.leave.console.config fresh.console.config := by
    rw [config]
    exact fun _ => rfl
  have alike : Editor.Alike e.leave fresh := ⟨.at_menu rfl atMenu.symm text,
    (e.line_eq_nil_iff.mpr empty).trans (fresh.line_eq_nil_iff.mpr nothing).symm,
    running.trans running'.symm⟩
  obtain ⟨e', out', looped', _, same⟩ := Editor.loop_alike alike looped
  refine ⟨e', guideInfoPrint.map .action ++ out', ?_, ?_, ?_⟩
  · simp only [Editor.loop, Editor.step_leave running inEntry, looped', Option.bind_eq_bind,
      Option.bind_some]
  · rw [delivered_append, delivered_actions, List.nil_append]
    exact same.1
  · rw [savedBy_append, savedBy_actions, saves_guide, List.nil_append]
    exact same.2

/-- ESC returns to a fresh menu exactly when no part of a line was typed. -/
theorem esc_fresh_iff (e : Editor) (running : e.running = true) (inEntry : e.console.curCmd ≠ .null) :
    FreshAfterEsc e ↔ e.curLineLen = 0 :=
  ⟨fun fresh => by_contra fun typed => typed_survives_esc running inEntry typed fresh,
    fresh_after_esc running inEntry⟩

theorem esc_fresh_iff_chosen : ∃ e out,
    (Editor.start .zeroed 0 .zeroed).loop [49, 13] = some (e, out) ∧
      (FreshAfterEsc e ↔ e.curLineLen = 0) := by
  obtain ⟨⟨e, out⟩, looped, state⟩ := (Option.any_eq_true _ _).mp
    (show (((Editor.start .zeroed 0 .zeroed).loop [49, 13]).any fun r =>
      r.1.running && r.1.console.curCmd != .null) = true by decide +kernel)
  simp only [Bool.and_eq_true, bne_iff_ne] at state
  exact ⟨e, out, looped, esc_fresh_iff e state.1 state.2⟩

/-- The choice 1 and the letter `a` of a name: ESC leaves the letter in the line. -/
theorem esc_keeps_typed : ∃ e out,
    (Editor.start .zeroed 0 .zeroed).loop [49, 13, 97] = some (e, out) ∧
      e.console.curCmd ≠ .null ∧ ¬ FreshAfterEsc e := by
  obtain ⟨⟨e, out⟩, looped, state⟩ := (Option.any_eq_true _ _).mp
    (show (((Editor.start .zeroed 0 .zeroed).loop [49, 13, 97]).any fun r =>
      r.1.running && r.1.console.curCmd != .null && r.1.curLineLen == 1) = true by decide +kernel)
  simp only [Bool.and_eq_true, bne_iff_ne, beq_iff_eq] at state
  refine ⟨e, out, looped, state.1.2, typed_survives_esc state.1.1 state.1.2 ?_⟩
  rw [state.2]
  exact Nat.one_ne_zero

end RemoteBoot.Console
