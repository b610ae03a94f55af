import RemoteBoot.Config.FileProofs
import RemoteBoot.Console.Session
import RemoteBoot.Transition

/-! What "saved!" says about the card. `write_to_file` looks at no result of
`write`, and `cmd_handle` at no result of `write_to_file`, so the announcement
follows every completed entry. -/
namespace RemoteBoot.Console
open Config Lines Transition

/-- The five strings as lines, which is what a complete save leaves. -/
def linesOf (strings : Strings) : List UInt8 := unlines newline (Field.all.map strings)

def Saved (config : ConfigInfo) (file : Option (List UInt8)) : Prop :=
  file = some (linesOf config.str)

instance (config : ConfigInfo) (file : Option (List UInt8)) : Decidable (Saved config file) :=
  inferInstanceAs (Decidable (_ = _))

/-- The data of the ten `write` calls. -/
def writes (strings : Strings) : List (List UInt8) :=
  Field.all.flatMap fun f => [strings f, [newline]]

/-- The card opens the file and takes every write in full. -/
def Takes (card : Card) (strings : Strings) : Prop :=
  card.opened ∧ ∀ j data, (writes strings)[j]? = some data → ∀ n ∈ card.landed j, data.length ≤ n

inductive Input where
  | line (l : Line) (card : Card)
  | esc

/-- The console, the card's file, and for each success announced so far the
configuration and the file at that moment. -/
structure Desk where
  console : State
  file : Option (List UInt8)
  announced : List (ConfigInfo × Option (List UInt8))

def announcements : List String :=
  ["wifi info saved!\r\n", "mqtt info saved!\r\n", "MAC address saved!\r\n"]

namespace Desk

def perform (card : Card) (d : Desk) : Action → Desk
  | .kprintf text =>
    if text ∈ announcements then { d with announced := d.announced ++ [(d.console.config, d.file)] }
    else d
  | .writeToFile info => { d with file := (writeToFile card d.file info).2 }

def step (d : Desk) : Input → Option Desk
  | .line l card => do
    let (console, actions) ← cmdHandle d.console l.bytes l.bytes.length
    some (actions.foldl (perform card) { d with console })
  | .esc => do
    let (console, actions) ← Event.esc.handle d.console
    some (actions.foldl (perform .reliable) { d with console })

/-- Success was announced only of what is on the card, and once it was, the
configuration and the file agree at every menu. -/
def Honest (d : Desk) : Prop :=
  (∀ moment ∈ d.announced, Saved moment.1 moment.2) ∧
    (d.announced ≠ [] → d.console.curCmd = .null → Saved d.console.config d.file)

end Desk

/-- The entry that a line completes. -/
def State.completing (s : State) (l : List UInt8) : Option Entry :=
  match s.curCmd with
  | .null => none
  | .wifi => if s.curLvl = 2 then some (.wifi (s.configTemp.str .wifiName) l) else none
  | .mqtt => if s.curLvl = 2 then some (.mqtt (s.configTemp.str .mqttUsername) l) else none
  | .mac => if macAccepted l l.length then some (.mac l) else none

/-- A line that completes an entry meets a card that takes it, or no card at all
while the file already says the same. -/
def Desk.Kept (d : Desk) : Input → Prop
  | .line l card => ∀ entry, d.console.completing l.bytes = some entry →
    Takes card (entry.apply d.console.config.str) ∨
      (card.opened = false ∧ d.file = some (linesOf (entry.apply d.console.config.str)))
  | .esc => True

theorem flatten_writes (strings : Strings) : (writes strings).flatten = linesOf strings := by
  simp [writes, linesOf, unlines, Field.all]

theorem length_flatten_take_le (pieces : List (List UInt8)) (landed : Nat → Option Nat) :
    (pieces.mapIdx fun j data => data.take ((landed j).getD data.length)).flatten.length ≤
      pieces.flatten.length := by
  induction pieces generalizing landed with
  | nil => exact Nat.le_refl 0
  | cons piece pieces ih =>
    have tail := ih fun j => landed (j + 1)
    simp only [List.mapIdx_cons, List.flatten_cons, List.length_append, List.length_take]
    omega

/-- Cut pieces join to the whole only if none was cut. -/
theorem flatten_take_eq_iff (pieces : List (List UInt8)) (landed : Nat → Option Nat) :
    (pieces.mapIdx fun j data => data.take ((landed j).getD data.length)).flatten = pieces.flatten ↔
      ∀ j data, pieces[j]? = some data → ∀ n ∈ landed j, data.length ≤ n := by
  induction pieces generalizing landed with
  | nil => simp
  | cons piece pieces ih =>
    have tail := ih fun j => landed (j + 1)
    have shorter := length_flatten_take_le pieces fun j => landed (j + 1)
    rw [List.mapIdx_cons, List.flatten_cons, List.flatten_cons]
    constructor
    · intro same j data found n cut
      have lengths := congrArg List.length same
      simp only [List.length_append, List.length_take] at lengths
      have whole := List.append_inj same (by rw [List.length_take]; omega)
      cases j with
      | zero =>
        obtain rfl : piece = data := by simpa using found
        rw [Option.mem_def.mp cut, Option.getD_some] at lengths
        omega
      | succ j => exact tail.mp whole.2 j data (by simpa using found) n cut
    · intro full
      rw [tail.mpr fun j data found => full (j + 1) data (by simpa using found)]
      cases cut : landed 0 with
      | none => rw [Option.getD_none, List.take_length]
      | some n =>
        rw [Option.getD_some, List.take_of_length_le (full 0 piece rfl n cut)]

theorem written_eq_iff (card : Card) (c : ConfigInfo) (opened : card.opened = true) :
    card.written c = linesOf c.str ↔ Takes card c.str := by
  have calls : writeCalls c = writes c.str := rfl
  rw [Card.written, calls, ← flatten_writes, flatten_take_eq_iff, Takes, and_iff_right opened]

/-- A save that reports success left the five lines exactly when the card takes
them, if it opens the file at all. -/
theorem write_ok_iff (card : Card) (file : Option (List UInt8)) (c : ConfigInfo) :
    ((writeToFile card file c).1 = .ok () → Saved c (writeToFile card file c).2) ↔
      (card.opened = true → Takes card c.str) := by
  by_cases opened : card.opened = true
  · simp only [writeToFile, opened, if_true, true_implies, Saved, Option.some.injEq]
    exact written_eq_iff card c opened
  · simp [writeToFile, opened]

theorem saved_after_iff (card : Card) (file : Option (List UInt8)) (c : ConfigInfo) :
    Saved c (writeToFile card file c).2 ↔
      Takes card c.str ∨ (card.opened = false ∧ file = some (linesOf c.str)) := by
  cases opened : card.opened with
  | true =>
    simp only [writeToFile, opened, if_true, Saved, Option.some.injEq, reduceCtorEq, false_and,
      or_false]
    exact written_eq_iff card c opened
  | false => simp [writeToFile, opened, Saved, Takes]

def Action.silent : Action → Bool
  | .kprintf text => text ∉ announcements
  | .writeToFile _ => false

/-- No string of the configuration is overlong, and neither is the first text of
an entry that waits for its second. -/
structure State.Held (s : State) : Prop where
  terminated : s.config.Terminated
  waiting : ∀ f, s.curCmd.first = some f → s.curLvl = 2 → (s.configTemp.str f).length < strSize

theorem State.Held.at_menu {s : State} (atMenu : s.curCmd = .null)
    (terminated : s.config.Terminated) : s.Held :=
  ⟨terminated, by simp [atMenu, Cmd.first]⟩

/-- What a line does in `cmd_handle`: it leaves the configuration alone and
announces nothing, or it completes an entry, saves and announces it. -/
inductive LineOutcome (s : State) (l : List UInt8) (t : State) (actions : List Action) : Prop
  | quiet (incomplete : s.completing l = none) (config : t.config = s.config)
      (silent : actions.all Action.silent = true)
  | completed (entry : Entry) (saved : String) (completes : s.completing l = some entry)
      (strings : t.config.str = entry.apply s.config.str) (announced : saved ∈ announcements)
      (performed : actions = .writeToFile t.config :: .kprintf saved :: guideInfoPrint)

theorem prompt_silent (cmd : Cmd) : cmd.prompt.all Action.silent = true := by
  cases cmd <;> decide

theorem guide_silent : guideInfoPrint.all Action.silent = true := by
  decide

theorem menu_outcome {s : State} (atMenu : s.curCmd = .null) (held : s.Held) (l : List UInt8)
    (n : Nat) : (menu s l n).1.Held ∧ LineOutcome s l (menu s l n).1 (menu s l n).2 := by
  have incomplete : s.completing l = none := by
    rw [State.completing, atMenu]
  rw [menu]
  split
  · exact ⟨held, .quiet incomplete rfl (by dsimp only; decide)⟩
  · exact ⟨⟨held.terminated, fun _ _ two => by cases two⟩, .quiet incomplete rfl (prompt_silent _)⟩

section Pair
variable {first second : Field} {ask saved : String}

theorem pairEntry_outcome {s : State} (make : List UInt8 → List UInt8 → Entry)
    (inPair : s.curCmd.first = some first) (order : first.index < second.index)
    (quiet : Action.silent (.kprintf ask) = true) (announced : saved ∈ announcements)
    (apply : ∀ a b c, (make a b).apply c = Function.update (Function.update c first a) second b)
    (held : s.Held) (completing : ∀ l, s.completing l =
      if s.curLvl = 2 then some (make (s.configTemp.str first) l) else none) (l : Line) :
    ∃ t actions, pairEntry first second ask saved s l.bytes l.bytes.length = some (t, actions) ∧
      t.Held ∧ LineOutcome s l.bytes t actions := by
  by_cases fresh : s.curLvl = 1
  · obtain ⟨temp, entered, _, cells⟩ := pairEntry_first s fresh (first.room l.short)
    refine ⟨_, _, entered, ⟨held.terminated, fun f isFirst _ => ?_⟩,
      .quiet ?_ rfl (by simpa using quiet)⟩
    · obtain rfl : first = f := Option.some.inj (inPair.symm.trans isFirst)
      rw [ConfigInfo.str_of_spill cells l.short]
      exact Nat.lt_of_le_of_lt (Bytes.length_cstring_le _) l.short
    · rw [completing, if_neg (by omega)]
  · by_cases waiting : s.curLvl = 2
    · obtain ⟨temp, config, entered, strings, terminated⟩ := pairEntry_completes s order waiting
        held.terminated (held.waiting first inPair waiting) l.short l.noNul
      refine ⟨_, _, entered, .at_menu rfl terminated, .completed
        (make (s.configTemp.str first) l.bytes) saved ?_ ?_ announced rfl⟩
      · rw [completing, if_pos waiting]
      · rw [apply]
        exact strings
    · refine ⟨s, [], pairEntry_neither s fresh waiting _ _, held, .quiet ?_ rfl rfl⟩
      rw [completing, if_neg waiting]

end Pair

theorem macEntry_outcome {s : State} (inMac : s.curCmd = .mac) (held : s.Held) (l : Line) :
    ∃ t actions, macEntry s l.bytes l.bytes.length = some (t, actions) ∧ t.Held ∧
      LineOutcome s l.bytes t actions := by
  by_cases accepted : macAccepted l.bytes l.bytes.length = true
  · obtain ⟨config, entered, string, frame⟩ := macEntry_accepted s accepted l.noNul
    refine ⟨_, _, entered,
      .at_menu rfl (ConfigInfo.terminated_update held.terminated string l.short frame),
      .completed (.mac l.bytes) "MAC address saved!\r\n" ?_
        (ConfigInfo.str_update held.terminated string frame) (by decide) rfl⟩
    rw [State.completing, inMac]
    exact if_pos accepted
  · refine ⟨s, _, macEntry_refused s accepted, held, .quiet ?_ rfl (by decide)⟩
    rw [State.completing, inMac]
    exact if_neg accepted

/-- All that `cmd_handle` can do with a line that fits a member. -/
theorem cmdHandle_outcome (s : State) (held : s.Held) (l : Line) :
    ∃ t actions, cmdHandle s l.bytes l.bytes.length = some (t, actions) ∧ t.Held ∧
      LineOutcome s l.bytes t actions := by
  rw [cmdHandle]
  cases cmd : s.curCmd with
  | null => exact ⟨_, _, rfl, menu_outcome cmd held l.bytes l.bytes.length⟩
  | wifi =>
    have quiet : Action.silent (.kprintf "please input wifi password: ") = true := by decide
    have announced : "wifi info saved!\r\n" ∈ announcements := by decide
    exact pairEntry_outcome Entry.wifi (by rw [cmd]; rfl) (by decide) quiet announced
      (fun _ _ _ => rfl) held (fun _ => by rw [State.completing, cmd]) l
  | mqtt =>
    have quiet : Action.silent (.kprintf "please input mqtt password: ") = true := by decide
    have announced : "mqtt info saved!\r\n" ∈ announcements := by decide
    exact pairEntry_outcome Entry.mqtt (by rw [cmd]; rfl) (by decide) quiet announced
      (fun _ _ _ => rfl) held (fun _ => by rw [State.completing, cmd]) l
  | mac => exact macEntry_outcome cmd held l

namespace Desk

theorem foldl_silent (card : Card) (d : Desk) {actions : List Action}
    (silent : actions.all Action.silent = true) : actions.foldl (perform card) d = d := by
  induction actions with
  | nil => rfl
  | cons action actions ih =>
    simp only [List.all_cons, Bool.and_eq_true] at silent
    cases action with
    | kprintf text =>
      have other : text ∉ announcements := by simpa [Action.silent] using silent.1
      rw [List.foldl_cons, perform, if_neg other]
      exact ih silent.2
    | writeToFile info => cases silent.1

theorem foldl_completed (card : Card) (d : Desk) (info : ConfigInfo) {saved : String}
    (announced : saved ∈ announcements) :
    (.writeToFile info :: .kprintf saved :: guideInfoPrint).foldl (perform card) d =
      { d with
        file := (writeToFile card d.file info).2
        announced := d.announced ++ [(d.console.config, (writeToFile card d.file info).2)] } := by
  rw [List.foldl_cons, List.foldl_cons, foldl_silent card _ guide_silent, perform, perform,
    if_pos announced]

structure Ready (d : Desk) : Prop where
  held : d.console.Held
  agrees : d.announced ≠ [] → Saved d.console.config d.file

/-- What an input does to the desk. -/
inductive Outcome (d : Desk) (input : Input) (t : Desk) : Prop
  | quiet (kept : d.Kept input) (config : t.console.config = d.console.config)
      (file : t.file = d.file) (announced : t.announced = d.announced)
  | completed (kept : Saved t.console.config t.file ↔ d.Kept input)
      (announced : t.announced = d.announced ++ [(t.console.config, t.file)])

theorem step_line {d t : Desk} {l : Line} {card : Card} (held : d.console.Held)
    (stepped : step d (.line l card) = some t) : t.console.Held ∧ Outcome d (.line l card) t := by
  obtain ⟨console, actions, entered, later, outcome⟩ := cmdHandle_outcome d.console held l
  simp only [step, entered, Option.bind_eq_bind, Option.bind_some, Option.some.injEq] at stepped
  subst stepped
  cases outcome with
  | quiet incomplete config silent =>
    rw [foldl_silent card _ silent]
    refine ⟨later, .quiet (fun entry completes => ?_) config rfl rfl⟩
    simp [incomplete] at completes
  | completed entry saved completes strings announced performed =>
    rw [performed, foldl_completed card _ _ announced]
    refine ⟨later, .completed ?_ rfl⟩
    simp only [Kept, completes, Option.some.injEq, forall_eq', ← strings]
    exact saved_after_iff card d.file console.config

theorem step_esc {d t : Desk} (held : d.console.Held) (stepped : step d .esc = some t) :
    t.console.Held ∧ Outcome d .esc t := by
  by_cases atMenu : d.console.curCmd = .null
  · simp only [step, Event.handle, if_pos atMenu, Option.bind_eq_bind, Option.bind_some,
      List.foldl_nil, Option.some.injEq] at stepped
    subst stepped
    exact ⟨held, .quiet trivial rfl rfl rfl⟩
  · simp only [step, Event.handle, if_neg atMenu, Option.bind_eq_bind, Option.bind_some,
      foldl_silent _ _ guide_silent, Option.some.injEq] at stepped
    subst stepped
    exact ⟨.at_menu rfl held.terminated, .quiet trivial rfl rfl rfl⟩

theorem step_outcome {d t : Desk} {input : Input} (held : d.console.Held)
    (stepped : step d input = some t) : t.console.Held ∧ Outcome d input t := by
  cases input with
  | line l card => exact step_line held stepped
  | esc => exact step_esc held stepped

theorem step_ready {d t : Desk} {input : Input} (ready : d.Ready) (stepped : step d input = some t)
    (honest : t.Honest) : t.Ready := by
  obtain ⟨held, outcome⟩ := step_outcome ready.held stepped
  refine ⟨held, ?_⟩
  cases outcome with
  | quiet _ config file announced =>
    rw [config, file, announced]
    exact ready.agrees
  | completed _ announced =>
    exact fun _ => honest.1 (t.console.config, t.file) (by rw [announced]; simp)

theorem step_honest_iff {d t : Desk} {input : Input} (ready : d.Ready) (honest : d.Honest)
    (stepped : step d input = some t) : t.Honest ↔ d.Kept input := by
  obtain ⟨_, outcome⟩ := step_outcome ready.held stepped
  cases outcome with
  | quiet kept config file announced =>
    refine iff_of_true ?_ kept
    rw [Honest, config, file, announced]
    exact ⟨honest.1, fun some_announced _ => ready.agrees some_announced⟩
  | completed kept announced =>
    rw [← kept]
    constructor
    · exact fun later => later.1 (t.console.config, t.file) (by rw [announced]; simp)
    · intro saved
      refine ⟨fun moment member => ?_, fun _ _ => saved⟩
      rw [announced, List.mem_append, List.mem_singleton] at member
      rcases member with earlier | rfl
      · exact honest.1 moment earlier
      · exact saved

end Desk

/-- A save reports success only of what is on the card, and success is announced
only of what is on the card, exactly when the card takes every save in full, or
is away with a file that already says the same. -/
theorem saved_only_on_card_iff (card : Card) (file : Option (List UInt8)) (c : ConfigInfo)
    {d t : Desk} {inputs : List Input} (held : d.console.Held) (fresh : d.announced = [])
    (run : Run Desk.step Free d inputs t) :
    (((writeToFile card file c).1 = .ok () → Saved c (writeToFile card file c).2) ↔
      (card.opened = true → Takes card c.str)) ∧
    (Always Desk.step Desk.Honest d inputs ↔ Run Desk.step Desk.Kept d inputs t) := by
  refine ⟨write_ok_iff card file c, ?_⟩
  have ready : d.Ready := ⟨held, fun announced => absurd fresh announced⟩
  have honest : d.Honest := by
    refine ⟨fun moment member => ?_, fun announced => absurd fresh announced⟩
    rw [fresh] at member
    cases member
  exact run.always_iff Desk.Ready
    (fun ready _ stepped later => Desk.step_ready ready stepped later)
    (fun ready honest stepped => Desk.step_honest_iff ready honest stepped) ready honest

def blankDesk : Desk := ⟨⟨.null, .zeroed, 0, .zeroed⟩, none, []⟩

/-- The choice 3 and seventeen zeros. -/
def macInputs (card : Card) : List Input :=
  [.line ⟨[51], by decide, by decide, by decide⟩ card,
    .line ⟨List.replicate 17 48, by decide, by decide, by decide⟩ card]

theorem blankDesk_held : blankDesk.console.Held :=
  .at_menu rfl ConfigInfo.zeroed_terminated

theorem saved_only_on_card_iff_reliable : ∃ t, Run Desk.step Free blankDesk (macInputs .reliable) t ∧
    ((((writeToFile .reliable none .zeroed).1 = .ok () →
        Saved .zeroed (writeToFile .reliable none .zeroed).2) ↔
      (Card.reliable.opened = true → Takes .reliable ConfigInfo.zeroed.str)) ∧
    (Always Desk.step Desk.Honest blankDesk (macInputs .reliable) ↔
      Run Desk.step Desk.Kept blankDesk (macInputs .reliable) t)) := by
  obtain ⟨t, run, _⟩ := Run.of_any
    (show (((macInputs .reliable).foldlM Desk.step blankDesk).any fun _ => true) = true by
      decide +kernel)
  exact ⟨t, run, saved_only_on_card_iff .reliable none .zeroed blankDesk_held rfl run⟩

/-- A card that is full, and one that is not there: the save reports success all
the same, and the console announces it. -/
theorem saved_not_on_card :
    ((writeToFile ⟨true, fun _ => some 0⟩ none .zeroed).1 = .ok () ∧
      ¬ Saved .zeroed (writeToFile ⟨true, fun _ => some 0⟩ none .zeroed).2) ∧
    ∃ t, Run Desk.step Free blankDesk (macInputs ⟨false, fun _ => none⟩) t ∧ ¬ t.Honest := by
  refine ⟨⟨rfl, by decide +kernel⟩, ?_⟩
  obtain ⟨t, run, lost⟩ := Run.of_any
    (show (((macInputs ⟨false, fun _ => none⟩).foldlM Desk.step blankDesk).any fun t =>
      t.announced.any fun moment => moment.2 == none) = true by decide +kernel)
  refine ⟨t, run, fun honest => ?_⟩
  obtain ⟨moment, member, none⟩ := List.any_eq_true.mp lost
  have saved := honest.1 moment member
  rw [beq_iff_eq.mp none] at saved
  cases saved

end RemoteBoot.Console
