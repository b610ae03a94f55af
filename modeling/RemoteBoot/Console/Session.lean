import Mathlib.Logic.Function.Basic
import RemoteBoot.Console.Command

/-! A console session seen from outside: which entries a sequence of lines and
ESC keys completes, and what they make of the configuration. Neither `cur_lvl`
nor the scratch struct appears there; leftovers of an aborted entry stay in
them without reaching a later one. -/
namespace RemoteBoot.Console
open Config

inductive Event where
  | line (bytes : List UInt8)
  | esc

/-- A submitted line, or ESC inside an entry. -/
def Event.handle (s : State) : Event → Option (State × List Action)
  | .line bytes => cmdHandle s bytes bytes.length
  | .esc => if s.curCmd = .null then some (s, []) else some ({ s with curCmd := .null }, guideInfoPrint)

def session (s : State) : List Event → Option (State × List Action)
  | [] => some (s, [])
  | e :: events => do
    let (s, first) ← e.handle s
    let (s, rest) ← session s events
    some (s, first ++ rest)

abbrev Strings := Field → List UInt8

inductive Entry where
  | wifi (name password : List UInt8)
  | mqtt (username passwd : List UInt8)
  | mac (address : List UInt8)

def Entry.apply (c : Strings) : Entry → Strings
  | .wifi name password =>
    Function.update (Function.update c .wifiName name) .wifiPassword password
  | .mqtt username passwd =>
    Function.update (Function.update c .mqttUsername username) .mqttPasswd passwd
  | .mac address => Function.update c .macAddress address

def snapshots (c : Strings) : List Entry → List Strings
  | [] => []
  | e :: entries => e.apply c :: snapshots (e.apply c) entries

/-- Two lines without ESC between them, and the events after the attempt. -/
def twoLines : List Event → Option (List UInt8 × List UInt8) × List Event
  | .line a :: .line b :: rest => (some (a, b), rest)
  | .line _ :: .esc :: rest => (none, rest)
  | .esc :: rest => (none, rest)
  | [.line _] => (none, [])
  | [] => (none, [])

/-- The first accepted line before an ESC, and the events after the attempt. -/
def acceptedLine : List Event → Option (List UInt8) × List Event
  | .line l :: rest => if macAccepted l l.length then (some l, rest) else acceptedLine rest
  | .esc :: rest => (none, rest)
  | [] => (none, [])

theorem twoLines_shorter (events : List Event) : (twoLines events).2.length ≤ events.length := by
  fun_cases twoLines events <;> simp only [List.length_cons, List.length_nil] <;> omega

theorem acceptedLine_shorter (events : List Event) :
    (acceptedLine events).2.length ≤ events.length := by
  fun_induction acceptedLine events <;> simp only [List.length_cons] <;> omega

/-- The entries that a sequence of events completes, read at the menu. -/
def completed : List Event → List Entry
  | [] => []
  | .esc :: rest => completed rest
  | .line choice :: rest =>
    if choice = [49] then
      ((twoLines rest).1.map fun pair => Entry.wifi pair.1 pair.2).toList ++
        completed (twoLines rest).2
    else if choice = [50] then
      ((twoLines rest).1.map fun pair => Entry.mqtt pair.1 pair.2).toList ++
        completed (twoLines rest).2
    else if choice = [51] then
      ((acceptedLine rest).1.map Entry.mac).toList ++ completed (acceptedLine rest).2
    else completed rest
  termination_by events => events.length
  decreasing_by
    · simp
    · exact Nat.lt_succ_of_le (twoLines_shorter rest)
    · exact Nat.lt_succ_of_le (twoLines_shorter rest)
    · exact Nat.lt_succ_of_le (acceptedLine_shorter rest)
    · simp

/-- The session runs to `t` and completes exactly `done`: the configuration is
`done` applied in order, with one save of each intermediate configuration. -/
def Completes (s : State) (events : List Event) (done : List Entry) (t : State) : Prop :=
  ∃ actions, session s events = some (t, actions) ∧ t.config.Terminated ∧
    t.config.str = done.foldl Entry.apply s.config.str ∧
    (saves actions).map ConfigInfo.str = snapshots s.config.str done

theorem session_append {s t u : State} (first : session s es = some (t, as))
    (second : session t fs = some (u, bs)) : session s (es ++ fs) = some (u, as ++ bs) := by
  induction es generalizing s as with
  | nil =>
    cases first
    exact second
  | cons e es ih =>
    simp only [session, Option.bind_eq_bind, Option.bind_eq_some_iff, Option.some.injEq,
      Prod.mk.injEq, Prod.exists] at first
    obtain ⟨middle, head, handled, _, tail, rest, rfl, rfl⟩ := first
    simp only [List.cons_append, session, handled, ih rest, Option.bind_eq_bind, Option.bind_some,
      List.append_assoc]

theorem snapshots_append (c : Strings) (done more : List Entry) :
    snapshots c (done ++ more) = snapshots c done ++ snapshots (done.foldl Entry.apply c) more := by
  induction done generalizing c with
  | nil => rfl
  | cons e done ih => simp only [List.cons_append, snapshots, ih, List.foldl_cons]

namespace Completes

theorem refl {s : State} (good : s.config.Terminated) : Completes s [] [] s :=
  ⟨[], rfl, good, rfl, rfl⟩

theorem trans {s t u : State} (first : Completes s es done t) (second : Completes t fs more u) :
    Completes s (es ++ fs) (done ++ more) u := by
  obtain ⟨as, run, _, strings, saved⟩ := first
  obtain ⟨bs, run', good, strings', saved'⟩ := second
  refine ⟨as ++ bs, session_append run run', good, ?_, ?_⟩
  · rw [strings', strings, List.foldl_append]
  · rw [saves_append, List.map_append, saved, saved', strings, snapshots_append]

theorem silent {s t : State} {e : Event} (handled : e.handle s = some (t, actions))
    (same : t.config = s.config) (quiet : saves actions = []) (good : s.config.Terminated) :
    Completes s [e] [] t := by
  refine ⟨actions ++ [], ?_, same ▸ good, by rw [same]; rfl, ?_⟩
  · simp [session, handled]
  · rw [List.append_nil, quiet]
    rfl

theorem entry {s t : State} {e : Event} {done : Entry} (handled : e.handle s = some (t, actions))
    (strings : t.config.str = done.apply s.config.str) (saved : saves actions = [t.config])
    (good : t.config.Terminated) : Completes s [e] [done] t := by
  refine ⟨actions ++ [], ?_, good, strings, ?_⟩
  · simp [session, handled]
  · rw [List.append_nil, saved, List.map_cons, List.map_nil, strings]
    rfl

end Completes

def Typed (l : List UInt8) : Prop := 0 < l.length ∧ l.length < strSize ∧ 0 ∉ l

theorem esc_completes (s : State) (good : s.config.Terminated) :
    ∃ t, Completes s [.esc] [] t ∧ t.curCmd = .null := by
  by_cases atMenu : s.curCmd = .null
  · have kept : Event.esc.handle s = some (s, []) := by
      rw [Event.handle, if_pos atMenu]
    exact ⟨s, .silent kept rfl rfl good, atMenu⟩
  · have left : Event.esc.handle s = some ({ s with curCmd := .null }, guideInfoPrint) := by
      rw [Event.handle, if_neg atMenu]
    exact ⟨_, .silent left rfl saves_guide good, rfl⟩

theorem menu_completes {s : State} (atMenu : s.curCmd = .null) (good : s.config.Terminated)
    {choice : List UInt8} (nonempty : 0 < choice.length) :
    Completes s [.line choice] []
      (if choice = [49] ∨ choice = [50] ∨ choice = [51] then
        { s with curCmd := Cmd.ofDigit (choice.headD 0), curLvl := 1 } else s) := by
  have handled : (Event.line choice).handle s = some (menu s choice choice.length) := by
    rw [Event.handle, cmdHandle, atMenu]
  rw [menu_select s nonempty] at handled
  by_cases selected : choice = [49] ∨ choice = [50] ∨ choice = [51]
  · rw [if_pos selected] at handled ⊢
    exact .silent handled rfl (saves_prompt _) good
  · rw [if_neg selected] at handled ⊢
    exact .silent handled rfl (by simp) good

section Pair
variable {cmd : Cmd} {first second : Field} {ask saved : String}

theorem first_completes {s : State}
    (dispatch : ∀ l, cmdHandle s l l.length = pairEntry first second ask saved s l l.length)
    (fresh : s.curLvl = 1) (good : s.config.Terminated) (typed : Typed l) :
    ∃ temp, Completes s [.line l] [] { s with configTemp := temp, curLvl := 2 } ∧
      temp.str first = l := by
  obtain ⟨_, short, noNul⟩ := typed
  obtain ⟨temp, entered, _, cells⟩ := pairEntry_first s fresh (first.room short)
  have string := (ConfigInfo.str_of_spill cells short).trans (Bytes.cstring_of_not_mem noNul)
  exact ⟨temp, .silent ((dispatch l).trans entered) rfl rfl good, string⟩

theorem second_completes {s : State} (make : List UInt8 → List UInt8 → Entry)
    (dispatch : ∀ l, cmdHandle s l l.length = pairEntry first second ask saved s l l.length)
    (apply : ∀ a b c, (make a b).apply c = Function.update (Function.update c first a) second b)
    (order : first.index < second.index) (waiting : s.curLvl = 2) (good : s.config.Terminated)
    (typedFirst : Typed a) (held : s.configTemp.str first = a) (typed : Typed b) :
    ∃ t, Completes s [.line b] [make a b] t ∧ t.curCmd = .null := by
  obtain ⟨_, short, noNul⟩ := typed
  obtain ⟨temp, config, entered, strings, terminated⟩ := pairEntry_completes s order waiting good
    (by rw [held]; exact typedFirst.2.1) short noNul
  rw [held, ← apply] at strings
  exact ⟨_, .entry ((dispatch b).trans entered) strings rfl terminated, rfl⟩

/-- Two lines complete the entry; an ESC before the second leaves nothing. -/
theorem pair_completes {s : State} {events : List Event} (make : List UInt8 → List UInt8 → Entry)
    (dispatch : ∀ u : State, u.curCmd = cmd → ∀ l,
      cmdHandle u l l.length = pairEntry first second ask saved u l l.length)
    (apply : ∀ a b c, (make a b).apply c = Function.update (Function.update c first a) second b)
    (order : first.index < second.index) (inEntry : s.curCmd = cmd) (fresh : s.curLvl = 1)
    (good : s.config.Terminated) (typed : ∀ l, .line l ∈ events → Typed l) :
    ∃ used t, events = used ++ (twoLines events).2 ∧
      Completes s used ((twoLines events).1.map fun pair => make pair.1 pair.2).toList t ∧
      (t.curCmd = .null ∨ (twoLines events).2 = []) := by
  match events with
  | [] => exact ⟨[], s, rfl, .refl good, .inr rfl⟩
  | .esc :: rest =>
    obtain ⟨t, left, atMenu⟩ := esc_completes s good
    exact ⟨[.esc], t, rfl, left, .inl atMenu⟩
  | [.line a] =>
    obtain ⟨temp, done, _⟩ := first_completes (dispatch s inEntry) fresh good (typed a (by simp))
    exact ⟨[.line a], _, rfl, done, .inr rfl⟩
  | .line a :: .esc :: rest =>
    obtain ⟨temp, done, _⟩ := first_completes (dispatch s inEntry) fresh good (typed a (by simp))
    obtain ⟨t, left, atMenu⟩ := esc_completes { s with configTemp := temp, curLvl := 2 } good
    exact ⟨[.line a, .esc], t, rfl, done.trans left, .inl atMenu⟩
  | .line a :: .line b :: rest =>
    obtain ⟨temp, done, held⟩ := first_completes (dispatch s inEntry) fresh good (typed a (by simp))
    obtain ⟨t, finished, atMenu⟩ := second_completes (b := b) make
      (dispatch { s with configTemp := temp, curLvl := 2 } inEntry) apply order rfl good
      (typed a (by simp)) held (typed b (by simp))
    exact ⟨[.line a, .line b], t, rfl, done.trans finished, .inl atMenu⟩

end Pair

theorem mac_completes {s : State} {events : List Event} (inEntry : s.curCmd = .mac)
    (good : s.config.Terminated) (typed : ∀ l, .line l ∈ events → Typed l) :
    ∃ used t, events = used ++ (acceptedLine events).2 ∧
      Completes s used ((acceptedLine events).1.map Entry.mac).toList t ∧
      (t.curCmd = .null ∨ (acceptedLine events).2 = []) := by
  induction events with
  | nil => exact ⟨[], s, rfl, .refl good, .inr rfl⟩
  | cons e rest ih =>
    cases e with
    | esc =>
      obtain ⟨t, left, atMenu⟩ := esc_completes s good
      exact ⟨[.esc], t, rfl, left, .inl atMenu⟩
    | line l =>
      have dispatch : (Event.line l).handle s = macEntry s l l.length := by
        rw [Event.handle, cmdHandle, inEntry]
      by_cases accepted : macAccepted l l.length
      · obtain ⟨_, short, noNul⟩ := typed l List.mem_cons_self
        obtain ⟨config, entered, string, frame⟩ := macEntry_accepted s accepted noNul
        have strings : config.str = (Entry.mac l).apply s.config.str :=
          ConfigInfo.str_update good string frame
        have terminated := ConfigInfo.terminated_update good string short frame
        simp only [acceptedLine, if_pos accepted]
        exact ⟨[.line l], _, rfl, .entry (dispatch.trans entered) strings rfl terminated, .inl rfl⟩
      · have handled : (Event.line l).handle s =
            some (s, [.kprintf "Error, please re-input: "]) := by
          rw [dispatch, macEntry_refused s accepted]
        obtain ⟨used, t, consumed, done, stopped⟩ :=
          ih (fun m member => typed m (List.mem_cons_of_mem _ member))
        simp only [acceptedLine, if_neg accepted]
        exact ⟨.line l :: used, t, congrArg _ consumed,
          (Completes.silent handled rfl rfl good).trans done, stopped⟩

theorem Completes.terminated {s t : State} (done : Completes s events entries t) :
    t.config.Terminated := by
  obtain ⟨_, _, good, _⟩ := done
  exact good

theorem chosen_completes {s t : State} {rest left : List Event}
    (chosen : Completes s [.line choice] [] t)
    (attempt : ∃ used u, rest = used ++ left ∧ Completes t used done u ∧
      (u.curCmd = .null ∨ left = []))
    (later : ∀ {u : State}, u.curCmd = .null ∨ left = [] → u.config.Terminated →
      (∀ l, .line l ∈ left → Typed l) → ∃ v, Completes u left (completed left) v)
    (typed : ∀ l, .line l ∈ .line choice :: rest → Typed l) :
    ∃ v, Completes s (.line choice :: rest) (done ++ completed left) v := by
  obtain ⟨used, u, rfl, tried, stopped⟩ := attempt
  obtain ⟨v, finished⟩ := later stopped tried.terminated (fun l member =>
    typed l (List.mem_cons_of_mem _ (List.mem_append_right _ member)))
  exact ⟨v, chosen.trans (tried.trans finished)⟩

theorem session_completes {s : State} {events : List Event}
    (ready : s.curCmd = .null ∨ events = []) (good : s.config.Terminated)
    (typed : ∀ l, .line l ∈ events → Typed l) : ∃ t, Completes s events (completed events) t := by
  induction events using completed.induct generalizing s with
  | case1 => exact ⟨s, by simpa only [completed] using Completes.refl good⟩
  | case2 rest ih =>
    obtain ⟨t, left, atMenu⟩ := esc_completes s good
    obtain ⟨u, later⟩ := ih (.inl atMenu) left.terminated
      (fun l member => typed l (List.mem_cons_of_mem _ member))
    exact ⟨u, by rw [completed]; exact left.trans later⟩
  | case3 rest ih =>
    have chosen := menu_completes (ready.resolve_right (by simp)) good (typed _ List.mem_cons_self).1
    have dispatch : ∀ u : State, u.curCmd = .wifi → ∀ l, cmdHandle u l l.length = wifiEntry u l l.length :=
      fun u inEntry l => by rw [cmdHandle, inEntry]
    have attempt := pair_completes Entry.wifi dispatch (fun _ _ _ => rfl) (by decide) rfl rfl
      chosen.terminated (fun l member => typed l (List.mem_cons_of_mem _ member))
    obtain ⟨v, whole⟩ := chosen_completes chosen attempt ih typed
    exact ⟨v, by rw [completed, if_pos rfl]; exact whole⟩
  | case4 rest _ ih =>
    have chosen := menu_completes (ready.resolve_right (by simp)) good (typed _ List.mem_cons_self).1
    have dispatch : ∀ u : State, u.curCmd = .mqtt → ∀ l, cmdHandle u l l.length = mqttEntry u l l.length :=
      fun u inEntry l => by rw [cmdHandle, inEntry]
    have attempt := pair_completes Entry.mqtt dispatch (fun _ _ _ => rfl) (by decide) rfl rfl
      chosen.terminated (fun l member => typed l (List.mem_cons_of_mem _ member))
    obtain ⟨v, whole⟩ := chosen_completes chosen attempt ih typed
    exact ⟨v, by rw [completed, if_neg (by decide), if_pos rfl]; exact whole⟩
  | case5 rest _ _ ih =>
    have chosen := menu_completes (ready.resolve_right (by simp)) good (typed _ List.mem_cons_self).1
    have attempt := mac_completes rfl chosen.terminated
      (fun l member => typed l (List.mem_cons_of_mem _ member))
    obtain ⟨v, whole⟩ := chosen_completes chosen attempt ih typed
    exact ⟨v, by rw [completed, if_neg (by decide), if_neg (by decide), if_pos rfl]; exact whole⟩
  | case6 rest choice notWifi notMqtt notMac ih =>
    have atMenu := ready.resolve_right (by simp)
    have refused := menu_completes atMenu good (typed _ List.mem_cons_self).1
    rw [if_neg (by simp only [notWifi, notMqtt, notMac, or_self, not_false_eq_true])] at refused
    obtain ⟨u, later⟩ := ih (.inl atMenu) good
      (fun l member => typed l (List.mem_cons_of_mem _ member))
    exact ⟨u, by rw [completed, if_neg notWifi, if_neg notMqtt, if_neg notMac]
                 exact refused.trans later⟩

/-- A session is transactional: whatever the sequence of lines and ESC keys, the
configuration is the old one with the completed entries applied in order, and
each of them was saved once, as the configuration was then. -/
theorem session_transactional (s : State) (events : List Event) (atMenu : s.curCmd = .null)
    (good : s.config.Terminated) (typed : ∀ l, .line l ∈ events → Typed l) :
    ∃ t, Completes s events (completed events) t :=
  session_completes (.inl atMenu) good typed

theorem session_transactional_wifi : ∃ t,
    Completes ⟨.null, .zeroed, 0, .zeroed⟩ [.line [49], .line [97], .line [98]]
      [.wifi [97] [98]] t := by
  obtain ⟨t, whole⟩ := session_transactional ⟨.null, .zeroed, 0, .zeroed⟩
    [.line [49], .line [97], .line [98]] rfl ConfigInfo.zeroed_terminated (by simp [Typed, strSize])
  exact ⟨t, by simpa [completed, twoLines] using whole⟩

end RemoteBoot.Console
