import RemoteBoot.Mqtt.Format

/-! Which messages a handler of the client gets: `isTopicMatched` and
`deliverMessage` of `paho_mqtt_pipe.c`, against topics as lists of levels. -/
namespace RemoteBoot.Mqtt
open Bytes

def separator : UInt8 := 47
def singleLevel : UInt8 := 43
def multiLevel : UInt8 := 35

/-- `isTopicMatched` from `curf` and `curn` on. -/
def isTopicMatched : (curf curn : List UInt8) → Bool
  | [], curn => curn.isEmpty
  | _ :: _, [] => false
  | f :: curf, n :: curn =>
    if n = separator ∧ f ≠ separator then false
    else if f ≠ singleLevel ∧ f ≠ multiLevel ∧ f ≠ n then false
    else if f = singleLevel then isTopicMatched curf (curn.dropWhile (· ≠ separator))
    else if f = multiLevel then isTopicMatched curf []
    else isTopicMatched curf curn

section
variable {f n : UInt8} {curf curn : List UInt8}

theorem matched_nil : isTopicMatched [] curn = curn.isEmpty := by
  cases curn <;> rfl

theorem matched_end : isTopicMatched (f :: curf) [] = false := rfl

/-- A level ends before its filter does. -/
theorem matched_separator (inside : f ≠ separator) :
    isTopicMatched (f :: curf) (separator :: curn) = false := if_pos ⟨rfl, inside⟩

theorem matched_same (single : n ≠ singleLevel) (multi : n ≠ multiLevel) :
    isTopicMatched (n :: curf) (n :: curn) = isTopicMatched curf curn := by
  have sameSide : ¬ (n = separator ∧ n ≠ separator) := fun both => both.2 both.1
  have equal : ¬ (n ≠ singleLevel ∧ n ≠ multiLevel ∧ n ≠ n) := fun all => all.2.2 rfl
  rw [isTopicMatched, if_neg sameSide, if_neg equal, if_neg single, if_neg multi]

theorem matched_other (single : f ≠ singleLevel) (multi : f ≠ multiLevel) (other : f ≠ n) :
    isTopicMatched (f :: curf) (n :: curn) = false := by
  rw [isTopicMatched, if_pos (⟨single, multi, other⟩ : f ≠ singleLevel ∧ f ≠ multiLevel ∧ f ≠ n)]
  exact ite_self _

theorem matched_single (inside : n ≠ separator) : isTopicMatched (singleLevel :: curf) (n :: curn) =
    isTopicMatched curf (curn.dropWhile (· ≠ separator)) := by
  rw [isTopicMatched, if_neg fun both => inside both.1, if_neg fun all => all.1 rfl, if_pos rfl]

theorem matched_multi (inside : n ≠ separator) :
    isTopicMatched (multiLevel :: curf) (n :: curn) = isTopicMatched curf [] := by
  rw [isTopicMatched, if_neg fun both => inside both.1, if_neg fun all => all.2.1 rfl, if_neg (by decide),
    if_pos rfl]

end

/-- `MQTTPacket_equals` with a C string -/
def mqttPacketEquals (a : MQTTString) (b : List UInt8) : Bool :=
  a.strlen = b.length ∧ cstring (a.text.take a.strlen) = cstring (b.take a.strlen)

structure MessageHandler (Callback : Type) where
  topicFilter : Option (List UInt8)
  callback : Option Callback

namespace MessageHandler
variable {Callback : Type}

def wants (h : MessageHandler Callback) (topicName : MQTTString) : Bool :=
  match h.topicFilter with
  | some filter => mqttPacketEquals topicName filter || isTopicMatched filter topicName.text
  | none => false

end MessageHandler

/-- `deliverMessage`: its result, and the callbacks that it calls with the message. -/
def deliverMessage {Callback : Type} (messageHandlers : List (MessageHandler Callback))
    (defaultMessageHandler : Option Callback) (topicName : MQTTString) : Int × List Callback :=
  let called := messageHandlers.filterMap fun h => if h.wants topicName then h.callback else none
  if called ≠ [] then (0, called)
  else
    match defaultMessageHandler with
    | some callback => (0, [callback])
    | none => (-1, [])

/-- A level of a filter in correct format. -/
inductive Level where
  | any
  | exactly (text : List UInt8) (plain : separator ∉ text ∧ singleLevel ∉ text ∧ multiLevel ∉ text)

namespace Level

def text : Level → List UInt8
  | any => [singleLevel]
  | exactly text _ => text

/-- The code lets `+` stand for no empty level. -/
def Admits : Level → List UInt8 → Prop
  | any, level => level ≠ []
  | exactly text _, level => text = level

/-- What the wildcard is for. -/
def Means : Level → List UInt8 → Prop
  | any, _ => True
  | exactly text _, level => text = level

instance (l : Level) (level : List UInt8) : Decidable (l.Admits level) :=
  match l with
  | any => inferInstanceAs (Decidable (level ≠ []))
  | exactly text _ => inferInstanceAs (Decidable (text = level))

end Level

/-- A filter in correct format: `#` only at the end, `+` and `#` only next to separators. -/
inductive Filter where
  | rest
  | last (level : Level)
  | more (level : Level) (filter : Filter)

namespace Filter

def text : Filter → List UInt8
  | rest => [multiLevel]
  | last level => level.text
  | more level filter => level.text ++ separator :: filter.text

def depth : Filter → Nat
  | rest | last _ => 1
  | more _ filter => filter.depth + 1

/-- The levels of the topics that the code matches with the filter. -/
def Admits : Filter → List (List UInt8) → Prop
  | rest, level :: _ => level ≠ []
  | last level, [only] => level.Admits only
  | more level filter, first :: levels => level.Admits first ∧ filter.Admits levels
  | _, _ => False

/-- The topics that the filter is for: `#` stands for any number of levels, with none for
the parent of the last separator. -/
def Means : Filter → List (List UInt8) → Prop
  | rest, _ => True
  | last level, [only] => level.Means only
  | more level filter, first :: levels => level.Means first ∧ filter.Means levels
  | _, _ => False

end Filter

def levels (topic : List UInt8) : List (List UInt8) := topic.splitOn separator

/-- Where a level ends: at the end of the string or at a separator. -/
def Ends (s : List UInt8) : Prop := s = [] ∨ ∃ behind, s = separator :: behind

theorem levels_cases (topic : List UInt8) : ∃ level tail, topic = level ++ tail ∧ separator ∉ level ∧
    ((tail = [] ∧ levels topic = [level]) ∨
      ∃ behind, tail = separator :: behind ∧ levels topic = level :: levels behind) := by
  by_cases more : separator ∈ topic
  · obtain ⟨level, behind, rfl, clean⟩ := List.eq_append_cons_of_mem more
    exact ⟨level, separator :: behind, rfl, clean,
      .inr ⟨behind, rfl, List.splitOn_append_cons_self_of_not_mem clean behind⟩⟩
  · exact ⟨topic, [], (List.append_nil topic).symm, more, .inl ⟨rfl, List.splitOn_eq_singleton more⟩⟩

/-- A level without wildcards in front of the next one. -/
theorem matched_plain {text curf level tail : List UInt8}
    (plain : separator ∉ text ∧ singleLevel ∉ text ∧ multiLevel ∉ text) (next : Ends curf)
    (clean : separator ∉ level) (ends : Ends tail) :
    isTopicMatched (text ++ curf) (level ++ tail) = (decide (text = level) && isTopicMatched curf tail) := by
  induction text generalizing level with
  | nil =>
    cases level with
    | nil => rfl
    | cons n level =>
      have inside : separator ≠ n := fun same => clean (same ▸ List.mem_cons_self)
      rw [decide_eq_false (List.cons_ne_nil n level).symm, Bool.false_and, List.nil_append, List.cons_append]
      rcases next with rfl | ⟨behind, rfl⟩
      · rfl
      · exact matched_other (by decide) (by decide) inside
  | cons f text ih =>
    obtain ⟨notSep, notSingle, notMulti⟩ := plain
    rw [List.mem_cons, not_or] at notSep notSingle notMulti
    cases level with
    | nil =>
      rw [decide_eq_false (List.cons_ne_nil _ _), Bool.false_and, List.nil_append, List.cons_append]
      rcases ends with rfl | ⟨behind, rfl⟩
      · rfl
      · exact matched_separator fun same => notSep.1 same.symm
    | cons n level =>
      rw [List.cons_append, List.cons_append]
      by_cases same : f = n
      · subst same
        have rest := ih ⟨notSep.2, notSingle.2, notMulti.2⟩ fun member => clean (List.mem_cons_of_mem _ member)
        rw [matched_same (Ne.symm notSingle.1) (Ne.symm notMulti.1), rest]
        simp only [List.cons.injEq, true_and]
      · rw [matched_other (Ne.symm notSingle.1) (Ne.symm notMulti.1) same]
        simp only [List.cons.injEq, same, false_and, decide_false, Bool.false_and]

theorem matched_level (l : Level) {curf level tail : List UInt8} (next : Ends curf) (clean : separator ∉ level)
    (ends : Ends tail) : isTopicMatched (l.text ++ curf) (level ++ tail) =
      (decide (l.Admits level) && isTopicMatched curf tail) := by
  cases l with
  | exactly text plain => exact matched_plain plain next clean ends
  | any =>
    rw [Level.text, List.singleton_append]
    cases level with
    | nil =>
      have none : ¬ Level.any.Admits [] := fun some => some rfl
      rw [decide_eq_false none, Bool.false_and, List.nil_append]
      rcases ends with rfl | ⟨behind, rfl⟩
      · rfl
      · exact matched_separator (by decide)
    | cons n level =>
      rw [List.mem_cons, not_or] at clean
      have some_there : Level.any.Admits (n :: level) := List.cons_ne_nil _ _
      have skipped : (level ++ tail).dropWhile (· ≠ separator) = tail := by
        have inside : ∀ c ∈ level, decide (c ≠ separator) = true := fun c member =>
          decide_eq_true fun same => clean.2 (same ▸ member)
        rw [List.dropWhile_append_of_pos inside]
        rcases ends with rfl | ⟨behind, rfl⟩
        · rfl
        · exact List.dropWhile_cons_of_neg (by simp)
      rw [decide_eq_true some_there, Bool.true_and, List.cons_append, matched_single (Ne.symm clean.1), skipped]

/-- What `isTopicMatched` decides for a filter in correct format and any topic. -/
theorem isTopicMatched_iff (filter : Filter) (topic : List UInt8) :
    isTopicMatched filter.text topic = true ↔ filter.Admits (levels topic) := by
  induction filter generalizing topic with
  | rest =>
    obtain ⟨level, tail, rfl, clean, split⟩ := levels_cases topic
    have first : ∃ others, levels (level ++ tail) = level :: others := by
      rcases split with ⟨_, only⟩ | ⟨behind, _, more⟩
      · exact ⟨_, only⟩
      · exact ⟨_, more⟩
    obtain ⟨others, first⟩ := first
    rw [first, Filter.text, Filter.Admits]
    cases level with
    | cons n level =>
      rw [List.mem_cons, not_or] at clean
      rw [List.cons_append, matched_multi (Ne.symm clean.1)]
      exact iff_of_true rfl (List.cons_ne_nil _ _)
    | nil =>
      refine iff_of_false ?_ fun some_there => some_there rfl
      rcases split with ⟨rfl, _⟩ | ⟨behind, rfl, _⟩
      · exact Bool.false_ne_true
      · rw [List.nil_append, matched_separator (by decide)]
        exact Bool.false_ne_true
  | last l =>
    obtain ⟨level, tail, rfl, clean, split⟩ := levels_cases topic
    have here := @matched_level l [] level tail (.inl rfl) clean
    rw [List.append_nil] at here
    rw [Filter.text]
    rcases split with ⟨rfl, only⟩ | ⟨behind, rfl, more⟩
    · rw [here (.inl rfl), only, Filter.Admits, matched_nil, List.isEmpty_nil, Bool.and_true,
        decide_eq_true_eq]
    · rw [here (.inr ⟨behind, rfl⟩), more, matched_nil, List.isEmpty_cons, Bool.and_false]
      obtain ⟨second, others, cells⟩ := List.exists_cons_of_ne_nil (List.splitOn_ne_nil separator behind)
      rw [levels, cells]
      exact iff_of_false Bool.false_ne_true id
  | more l filter ih =>
    obtain ⟨level, tail, rfl, clean, split⟩ := levels_cases topic
    have here := @matched_level l (separator :: filter.text) level tail (.inr ⟨_, rfl⟩) clean
    rw [Filter.text]
    rcases split with ⟨rfl, only⟩ | ⟨behind, rfl, more⟩
    · rw [here (.inl rfl), only, matched_end, Bool.and_false, Filter.Admits]
      refine iff_of_false Bool.false_ne_true fun both => ?_
      cases filter <;> exact both.2
    · rw [here (.inr ⟨behind, rfl⟩), more, matched_same (by decide) (by decide), Bool.and_eq_true,
        decide_eq_true_eq, ih, Filter.Admits]

theorem Level.admits_means {l : Level} (admits : l.Admits level) : l.Means level := by
  cases l with
  | any => trivial
  | exactly => exact admits

theorem Filter.admits_means {filter : Filter} (admits : filter.Admits ls) : filter.Means ls := by
  induction filter generalizing ls with
  | rest => cases ls <;> trivial
  | last l =>
    match ls, admits with
    | [_], admits => exact Level.admits_means admits
  | more l filter ih =>
    cases ls with
    | nil => exact admits
    | cons level ls => exact ⟨Level.admits_means admits.1, ih admits.2⟩

/-- The difference are empty levels and the parent. -/
theorem Filter.means_admits {filter : Filter} (means : filter.Means ls) (full : ∀ level ∈ ls, level ≠ [])
    (deep : filter.depth ≤ ls.length) : filter.Admits ls := by
  have each (l : Level) {level : List UInt8} (some_there : level ≠ []) (means : l.Means level) : l.Admits level := by
    cases l with
    | any => exact some_there
    | exactly => exact means
  induction filter generalizing ls with
  | rest =>
    cases ls with
    | nil => exact absurd deep (Nat.not_succ_le_zero 0)
    | cons level ls => exact full level List.mem_cons_self
  | last l =>
    match ls, means with
    | [level], means => exact each l (full level List.mem_cons_self) means
  | more l filter ih =>
    cases ls with
    | nil => exact means
    | cons level ls =>
      exact ⟨each l (full level List.mem_cons_self) means.1,
        ih means.2 (fun level member => full level (List.mem_cons_of_mem _ member)) (Nat.le_of_succ_le_succ deep)⟩

/-- A handler gets only what its filter is for, and all of it as far as topics without
empty levels go that reach down to the last level of the filter. -/
theorem isTopicMatched_means (filter : Filter) (topic : List UInt8) :
    (isTopicMatched filter.text topic = true ↔ filter.Admits (levels topic)) ∧
      (isTopicMatched filter.text topic = true → filter.Means (levels topic)) ∧
      ((∀ level ∈ levels topic, level ≠ []) → filter.depth ≤ (levels topic).length →
        filter.Means (levels topic) → isTopicMatched filter.text topic = true) :=
  ⟨isTopicMatched_iff filter topic,
    fun matched => Filter.admits_means ((isTopicMatched_iff filter topic).mp matched),
    fun full deep means => (isTopicMatched_iff filter topic).mpr (Filter.means_admits means full deep)⟩

/-- The parent of a level is left out, and so is an empty level. -/
example : isTopicMatched (ascii "a/#") (ascii "a") = false ∧ isTopicMatched (ascii "a/+") (ascii "a/") = false ∧
    isTopicMatched (ascii "a/+/c") (ascii "a/b/c") = true := by
  decide

theorem matched_literal {filter topic : List UInt8} (single : singleLevel ∉ filter) (multi : multiLevel ∉ filter) :
    isTopicMatched filter topic = decide (filter = topic) := by
  induction filter generalizing topic with
  | nil =>
    rw [matched_nil]
    cases topic <;> rfl
  | cons f filter ih =>
    rw [List.mem_cons, not_or] at single multi
    cases topic with
    | nil => rfl
    | cons n topic =>
      by_cases same : f = n
      · subst same
        rw [matched_same (Ne.symm single.1) (Ne.symm multi.1), ih single.2 multi.2]
        simp only [List.cons.injEq, true_and]
      · rw [matched_other (Ne.symm single.1) (Ne.symm multi.1) same]
        simp only [List.cons.injEq, same, false_and, decide_false]

theorem mqttPacketEquals_iff (a : MQTTString) {b : List UInt8} (noNul : 0 ∉ b) :
    mqttPacketEquals a b = true ↔ a.text = b := by
  have length := a.length_text
  rw [mqttPacketEquals, decide_eq_true_eq]
  constructor
  · rintro ⟨width, same⟩
    rw [← length, List.take_length, length, width, List.take_length, cstring_of_not_mem noNul] at same
    rw [← same]
    exact ((List.takeWhile_prefix _).eq_of_length (by rw [length, width, ← same]; rfl)).symm
  · intro same
    rw [same, ← length, same]
    exact ⟨rfl, rfl⟩

/-- A filter without wildcards wants the messages of its own topic. -/
theorem wants_literal {Callback : Type} {filter : List UInt8} {callback : Option Callback} (noNul : 0 ∉ filter)
    (single : singleLevel ∉ filter) (multi : multiLevel ∉ filter) (topicName : MQTTString) :
    MessageHandler.wants ⟨some filter, callback⟩ topicName = decide (topicName.text = filter) := by
  have equals := mqttPacketEquals_iff topicName noNul
  rw [MessageHandler.wants]
  simp only [matched_literal single multi]
  by_cases same : topicName.text = filter
  · rw [equals.mpr same, decide_eq_true same]
    exact Bool.true_or _
  · have other : mqttPacketEquals topicName filter = false := Bool.eq_false_iff.mpr fun equal => same (equals.mp equal)
    rw [other, decide_eq_false same, Bool.false_or]
    exact decide_eq_false fun equal => same equal.symm

end RemoteBoot.Mqtt
