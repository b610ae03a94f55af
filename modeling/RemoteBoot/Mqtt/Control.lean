import RemoteBoot.Mqtt.Numeral

/-! What a control message makes the callback do, over the JSON values of its two
members. The callback judges a value by the integer its text begins with, and for
`turn_on` by the last eight bits of that. -/
namespace RemoteBoot.Mqtt
open Bytes Strtol Decimal

/-- A value by what its text begins with. A number is the numeral it prints as. -/
inductive JsonValue where
  | null
  | bool (b : Bool)
  | number (n : Numeral)
  | string
  | array
  | object
  deriving DecidableEq

namespace JsonValue

inductive Prints : JsonValue → List UInt8 → Prop where
  | null : Prints .null [110, 117, 108, 108]
  | true : Prints (.bool true) [116, 114, 117, 101]
  | false : Prints (.bool false) [102, 97, 108, 115, 101]
  | number (n : Numeral) : Prints (.number n) n.text
  | string (rest : List UInt8) : Prints .string (34 :: rest)
  | array (rest : List UInt8) : Prints .array (91 :: rest)
  | object (rest : List UInt8) : Prints .object (123 :: rest)

/-- What `atoi` reads of the text. -/
def reads : JsonValue → Int
  | number n => n.leading
  | _ => 0

theorem atoi_other {c : UInt8} (rest : List UInt8) (visible : c ≠ 0) (noSpace : isSpace c = false)
    (noMinus : c ≠ 45) (noPlus : c ≠ 43) (noDigit : ¬ IsDigit 10 c) : atoi (c :: rest) = 0 := by
  rw [atoi, cstring_cons visible, strtol_other noSpace noMinus noPlus noDigit]

theorem atoi_prints {value : JsonValue} (prints : value.Prints text) : atoi text = value.reads := by
  cases prints with
  | number n => exact n.atoi_text
  | _ => exact atoi_other _ (by decide) (by decide) (by decide) (by decide) (by decide)

end JsonValue

/-- `cJSON_Print` prints every item, and an integer of `int` size without fraction
and exponent. -/
structure Faithful (json : CJson Item) (shows : Item → JsonValue) : Prop where
  prints : ∀ item, ∃ text, json.print item = some text ∧ (shows item).Prints text
  plain : ∀ item n (i : Int), shows item = .number n → n.value = i → -2 ^ 31 ≤ i → i < 2 ^ 31 →
    n.fraction = [] ∧ n.exponent = none

/-- `params.name` of a document. -/
def CJson.param (json : CJson Item) (document : Item) (name : String) : Option Item :=
  (json.getObjectItem document "params").bind fun params => json.getObjectItem params name

def mails (effects : List Effect) : List UInt32 :=
  effects.filterMap fun
    | .mailPage page => some page
    | _ => none

/-- A mail of 32 bits carries the integer, taken as signed or as unsigned. -/
def Carries (mail : UInt32) (i : Int) : Prop := (mail.toNat : Int) = i ∨ mail.toBitVec.toInt = i

/-- The number 1. -/
def SwitchesOn (turnOn : Option JsonValue) : Prop := ∃ n, turnOn = some (.number n) ∧ n.value = 1

def IsInteger (page : Option JsonValue) (i : Int) : Prop := ∃ n, page = some (.number n) ∧ n.value = i

/-- What a control message is to do. -/
structure Obeys (turnOn page : Option JsonValue) (effects : List Effect) : Prop where
  on : SwitchesOn turnOn → effects.count .releaseOn = 1
  off : ¬ SwitchesOn turnOn → effects.count .releaseOn = 0
  mailed : ∀ i, IsInteger page i → ∃ mail, mails effects = [mail] ∧ Carries mail i
  silent : (∀ i, ¬ IsInteger page i) → mails effects = []

/-- No other number begins with an integer that is 1 in eight bits, and a page is
an integer of `int` size. -/
structure Plain (turnOn page : Option JsonValue) : Prop where
  turnOn : ∀ n, turnOn = some (.number n) → UInt8.ofInt n.leading = 1 → n.value = 1
  page : ∀ value, page = some value → ∃ i, IsInteger page i ∧ -2 ^ 31 ≤ i ∧ i < 2 ^ 31

theorem count_releaseOn (turnOn page : Option (List UInt8)) :
    (turnOnEffects turnOn ++ pageEffects page).count .releaseOn =
      if ∃ str ∈ turnOn, UInt8.ofInt (atoi str) = 1 then 1 else 0 := by
  have none : (pageEffects page).count .releaseOn = 0 := by
    cases page <;> rfl
  rw [List.count_append, none, Nat.add_zero]
  cases turnOn with
  | none => simp [turnOnEffects]
  | some str =>
    by_cases one : UInt8.ofInt (atoi str) = 1
    · simp [turnOnEffects, one]
    · simp [turnOnEffects, one]

theorem mails_effects (turnOn page : Option (List UInt8)) :
    mails (turnOnEffects turnOn ++ pageEffects page) =
      (page.map fun str => UInt32.ofInt (atoi str)).toList := by
  have none : mails (turnOnEffects turnOn) = [] := by
    cases turnOn with
    | none => rfl
    | some str =>
      simp only [turnOnEffects]
      split <;> rfl
  simp only [mails] at none
  simp only [mails, List.filterMap_append, none, List.nil_append]
  cases page <;> rfl

theorem toNat_ofInt (i : Int) : ((UInt32.ofInt i).toNat : Int) = i % 2 ^ 32 := by
  rw [UInt32.ofInt, UInt32.toNat_ofNat']
  omega

/-- An `int` sent as a mail carries itself and its unsigned reading. -/
theorem carries_ofInt {v i : Int} (low : -2 ^ 31 ≤ v) (high : v < 2 ^ 31) :
    Carries (UInt32.ofInt v) i ↔ i = v ∨ i = v + 2 ^ 32 ∧ v < 0 := by
  have value := toNat_ofInt v
  have signed : (UInt32.ofInt v).toBitVec.toInt = v := by
    rw [BitVec.toInt_eq_toNat_cond, UInt32.toNat_toBitVec]
    split <;> omega
  rw [Carries, signed, value]
  omega

namespace CJson
variable (json : CJson Item) (shows : Item → JsonValue)

theorem printMember_prints (faithful : Faithful json shows) (item : Item) (name : String) :
    (json.printMember item name).map atoi =
      (json.getObjectItem item name).map fun member => (shows member).reads := by
  unfold printMember
  cases json.getObjectItem item name with
  | none => rfl
  | some member =>
    obtain ⟨text, printed, prints⟩ := faithful.prints member
    simp only [Option.bind_some, printed, Option.map_some, JsonValue.atoi_prints prints]

end CJson

/-- The effects over the values alone. -/
theorem callback_effects (json : CJson Item) {shows : Item → JsonValue} (faithful : Faithful json shows)
    {payload : List UInt8} {document : Item} (parsed : json.parse (cstring payload) = some document) :
    (mqttSubCallback json payload).count .releaseOn =
      (if ∃ value ∈ (json.param document "turn_on").map shows, UInt8.ofInt value.reads = 1 then 1
        else 0) ∧
    mails (mqttSubCallback json payload) =
      (((json.param document "page").map shows).map fun value => UInt32.ofInt value.reads).toList := by
  cases member : json.getObjectItem document "params" with
  | none => simp [mqttSubCallback, parsed, CJson.param, member, mails]
  | some params =>
    have turnOn := json.printMember_prints shows faithful params "turn_on"
    have page := json.printMember_prints shows faithful params "page"
    simp only [mqttSubCallback, parsed, CJson.param, member, Option.bind_some, count_releaseOn, mails_effects]
    constructor
    · have same : (∃ str ∈ json.printMember params "turn_on", UInt8.ofInt (atoi str) = 1) ↔
          ∃ value ∈ (json.getObjectItem params "turn_on").map shows, UInt8.ofInt value.reads = 1 := by
        have read : (∃ str ∈ json.printMember params "turn_on", UInt8.ofInt (atoi str) = 1) ↔
            ∃ i ∈ (json.printMember params "turn_on").map atoi, UInt8.ofInt i = 1 := by
          simp only [Option.mem_def, Option.map_eq_some_iff, exists_exists_and_eq_and]
        rw [read, turnOn]
        simp only [Option.mem_def, Option.map_eq_some_iff, exists_exists_and_eq_and]
      simp only [same]
    · have mailed := congrArg (fun i => (i.map UInt32.ofInt).toList) page
      simpa only [Option.map_map, Function.comp_def] using mailed

theorem isInteger_unique {page : Option JsonValue} (one : IsInteger page i) (other : IsInteger page j) :
    i = j := by
  obtain ⟨n, shown, denotes⟩ := one
  obtain ⟨m, shown', denotes'⟩ := other
  cases shown.symm.trans shown'
  exact Int.cast_inj.mp (denotes.symm.trans denotes')

/-- An integer is mailed as it is exactly when it has the size of an `int`. -/
theorem carries_leading {n : Numeral} (denotes : n.value = (i : Int))
    (plain : -2 ^ 31 ≤ i → i < 2 ^ 31 → n.fraction = [] ∧ n.exponent = none) :
    Carries (UInt32.ofInt n.leading) i ↔ -2 ^ 31 ≤ i ∧ i < 2 ^ 31 := by
  have range := n.leading_range
  rw [carries_ofInt range.1 range.2]
  constructor
  · rintro (rfl | ⟨above, below⟩)
    · exact range
    · have positive : 0 < n.value := by
        rw [denotes]
        exact Int.cast_pos.mpr (by omega)
      have unsigned := Numeral.positive_of_value positive
      simp only [Numeral.leading, unsigned, Bool.false_eq_true, if_false] at below
      omega
  · rintro ⟨low, high⟩
    obtain ⟨noFraction, noExponent⟩ := plain low high
    exact .inl (Numeral.leading_of_plain noFraction noExponent denotes low high).symm

theorem release_iff {turnOn : Option JsonValue}
    (plain : ∀ n, turnOn = some (.number n) → n.value = 1 → n.leading = 1) {count : Nat}
    (counted : count = if ∃ value ∈ turnOn, UInt8.ofInt value.reads = 1 then 1 else 0) :
    ((SwitchesOn turnOn → count = 1) ∧ (¬ SwitchesOn turnOn → count = 0)) ↔
      ∀ n, turnOn = some (.number n) → UInt8.ofInt n.leading = 1 → n.value = 1 := by
  have on (switches : SwitchesOn turnOn) : count = 1 := by
    obtain ⟨n, shown, one⟩ := switches
    rw [counted, if_pos ⟨.number n, shown, by rw [JsonValue.reads, plain n shown one]; rfl⟩]
  constructor
  · rintro ⟨_, off⟩ n shown one
    by_contra other
    have silent := off (by
      rintro ⟨m, shown', one'⟩
      cases shown.symm.trans shown'
      exact other one')
    rw [counted, if_pos ⟨.number n, shown, one⟩] at silent
    exact absurd silent (by decide)
  · intro only
    refine ⟨on, fun off => ?_⟩
    rw [counted, if_neg]
    rintro ⟨value, shown, one⟩
    cases value with
    | number n => exact off ⟨n, shown, only n shown one⟩
    | null | bool | string | array | object => exact absurd (show UInt8.ofInt 0 = 1 from one) (by decide)

theorem mail_iff {page : Option JsonValue} {sent : List UInt32}
    (plain : ∀ n (i : Int), page = some (.number n) → n.value = i → -2 ^ 31 ≤ i → i < 2 ^ 31 →
      n.fraction = [] ∧ n.exponent = none)
    (mailed : sent = (page.map fun value => UInt32.ofInt value.reads).toList) :
    ((∀ i, IsInteger page i → ∃ mail, sent = [mail] ∧ Carries mail i) ∧
        ((∀ i, ¬ IsInteger page i) → sent = [])) ↔
      ∀ value, page = some value → ∃ i, IsInteger page i ∧ -2 ^ 31 ≤ i ∧ i < 2 ^ 31 := by
  subst mailed
  constructor
  · rintro ⟨carried, silent⟩ value rfl
    by_cases integer : ∃ i, IsInteger (some value) i
    · obtain ⟨i, isInteger⟩ := integer
      obtain ⟨mail, one, carries⟩ := carried i isInteger
      obtain ⟨n, shown, denotes⟩ := isInteger
      cases shown
      simp only [Option.map_some, Option.toList_some, List.cons.injEq, and_true] at one
      subst one
      exact ⟨i, ⟨n, rfl, denotes⟩, (carries_leading denotes (plain n i rfl denotes)).mp carries⟩
    · exact absurd (silent (not_exists.mp integer)) (by simp)
  · intro sized
    constructor
    · intro i isInteger
      obtain ⟨n, rfl, denotes⟩ := isInteger
      obtain ⟨j, other, range⟩ := sized _ rfl
      cases isInteger_unique ⟨n, rfl, denotes⟩ other
      exact ⟨_, rfl, (carries_leading denotes (plain n i rfl denotes)).mpr range⟩
    · intro none
      cases page with
      | none => rfl
      | some value =>
        obtain ⟨i, isInteger, _⟩ := sized value rfl
        exact absurd isInteger (none i)

/-- The callback obeys the two members exactly when no other number passes for 1
and a page that is there is an integer of `int` size. -/
theorem mqttSubCallback_obeys_iff (json : CJson Item) {shows : Item → JsonValue}
    (faithful : Faithful json shows) {payload : List UInt8} {document : Item}
    (parsed : json.parse (cstring payload) = some document) :
    Obeys ((json.param document "turn_on").map shows) ((json.param document "page").map shows)
        (mqttSubCallback json payload) ↔
      Plain ((json.param document "turn_on").map shows) ((json.param document "page").map shows) := by
  obtain ⟨counted, mailed⟩ := callback_effects json faithful parsed
  have plain (name : String) (n : Numeral) (i : Int)
      (shown : (json.param document name).map shows = some (.number n)) :
      n.value = i → -2 ^ 31 ≤ i → i < 2 ^ 31 → n.fraction = [] ∧ n.exponent = none := by
    obtain ⟨item, _, printed⟩ := Option.map_eq_some_iff.mp shown
    exact faithful.plain item n i printed
  have one (n : Numeral) (shown : (json.param document "turn_on").map shows = some (.number n))
      (denotes : n.value = 1) : n.leading = 1 := by
    have denotes : n.value = (1 : Int) := denotes.trans Int.cast_one.symm
    obtain ⟨noFraction, noExponent⟩ := plain "turn_on" n 1 shown denotes (by decide) (by decide)
    exact Numeral.leading_of_plain noFraction noExponent denotes (by decide) (by decide)
  have released := release_iff one counted
  have sent := mail_iff (fun n i shown => plain "page" n i shown) mailed
  constructor
  · intro obeys
    exact ⟨released.mp ⟨obeys.on, obeys.off⟩, sent.mp ⟨obeys.mailed, obeys.silent⟩⟩
  · intro told
    obtain ⟨on, off⟩ := released.mpr told.turnOn
    obtain ⟨mailed, silent⟩ := sent.mpr told.page
    exact ⟨on, off, mailed, silent⟩

inductive ControlItem where
  | document | params | turnOn
  deriving DecidableEq

/-- The document that sets `turn_on` to the integer. -/
def controlText (i : Int) : List UInt8 :=
  ascii "\x7b\"params\":\x7b\"turn_on\":" ++ (Numeral.integer i).text ++ ascii "\x7d\x7d"

/-- What cJSON makes of it. -/
def controlJson (i : Int) : CJson ControlItem where
  parse text := if text = controlText i then some .document else none
  getObjectItem
    | .document, name => if name = "params" then some .params else none
    | .params, name => if name = "turn_on" then some .turnOn else none
    | .turnOn, _ => none
  print
    | .document => some (ascii "\x7b\n\t\"params\":\t\x7b\n\t\t\"turn_on\":\t" ++
        (Numeral.integer i).text ++ ascii "\n\t\x7d\n\x7d")
    | .params => some (ascii "\x7b\n\t\"turn_on\":\t" ++ (Numeral.integer i).text ++ ascii "\n\x7d")
    | .turnOn => some (Numeral.integer i).text

def controlShows (i : Int) : ControlItem → JsonValue
  | .document | .params => .object
  | .turnOn => .number (.integer i)

theorem controlJson_faithful (i : Int) : Faithful (controlJson i) (controlShows i) := by
  constructor
  · intro item
    cases item with
    | document => exact ⟨_, rfl, .object _⟩
    | params => exact ⟨_, rfl, .object _⟩
    | turnOn => exact ⟨_, rfl, .number _⟩
  · intro item n j shown _ _ _
    cases item with
    | document | params => cases shown
    | turnOn =>
      cases shown
      exact ⟨rfl, rfl⟩

theorem mqttSubCallback_obeys_iff_one :
    Obeys (some (.number (.integer 1))) none (mqttSubCallback (controlJson 1) (controlText 1)) ↔
      Plain (some (.number (.integer 1))) none := by
  have parsed : (controlJson 1).parse (cstring (controlText 1)) = some .document := by decide
  exact mqttSubCallback_obeys_iff (controlJson 1) (controlJson_faithful 1) parsed

/-- The number 257 switches the computer on. -/
theorem turn_on_wraps : (controlJson 257).parse (cstring (controlText 257)) = some .document ∧
    ¬ Obeys (some (.number (.integer 257))) none (mqttSubCallback (controlJson 257) (controlText 257)) := by
  refine ⟨by decide, fun obeys => ?_⟩
  have silent := obeys.off (by
    rintro ⟨n, shown, one⟩
    cases shown
    have whole : (Numeral.integer 257).value = 257 := by
      norm_num [Numeral.integer, Numeral.value, Numeral.magnitude]
    exact absurd (whole.symm.trans one) (by decide))
  exact absurd silent (by decide)

end RemoteBoot.Mqtt
