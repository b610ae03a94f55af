import RemoteBoot.Bytes
import RemoteBoot.Strtol

/-! `mqtt_sub_callback` of `mqtt.c`: from a received document to the signals it
sends. cJSON is a parameter. -/
namespace RemoteBoot.Mqtt
open Bytes Strtol

/-- The three calls into cJSON. An item that is missing prints as `RT_NULL`. -/
structure CJson (Item : Type) where
  parse : List UInt8 → Option Item
  getObjectItem : Item → String → Option Item
  print : Item → Option (List UInt8)

inductive Effect where
  | jsonError
  /-- `rt_sem_release(computer_on_sem)` -/
  | releaseOn
  /-- `rt_kprintf("page %s\r\n", str)` -/
  | echoPage (str : List UInt8)
  /-- `rt_mb_send(page_mail, page)` -/
  | mailPage (page : UInt32)
  deriving DecidableEq

/-- `atoi`, with an `int` of 32 bits. -/
def atoi (str : List UInt8) : Int := strtol 10 (cstring str)

variable {Item : Type}

def CJson.printMember (json : CJson Item) (item : Item) (name : String) : Option (List UInt8) :=
  (json.getObjectItem item name).bind json.print

/-- The `turn_on` part. `ctl_status` is an unsigned char. -/
def turnOnEffects (str : Option (List UInt8)) : List Effect :=
  match str with
  | none => []
  | some str => if UInt8.ofInt (atoi str) = 1 then [.releaseOn] else []

/-- The `page` part. `page` is an `rt_ubase_t` of 32 bits. -/
def pageEffects (str : Option (List UInt8)) : List Effect :=
  match str with
  | none => []
  | some str => [.echoPage str, .mailPage (UInt32.ofInt (atoi str))]

/-- `mqtt_sub_callback`. The NUL it stores behind the payload ends the text. -/
def mqttSubCallback (json : CJson Item) (payload : List UInt8) : List Effect :=
  match json.parse (cstring payload) with
  | none => [.jsonError]
  | some document =>
    match json.getObjectItem document "params" with
    | none => []
    | some params =>
      turnOnEffects (json.printMember params "turn_on") ++
        pageEffects (json.printMember params "page")

/-- The printed member `name` of `params`, as far as the payload has them. -/
def CJson.field (json : CJson Item) (payload : List UInt8) (name : String) : Option (List UInt8) :=
  ((json.parse (cstring payload)).bind fun document => json.getObjectItem document "params").bind
    fun params => json.printMember params name

/-- The test of the callback: `turn_on` prints, and makes `ctl_status` 1. -/
def TurnsOn (json : CJson Item) (payload : List UInt8) : Prop :=
  ∃ str ∈ json.field payload "turn_on", UInt8.ofInt (atoi str) = 1

instance (json : CJson Item) (payload : List UInt8) : Decidable (TurnsOn json payload) :=
  inferInstanceAs (Decidable (∃ str ∈ json.field payload "turn_on", UInt8.ofInt (atoi str) = 1))

/-- A `page` is there and prints. -/
def NamesPage (json : CJson Item) (payload : List UInt8) : Prop := (json.field payload "page").isSome

/-- The callback up to the end of the `turn_on` part, which has its test. -/
def mqttSubTurnOn (json : CJson Item) (payload : List UInt8) : List Effect :=
  turnOnEffects (json.field payload "turn_on")

/-- The rest of it. -/
def mqttSubPage (json : CJson Item) (payload : List UInt8) : List Effect :=
  if json.parse (cstring payload) = none then [.jsonError]
  else pageEffects (json.field payload "page")

/-- The two parts of the callback, in the order in which it runs them. -/
theorem mqttSubCallback_parts (json : CJson Item) (payload : List UInt8) :
    mqttSubCallback json payload = mqttSubTurnOn json payload ++ mqttSubPage json payload := by
  unfold mqttSubCallback mqttSubTurnOn mqttSubPage CJson.field
  cases json.parse (cstring payload) with
  | none => rfl
  | some document =>
    cases member : json.getObjectItem document "params" with
    | none => simp [member, turnOnEffects, pageEffects]
    | some params => simp [member]

/-- A document that passes the test is one release, and no other part releases. -/
theorem mqttSubTurnOn_eq (json : CJson Item) (payload : List UInt8) :
    mqttSubTurnOn json payload = if TurnsOn json payload then [.releaseOn] else [] := by
  by_cases on : TurnsOn json payload
  · obtain ⟨str, printed, one⟩ := id on
    rw [if_pos on, mqttSubTurnOn, printed, turnOnEffects, if_pos one]
  · rw [if_neg on, mqttSubTurnOn]
    cases printed : json.field payload "turn_on" with
    | none => rfl
    | some str => exact if_neg fun one => on ⟨str, printed, one⟩

theorem releaseOn_not_mem_mqttSubPage (json : CJson Item) (payload : List UInt8) :
    .releaseOn ∉ mqttSubPage json payload := by
  unfold mqttSubPage
  split
  · decide
  · cases json.field payload "page" <;> simp [pageEffects]

theorem releaseOn_mem_iff (json : CJson Item) (payload : List UInt8) :
    .releaseOn ∈ mqttSubCallback json payload ↔ TurnsOn json payload := by
  rw [mqttSubCallback_parts, mqttSubTurnOn_eq, List.mem_append,
    or_iff_left (releaseOn_not_mem_mqttSubPage json payload)]
  split <;> simp [*]

theorem mailPage_mem_iff (json : CJson Item) (payload : List UInt8) :
    (∃ page, .mailPage page ∈ mqttSubCallback json payload) ↔ NamesPage json payload := by
  rw [mqttSubCallback_parts, mqttSubTurnOn_eq]
  unfold mqttSubPage NamesPage
  by_cases unparsed : json.parse (cstring payload) = none
  · have none : json.field payload "page" = none := by simp [CJson.field, unparsed]
    simp only [unparsed, none, if_true, Option.isSome_none]
    split <;> simp
  · simp only [if_neg unparsed]
    cases json.field payload "page" with
    | none => split <;> simp [pageEffects]
    | some str => split <;> simp [pageEffects]

inductive SampleItem where
  | document | params | turnOn
  deriving DecidableEq

/-- The document `{"params":{"turn_on":1}}`. -/
def turnOnText : List UInt8 :=
  [123, 34, 112, 97, 114, 97, 109, 115, 34, 58, 123, 34, 116, 117, 114, 110, 95, 111, 110, 34, 58, 49,
    125, 125]

/-- What cJSON makes of it. -/
def turnOnJson : CJson SampleItem where
  parse text := if text = turnOnText then some .document else none
  getObjectItem
    | .document, name => if name = "params" then some .params else none
    | .params, name => if name = "turn_on" then some .turnOn else none
    | .turnOn, _ => none
  print
    | .turnOn => some [49]
    | _ => none

end RemoteBoot.Mqtt
