import RemoteBoot.Mqtt.Callback
import RemoteBoot.Mqtt.Topic

/-! `MQTT_cycle`: a packet is read from the socket into the read buffer and served.
The bytes that arrive in time are a list; the worker closes the connection when the
result is negative. -/
namespace RemoteBoot.Mqtt
open Bytes

structure Handlers (Callback : Type) where
  messageHandlers : List (MessageHandler Callback)
  defaultMessageHandler : Option Callback

/-- What a cycle does besides reading. -/
inductive Service (Callback : Type) where
  /-- The topic, and the string that the callback finds after it has stored its NUL. -/
  | call (callback : Callback) (topicName text : List UInt8)
  | send (packet : List UInt8)
  | tickPing

inductive Cycled (Callback : Type) where
  /-- An access outside its object, or the use of a value that was never set. -/
  | undefined
  | disconnect (services : List (Service Callback))
  | served (services : List (Service Callback)) (readbuf wire : List UInt8)

inductive Received where
  | failure
  | overrun
  | packet (readbuf wire : List UInt8)

/-- `MQTTPacket_readPacket`. There is no check against `readbuf_size`. -/
def receive (readbuf : List UInt8) : List UInt8 → Received
  | [] => .failure
  | byte :: wire =>
    let (remLen, len) := decode maxLengthBytes wire
    let behind := wire.drop (min len maxLengthBytes)
    let stored := byte :: (encode remLen ++ behind.take remLen)
    if stored.length > readbuf.length then .overrun
    else if (behind.take remLen).length = remLen then .packet (splice readbuf 0 stored) (behind.drop remLen)
    else .failure

def bufSize : Nat := 2048

variable {Callback : Type}

/-- `sendPacket` of an acknowledgement that was serialized into `buf`. -/
def acknowledge (sends : Bool) (done : List (Service Callback)) (readbuf wire : List UInt8) :
    Option (List UInt8) → Cycled Callback
  | none => .disconnect done
  | some packet =>
    if sends then .served (done ++ [.send packet]) readbuf wire else .disconnect (done ++ [.send packet])

/-- What a message of its QoS is answered with. -/
def answer (sends : Bool) (done : List (Service Callback)) (readbuf wire : List UInt8) (msg : Publish) :
    Cycled Callback :=
  match msg.packetid with
  | none => .served done readbuf wire
  | some id =>
    acknowledge sends done readbuf wire
      (if msg.qos = 1 then serializeAck bufSize .puback 0 id
        else if msg.qos = 2 then serializeAck bufSize .pubrec 0 id
        else none)

/-- The callbacks store the same NUL behind the payload and read it as a string. -/
def payloadText (readbuf : List UInt8) (msg : Publish) : Option (List UInt8 × List UInt8) :=
  match msg.terminate readbuf with
  | none => none
  | some after => if 0 ∈ after.drop msg.payload then some (after, cstring (after.drop msg.payload)) else none

/-- Some callback may get the message, or some filter is compared with its topic. -/
def Handlers.Listens (h : Handlers Callback) : Prop :=
  (∃ handler ∈ h.messageHandlers, handler.topicFilter.isSome) ∨ h.defaultMessageHandler.isSome

instance (h : Handlers Callback) : Decidable h.Listens := inferInstanceAs (Decidable (_ ∨ _))

/-- A message of which only the flags are set is handed on: its topic and payload are
used if anybody listens, and its packet id where it is acknowledged. -/
def serveUnset (h : Handlers Callback) (qos : Nat) (readbuf wire : List UInt8) : Cycled Callback :=
  if h.Listens then .undefined
  else if qos = 0 then .served [] readbuf wire
  else if qos = 1 ∨ qos = 2 then .undefined
  else .disconnect []

/-- The PUBLISH case. The packet id in front of the payload is read without a look at
the end. -/
def servePublish (h : Handlers Callback) (sends : Bool) (readbuf wire : List UInt8) : Cycled Callback :=
  match deserializePublish readbuf with
  | .other => .served [] readbuf wire
  | .cut rc _ qos _ => if rc ≠ 1 then .served [] readbuf wire else serveUnset h qos readbuf wire
  | .publish msg =>
    if msg.payload > readbuf.length then .undefined
    else
      let topicName := slot readbuf msg.topic msg.topicLen
      match (deliverMessage h.messageHandlers h.defaultMessageHandler ⟨none, topicName⟩).2 with
      | [] => answer sends [] readbuf wire msg
      | called =>
        match payloadText readbuf msg with
        | none => .undefined
        | some (readbuf, text) =>
          answer sends (called.map fun callback => .call callback topicName text) readbuf wire msg

/-- The PUBREC case. Without a packet id the result may still be 1. -/
def servePubrec (sends : Bool) (readbuf wire : List UInt8) : Cycled Callback :=
  match deserializeAck readbuf with
  | (1, _, _, some id) => acknowledge sends [] readbuf wire (serializeAck bufSize .pubrel 0 id)
  | (1, _, _, none) => .undefined
  | _ => .disconnect []

/-- `MQTT_cycle`; `sends` is whether the socket takes what is sent. -/
def cycle (h : Handlers Callback) (sends : Bool) (readbuf wire : List UInt8) : Cycled Callback :=
  match receive readbuf wire with
  | .failure => .disconnect []
  | .overrun => .undefined
  | .packet readbuf wire =>
    let type := typeBits (charAt readbuf 0)
    if type = MsgType.publish.code then servePublish h sends readbuf wire
    else if type = MsgType.pubrec.code then
      servePubrec sends readbuf wire
    else if type = MsgType.suback.code then
      -- the array of granted levels has one cell, and two are let in
      if (decode maxLengthBytes (readbuf.drop 1)).1 ≥ 4 then .undefined else .served [] readbuf wire
    else if type = MsgType.pingresp.code then .served [.tickPing] readbuf wire
    else .served [] readbuf wire

/-- Cycles one after the other. -/
def serve (h : Handlers Callback) (readbuf wire : List UInt8) :
    Nat → Option (List (Service Callback) × List UInt8 × List UInt8)
  | 0 => some ([], readbuf, wire)
  | n + 1 =>
    match cycle h true readbuf wire with
    | .served services readbuf wire =>
      (serve h readbuf wire n).map fun (more, rest) => (services ++ more, rest)
    | _ => none

/-- A message that the broker sends: in size it leaves room for the NUL behind it. -/
structure Message where
  topic : List UInt8
  payload : List UInt8
  dup : Nat
  qos : Nat
  retained : Nat
  packetid : Nat
  bytes : List UInt8
  dupBit : dup < 2
  level : qos < 3
  retainBit : retained < 2
  id : packetid < 65536
  written : serializePublish (readbufSize - 1) dup qos retained packetid ⟨none, topic⟩ payload = some bytes

namespace Message

/-- An acknowledgement on the wire. -/
def ackBytes (type : MsgType) (packetid : Nat) : List UInt8 := header type 0 0 0 :: (encode 2 ++ writeInt packetid)

def acks (m : Message) : List (Service Callback) :=
  if m.qos = 0 then [] else [.send (ackBytes (if m.qos = 1 then .puback else .pubrec) m.packetid)]

/-- What the message is to lead to. -/
def services (h : Handlers Callback) (m : Message) : List (Service Callback) :=
  (deliverMessage h.messageHandlers h.defaultMessageHandler ⟨none, m.topic⟩).2.map
    (fun callback => .call callback m.topic (cstring m.payload)) ++ m.acks

end Message

theorem receive_frame {readbuf : List UInt8} (written : frame buflen head body.length body = some bytes)
    (small : buflen < 128 ^ 4) (fits : bytes.length ≤ readbuf.length) (wire : List UInt8) :
    receive readbuf (bytes ++ wire) = .packet (bytes ++ readbuf.drop bytes.length) wire := by
  obtain ⟨whole, room⟩ := frame_fits written small
  have bound : body.length < 128 ^ 4 := by omega
  unfold frame at written
  split at written
  · cases written
  · cases written
    have decoded := decode_encode bound (body ++ wire)
    have few : (encode body.length).length ≤ maxLengthBytes := length_encodeFrom _ bound (by decide)
    have inside : ¬ (head :: (encode body.length ++ body)).length > readbuf.length := Nat.not_lt.mpr fits
    simp only [List.cons_append, List.append_assoc, receive, decoded, Nat.min_eq_left few, List.drop_left,
      List.take_left, if_neg inside, if_true]
    rw [splice, List.take_zero, List.nil_append, Nat.zero_add, List.cons_append, List.append_assoc]

/-- After the NUL behind it the payload is read as a C string, and no more. -/
theorem payloadText_spec {p : Publish} {bytes rest : List UInt8} (length : p.payloadlen = payload.length)
    (last : p.payload + payload.length = bytes.length)
    (data : slot (bytes ++ rest) p.payload payload.length = payload) (room : 0 < rest.length) :
    ∃ after, after.length = (bytes ++ rest).length ∧ payloadText (bytes ++ rest) p = some (after, cstring payload) := by
  obtain ⟨old, rest, rfl⟩ := List.exists_cons_of_length_pos room
  have nul : p.nul = (bytes.length : Int) := by
    rw [Publish.nul, length]
    omega
  have inside : 0 ≤ p.nul ∧ p.nul < (bytes ++ old :: rest).length := by
    rw [nul, List.length_append, List.length_cons]
    omega
  have stored : (bytes ++ old :: rest).set p.nul.toNat 0 = bytes ++ 0 :: rest := by
    rw [nul, Int.toNat_natCast, List.set_append_right _ _ (Nat.le_refl _), Nat.sub_self, List.set_cons_zero]
  have end_of_packet : bytes.drop p.payload = payload := by
    rw [slot, List.drop_append_of_le_length (by omega), List.take_left' (by rw [List.length_drop]; omega)] at data
    exact data
  have string : (bytes ++ 0 :: rest).drop p.payload = payload ++ 0 :: rest := by
    rw [List.drop_append_of_le_length (by omega), end_of_packet]
  have ended : 0 ∈ payload ++ 0 :: rest := List.mem_append_right _ List.mem_cons_self
  refine ⟨bytes ++ 0 :: rest, by rw [List.length_append, List.length_append]; rfl, ?_⟩
  rw [payloadText, Publish.terminate, if_pos inside, stored]
  simp only [string, if_pos ended, cstring_append_zero]

namespace Message

theorem frame_bytes (m : Message) : ∃ body, frame (readbufSize - 1) (header .publish m.dup m.qos m.retained)
    body.length body = some m.bytes := ⟨_, publish_frame (.inl rfl) m.written⟩

/-- One cycle serves one message. -/
theorem cycle_bytes (m : Message) (h : Handlers Callback) {readbuf : List UInt8} (size : readbuf.length = readbufSize)
    (wire : List UInt8) : ∃ after, after.length = readbufSize ∧
      cycle h true readbuf (m.bytes ++ wire) = .served (m.services h) after wire := by
  obtain ⟨body, framed⟩ := m.frame_bytes
  have bound : readbufSize - 1 < 128 ^ 4 := by decide
  obtain ⟨_, fits⟩ := frame_fits framed bound
  have room : m.bytes.length < readbuf.length := by
    rw [size]
    have : 0 < readbufSize := by decide
    omega
  have received := receive_frame framed bound (Nat.le_of_lt room) wire
  have head := (frame_stands framed bound (readbuf.drop m.bytes.length)).1
  have behind : 0 < (readbuf.drop m.bytes.length).length := by
    rw [List.length_drop]
    omega
  have whole : (m.bytes ++ readbuf.drop m.bytes.length).length = readbufSize := by
    rw [List.length_append, List.length_drop]
    omega
  obtain ⟨p, read, _, qos, _, id, name, length, data, last⟩ := deserializePublish_written m.written (by decide)
    (.inl rfl) m.dupBit (Nat.lt_succ_of_lt m.level) m.retainBit m.id (readbuf.drop m.bytes.length)
  obtain ⟨after, kept, text⟩ := payloadText_spec length last data behind
  have name : slot (m.bytes ++ readbuf.drop m.bytes.length) p.topic p.topicLen = m.topic := name
  have type : typeBits (charAt (m.bytes ++ readbuf.drop m.bytes.length) 0) = MsgType.publish.code := by
    rw [head, typeBits_header]
  have inside : ¬ p.payload > (m.bytes ++ readbuf.drop m.bytes.length).length := by omega
  have answered (done : List (Service Callback)) (readbuf : List UInt8) :
      answer true done readbuf wire p = .served (done ++ m.acks) readbuf wire := by
    have level := m.level
    unfold answer acks
    rw [id, qos]
    by_cases plain : m.qos = 0
    · have unnumbered : ¬ m.qos > 0 := by omega
      rw [if_neg unnumbered, if_pos plain, List.append_nil]
    · have numbered : m.qos > 0 := by omega
      rw [if_pos numbered, if_neg plain]
      by_cases one : m.qos = 1
      · simp only [if_pos one]
        rfl
      · have two : m.qos = 2 := by omega
        simp only [if_neg one, if_pos two]
        rfl
  simp only [cycle, received, type, if_true, servePublish, read, name, if_neg inside, answered, services]
  cases (deliverMessage h.messageHandlers h.defaultMessageHandler ⟨none, m.topic⟩).2 with
  | nil => exact ⟨_, whole, rfl⟩
  | cons callback called => exact ⟨after, kept.trans whole, by simp only [text]⟩

end Message

theorem serve_messages (h : Handlers Callback) (ms : List Message) {readbuf : List UInt8}
    (size : readbuf.length = readbufSize) (wire : List UInt8) : ∃ after, after.length = readbufSize ∧
      serve h readbuf (ms.flatMap Message.bytes ++ wire) ms.length =
        some (ms.flatMap (Message.services h), after, wire) := by
  induction ms generalizing readbuf with
  | nil => exact ⟨readbuf, size, rfl⟩
  | cons m ms ih =>
    obtain ⟨middle, kept, served⟩ := m.cycle_bytes h size (ms.flatMap Message.bytes ++ wire)
    obtain ⟨after, last, rest⟩ := ih kept
    refine ⟨after, last, ?_⟩
    rw [List.flatMap_cons, List.append_assoc, List.length_cons, serve, served]
    simp only [rest, Option.map_some, List.flatMap_cons]

/-- The callbacks of `mqtt.c` -/
inductive MqttCallback where
  | subCallback
  | subDefaultCallback
  | newSubCallback
  deriving DecidableEq

def mqttSubtopic : List UInt8 := ascii "$thing/down/property/OJ2O020V2M/dev_001"

/-- The handlers that `mqtt_start` installs. -/
def startHandlers : Handlers MqttCallback where
  messageHandlers := [⟨some mqttSubtopic, some .subCallback⟩]
  defaultMessageHandler := some .subDefaultCallback

/-- The signals of a service: only `mqtt_sub_callback` sends any. -/
def signals (json : CJson Item) : Service MqttCallback → List Effect
  | .call .subCallback _ text => mqttSubCallback json text
  | _ => []

theorem start_delivers (topic : List UInt8) :
    (deliverMessage startHandlers.messageHandlers startHandlers.defaultMessageHandler ⟨none, topic⟩).2 =
      [if topic = mqttSubtopic then .subCallback else .subDefaultCallback] := by
  have wanted := @wants_literal MqttCallback mqttSubtopic (some .subCallback) (by decide) (by decide) (by decide)
    ⟨none, topic⟩
  have text : MQTTString.text ⟨none, topic⟩ = topic := rfl
  simp only [text] at wanted
  simp only [deliverMessage, startHandlers, List.filterMap_cons, List.filterMap_nil, wanted, decide_eq_true_eq]
  by_cases own : topic = mqttSubtopic
  · simp only [if_pos own]
    rfl
  · simp only [if_neg own]
    rfl

theorem message_signals (json : CJson Item) (m : Message) :
    (m.services startHandlers).flatMap (signals json) =
      if m.topic = mqttSubtopic then mqttSubCallback json m.payload else [] := by
  have acks : m.acks.flatMap (signals json) = [] := by
    unfold Message.acks
    split <;> rfl
  have twice : cstring (cstring m.payload) = cstring m.payload := cstring_of_not_mem (not_mem_cstring _)
  rw [Message.services, start_delivers, List.flatMap_append, acks, List.append_nil]
  by_cases own : m.topic = mqttSubtopic
  · rw [if_pos own, if_pos own]
    simp only [List.map_cons, List.map_nil, List.flatMap_singleton, signals, mqttSubCallback, twice]
  · rw [if_neg own, if_neg own]
    rfl

/-- A stream of messages is served to its end: each one is handed once and in order to
the callbacks that its topic has, and is acknowledged under its own packet id. With the
handlers of `mqtt_start` the signals are those of the documents on its topic. -/
theorem session_delivers (h : Handlers Callback) (json : CJson Item) (ms : List Message) {readbuf : List UInt8}
    (size : readbuf.length = readbufSize) (wire : List UInt8) :
    (∃ after, after.length = readbufSize ∧ serve h readbuf (ms.flatMap Message.bytes ++ wire) ms.length =
        some (ms.flatMap (Message.services h), after, wire)) ∧
      (ms.flatMap (Message.services startHandlers)).flatMap (signals json) =
        (ms.filter fun m => m.topic = mqttSubtopic).flatMap fun m => mqttSubCallback json m.payload := by
  refine ⟨serve_messages h ms size wire, ?_⟩
  induction ms with
  | nil => rfl
  | cons m ms ih =>
    rw [List.flatMap_cons, List.flatMap_append, ih, message_signals]
    by_cases own : m.topic = mqttSubtopic
    · simp only [if_pos own, List.filter_cons, decide_eq_true own, if_true, List.flatMap_cons]
    · simp only [if_neg own, List.filter_cons, decide_eq_false own, Bool.false_eq_true, if_false, List.nil_append]

/-- The document that turns the computer on, sent with QoS 1. -/
def turnOnMessage : Message where
  topic := mqttSubtopic
  payload := turnOnText
  dup := 0
  qos := 1
  retained := 0
  packetid := 7
  bytes := [50, 67, 0, 39] ++ mqttSubtopic ++ [0, 7] ++ turnOnText
  dupBit := by decide
  level := by decide
  retainBit := by decide
  id := by decide
  written := by decide

/-- A message for the default handler, to be acknowledged by PUBREC. -/
def newsMessage : Message where
  topic := ascii "news"
  payload := ascii "rain"
  dup := 0
  qos := 2
  retained := 1
  packetid := 258
  bytes := [53, 12, 0, 4] ++ ascii "news" ++ [1, 2] ++ ascii "rain"
  dupBit := by decide
  level := by decide
  retainBit := by decide
  id := by decide
  written := by decide

/-- An empty message on the subscribed topic, which is not acknowledged. -/
def emptyMessage : Message where
  topic := mqttSubtopic
  payload := []
  dup := 0
  qos := 0
  retained := 0
  packetid := 0
  bytes := [48, 41, 0, 39] ++ mqttSubtopic
  dupBit := by decide
  level := by decide
  retainBit := by decide
  id := by decide
  written := by decide

def mixedMessages : List Message := [newsMessage, turnOnMessage, emptyMessage]

theorem session_delivers_mixed :
    (∃ after, after.length = readbufSize ∧ serve startHandlers (List.replicate readbufSize 0)
        (mixedMessages.flatMap Message.bytes ++ [0xd0, 0]) mixedMessages.length =
        some (mixedMessages.flatMap (Message.services startHandlers), after, [0xd0, 0])) ∧
      (mixedMessages.flatMap (Message.services startHandlers)).flatMap (signals turnOnJson) =
        (mixedMessages.filter fun m => m.topic = mqttSubtopic).flatMap fun m =>
          mqttSubCallback turnOnJson m.payload :=
  session_delivers startHandlers turnOnJson mixedMessages List.length_replicate [0xd0, 0]

end RemoteBoot.Mqtt
