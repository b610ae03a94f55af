import RemoteBoot.Mqtt.Publish

/-! The packets as `MQTTPacket/src` writes them into a buffer of the client, and the
readers of the same directory on what was written. -/
namespace RemoteBoot.Mqtt
open Bytes

/-- `enum msgTypes` -/
inductive MsgType where
  | connect | connack | publish | puback | pubrec | pubrel | pubcomp | subscribe | suback
  | unsubscribe | unsuback | pingreq | pingresp | disconnect
  deriving DecidableEq, Repr

def MsgType.code : MsgType → Nat
  | .connect => 1
  | .connack => 2
  | .publish => 3
  | .puback => 4
  | .pubrec => 5
  | .pubrel => 6
  | .pubcomp => 7
  | .subscribe => 8
  | .suback => 9
  | .unsubscribe => 10
  | .unsuback => 11
  | .pingreq => 12
  | .pingresp => 13
  | .disconnect => 14

/-- `MQTTHeader`: a value that is wider than its bit field is cut off. -/
def header (type : MsgType) (dup qos retain : Nat) : UInt8 :=
  UInt8.ofNat (type.code * 16 + dup % 2 * 8 + qos % 4 * 2 + retain % 2)

/-- `header.bits.type` of a byte -/
def typeBits (byte : UInt8) : Nat := byte.toNat / 16

def dupBit (byte : UInt8) : Nat := byte.toNat / 8 % 2

/-- `MQTTString`. A null `cstring` is `none`. -/
structure MQTTString where
  cstring : Option (List UInt8)
  lenstring : List UInt8
  deriving DecidableEq

namespace MQTTString

/-- `MQTTstrlen` -/
def strlen (s : MQTTString) : Nat :=
  match s.cstring with
  | some text => text.length
  | none => s.lenstring.length

/-- The callers of the package set one of the two. -/
def Single (s : MQTTString) : Prop := s.cstring = none ∨ s.lenstring = []

instance (s : MQTTString) : Decidable s.Single := inferInstanceAs (Decidable (_ ∨ _))

def text (s : MQTTString) : List UInt8 := s.cstring.getD s.lenstring

theorem length_text (s : MQTTString) : s.text.length = s.strlen := by
  unfold text strlen
  cases s.cstring <;> rfl

end MQTTString

def writeInt (anInt : Nat) : List UInt8 := [UInt8.ofNat (anInt / 256), UInt8.ofNat (anInt % 256)]

def writeCString (string : List UInt8) : List UInt8 := writeInt string.length ++ string

/-- `writeMQTTString` -/
def writeMQTTString (s : MQTTString) : List UInt8 :=
  if s.lenstring.length > 0 then writeInt s.lenstring.length ++ s.lenstring
  else
    match s.cstring with
    | some text => writeCString text
    | none => writeInt 0

theorem writeMQTTString_single {s : MQTTString} (single : s.Single) : writeMQTTString s = writeCString s.text := by
  unfold writeMQTTString MQTTString.text
  by_cases given : s.lenstring.length > 0
  · have null : s.cstring = none := single.resolve_right fun empty => by
      rw [empty] at given
      exact Nat.lt_irrefl 0 given
    rw [if_pos given, null]
    rfl
  · have empty : s.lenstring = [] := List.eq_nil_of_length_eq_zero (by omega)
    rw [if_neg given, empty]
    cases s.cstring <;> rfl

theorem length_writeInt (anInt : Nat) : (writeInt anInt).length = 2 := rfl

theorem length_writeCString (string : List UInt8) : (writeCString string).length = 2 + string.length := by
  rw [writeCString, List.length_append, length_writeInt]

theorem length_writeMQTTString {s : MQTTString} (single : s.Single) :
    (writeMQTTString s).length = 2 + s.strlen := by
  rw [writeMQTTString_single single, length_writeCString, s.length_text]

/-- `MQTTPacket_len`. The header byte is added before the length is compared. -/
def packetLen (remLen : Nat) : Nat :=
  let remLen := remLen + 1
  if remLen < 128 then remLen + 1
  else if remLen < 16384 then remLen + 2
  else if remLen < 2097151 then remLen + 3
  else remLen + 4

/-- What most serializers share: the check, the header, the remaining length and the
rest. `none` is `MQTTPACKET_BUFFER_TOO_SHORT`. -/
def frame (buflen : Nat) (header : UInt8) (remLen : Nat) (body : List UInt8) : Option (List UInt8) :=
  if packetLen remLen > buflen then none else some (header :: (encode remLen ++ body))

theorem length_encode {n : Nat} (small : n < 128 ^ 4) : (encode n).length =
    if n < 128 then 1 else if n < 16384 then 2 else if n < 2097152 then 3 else 4 := by
  have step (turns n : Nat) : (encodeFrom (turns + 1) n).length =
      if n < 128 then 1 else (encodeFrom turns (n / 128)).length + 1 := by
    by_cases short : n < 128
    · have last : ¬ n / 128 > 0 := by omega
      rw [encodeFrom, if_neg last, if_pos short]
      rfl
    · have more : n / 128 > 0 := by omega
      rw [encodeFrom, if_pos more, if_neg short]
      rfl
  simp only [encode, step]
  split_ifs <;> omega

/-- The length that is checked is the length of the packet, but for four remaining
lengths at which it counts a byte too many. -/
theorem packetLen_eq {n : Nat} (small : n < 128 ^ 4) : packetLen n = 1 + (encode n).length + n +
    if n = 127 ∨ n = 16383 ∨ n = 2097150 ∨ n = 2097151 then 1 else 0 := by
  rw [length_encode small]
  simp only [packetLen]
  split_ifs <;> omega

/-- A packet that is written fits. -/
theorem frame_fits (written : frame buflen head body.length body = some bytes) (small : buflen < 128 ^ 4) :
    bytes.length = 1 + (encode body.length).length + body.length ∧ bytes.length ≤ buflen := by
  unfold frame at written
  split at written
  · cases written
  · rename_i room
    cases written
    have enough : body.length < packetLen body.length := by
      simp only [packetLen]
      split_ifs <;> omega
    have counted := packetLen_eq (by omega : body.length < 128 ^ 4)
    have whole : (head :: (encode body.length ++ body)).length =
        1 + (encode body.length).length + body.length := by
      rw [List.length_cons, List.length_append]
      omega
    exact ⟨whole, by omega⟩

/-- `MQTTSerialize_publishLength` -/
def publishLength (qos : Nat) (topicName : MQTTString) (payloadlen : Nat) : Nat :=
  2 + topicName.strlen + payloadlen + if qos > 0 then 2 else 0

/-- `MQTTSerialize_publish` -/
def serializePublish (buflen dup qos retained packetid : Nat) (topicName : MQTTString) (payload : List UInt8) :
    Option (List UInt8) :=
  frame buflen (header .publish dup qos retained) (publishLength qos topicName payload.length)
    (writeMQTTString topicName ++ ((if qos > 0 then writeInt packetid else []) ++ payload))

/-- `MQTTSerialize_ack` -/
def serializeAck (buflen : Nat) (packettype : MsgType) (dup packetid : Nat) : Option (List UInt8) :=
  if buflen < 4 then none
  else some (header packettype dup (if packettype = .pubrel then 1 else 0) 0 :: (encode 2 ++ writeInt packetid))

/-- `MQTTDeserialize_ack`: its result, the packet type, the dup flag and the packet id
if it was read. Too short a packet gives the number of its length bytes. -/
def deserializeAck (buf : List UInt8) : Nat × Nat × Nat × Option Nat :=
  let byte := charAt buf 0
  let (mylen, rc) := decode maxLengthBytes (buf.drop 1)
  if mylen < 2 then (rc, typeBits byte, dupBit byte, none)
  else (1, typeBits byte, dupBit byte, some (readInt buf (1 + rc)))

theorem charAt_of_stands {buf rest : List UInt8} {c : UInt8} (stands : Stands buf off (c :: rest)) :
    charAt buf off = c := by
  rw [charAt, List.getD_eq_getElem?_getD, (Stands.cons.mp stands).1, Option.getD_some]

theorem readInt_of_stands {buf : List UInt8} (stands : Stands buf off (writeInt n)) (small : n < 65536) :
    readInt buf off = n := by
  have high := charAt_of_stands stands
  have low := charAt_of_stands (Stands.cons.mp stands).2
  rw [readInt, high, low, UInt8.toNat_ofNat', UInt8.toNat_ofNat']
  omega

theorem decode_of_stands {buf : List UInt8} (stands : Stands buf off (encode n)) (small : n < 128 ^ 4) :
    decode maxLengthBytes (buf.drop off) = (n, (encode n).length) := by
  obtain ⟨rest, joined⟩ := stands
  rw [← joined, decode_encode small]

theorem readMQTTLenString_of_stands {buf : List UInt8} (stands : Stands buf off (writeCString string))
    (short : string.length < 65536) (inside : off + 2 + string.length ≤ enddata) :
    readMQTTLenString buf off enddata = some string.length ∧ slot buf (off + 2) string.length = string := by
  obtain ⟨length, data⟩ := Stands.append.mp stands
  have two : 1 < enddata - off := by omega
  constructor
  · rw [readMQTTLenString, if_pos two]
    simp only [readInt_of_stands length short, if_pos inside]
  · exact Stands.slot_eq data

/-- A frame in front of anything: its header, its length and its body. -/
theorem frame_stands (written : frame buflen head body.length body = some bytes) (small : buflen < 128 ^ 4)
    (rest : List UInt8) : charAt (bytes ++ rest) 0 = head ∧
      decode maxLengthBytes ((bytes ++ rest).drop 1) = (body.length, (encode body.length).length) ∧
      Stands (bytes ++ rest) (1 + (encode body.length).length) body ∧
      bytes.length = 1 + (encode body.length).length + body.length := by
  obtain ⟨whole, fits⟩ := frame_fits written small
  unfold frame at written
  split at written
  · cases written
  · cases written
    have stands := Stands.whole (head :: (encode body.length ++ body)) rest
    obtain ⟨length, content⟩ := Stands.append.mp (Stands.cons.mp stands).2
    exact ⟨charAt_of_stands stands, decode_of_stands length (by omega), Nat.zero_add 1 ▸ content, whole⟩

/-- On the wire a frame is stored as it was written. -/
theorem frame_arrives (written : frame buflen head body.length body = some bytes) (small : buflen < 128 ^ 4)
    (later : List UInt8) : readPacket (bytes ++ later) = some bytes := by
  obtain ⟨whole, fits⟩ := frame_fits written small
  have bound : body.length < 128 ^ 4 := by omega
  unfold frame at written
  split at written
  · cases written
  · cases written
    have decoded := decode_encode bound (body ++ later)
    have few : (encode body.length).length ≤ maxLengthBytes := length_encodeFrom _ bound (by decide)
    simp only [List.cons_append, List.append_assoc, readPacket, decoded, Nat.min_eq_left few, List.drop_left,
      List.take_left, if_true]

/-- The bit fields of a PUBLISH header. -/
theorem header_publish_bits : ∀ dup < 2, ∀ qos < 4, ∀ retained < 2,
    let byte := header .publish dup qos retained
    byte >>> 4 = publishType ∧ ((byte >>> 1) &&& 3).toNat = qos ∧ (byte &&& 8 ≠ 0 ↔ dup = 1) ∧
      (byte &&& 1 ≠ 0 ↔ retained = 1) := by
  decide

theorem length_publishBody {topicName : MQTTString} (single : topicName.Single) (qos packetid : Nat)
    (payload : List UInt8) :
    (writeMQTTString topicName ++ ((if qos > 0 then writeInt packetid else []) ++ payload)).length =
      publishLength qos topicName payload.length := by
  have name := length_writeMQTTString single
  simp only [publishLength, List.length_append, name]
  split
  · rw [length_writeInt]
    omega
  · rw [List.length_nil]
    omega

theorem publish_frame {topicName : MQTTString} (single : topicName.Single)
    (written : serializePublish buflen dup qos retained packetid topicName payload = some bytes) :
    frame buflen (header .publish dup qos retained)
      (writeMQTTString topicName ++ ((if qos > 0 then writeInt packetid else []) ++ payload)).length
      (writeMQTTString topicName ++ ((if qos > 0 then writeInt packetid else []) ++ payload)) = some bytes := by
  rwa [length_publishBody single qos packetid]

/-- `MQTTDeserialize_publish` finds in a message what was put in. -/
theorem deserializePublish_written {topicName : MQTTString}
    (written : serializePublish buflen dup qos retained packetid topicName payload = some bytes)
    (small : buflen ≤ 65536) (single : topicName.Single) (bit : dup < 2) (level : qos < 4)
    (keep : retained < 2) (id : packetid < 65536) (rest : List UInt8) :
    ∃ p, deserializePublish (bytes ++ rest) = .publish p ∧ p.dup = decide (dup = 1) ∧ p.qos = qos ∧
      p.retained = decide (retained = 1) ∧ p.packetid = (if qos > 0 then some packetid else none) ∧
      slot (bytes ++ rest) p.topic p.topicLen = topicName.text ∧ p.payloadlen = payload.length ∧
      slot (bytes ++ rest) p.payload payload.length = payload ∧ p.payload + payload.length = bytes.length := by
  have counted := length_publishBody single qos packetid payload
  have parts : publishLength qos topicName payload.length =
      2 + topicName.text.length + payload.length + if qos > 0 then 2 else 0 := by
    rw [publishLength, topicName.length_text]
  obtain ⟨isPublish, qosBits, dupBits, retainBits⟩ := header_publish_bits dup bit qos level retained keep
  have written := publish_frame single written
  have bound : buflen < 128 ^ 4 := by omega
  have fits := frame_fits written bound
  obtain ⟨head, length, body, _⟩ := frame_stands written bound rest
  rw [counted] at fits length body
  rw [writeMQTTString_single single] at body
  obtain ⟨name, behind⟩ := Stands.append.mp body
  obtain ⟨idStands, data⟩ := Stands.append.mp behind
  generalize publishLength qos topicName payload.length = n at *
  generalize (encode n).length = k at *
  obtain ⟨nameLength, nameText⟩ := readMQTTLenString_of_stands name (by omega)
    (by omega : 1 + k + 2 + topicName.text.length ≤ 1 + k + n)
  rw [length_writeCString, ← Nat.add_assoc] at idStands data
  have read : deserializePublish (bytes ++ rest) = .publish ⟨decide (dup = 1), qos, decide (retained = 1),
      if qos > 0 then some packetid else none, 1 + k + 2, topicName.text.length,
      1 + k + 2 + topicName.text.length + (if qos > 0 then writeInt packetid else []).length,
      payload.length⟩ := by
    have number : (if qos > 0 then some (readInt (bytes ++ rest) (1 + k + 2 + topicName.text.length)) else none) =
        if qos > 0 then some packetid else none := by
      split <;> rename_i numbered
      · rw [if_pos numbered] at idStands
        rw [readInt_of_stands idStands id]
      · rfl
    have start : (if qos > 0 then 1 + k + 2 + topicName.text.length + 2 else 1 + k + 2 + topicName.text.length) =
        1 + k + 2 + topicName.text.length + (if qos > 0 then writeInt packetid else []).length := by
      split <;> rfl
    have left : ((1 + k + n : Nat) : Int) - (1 + k + 2 + topicName.text.length +
        (if qos > 0 then writeInt packetid else []).length : Nat) = payload.length := by
      rw [parts]
      split
      · rw [length_writeInt]
        omega
      · rw [List.length_nil]
        omega
    simp only [deserializePublish, head, isPublish, ne_eq, not_true_eq_false, if_false, length, nameLength,
      qosBits, number, start, left]
    rw [decide_eq_decide.mpr dupBits, decide_eq_decide.mpr retainBits]
  have last : 1 + k + 2 + topicName.text.length + (if qos > 0 then writeInt packetid else []).length +
      payload.length = bytes.length := by
    rw [fits.1, parts]
    split
    · rw [length_writeInt]
      omega
    · rw [List.length_nil]
      omega
  exact ⟨_, read, rfl, rfl, rfl, rfl, nameText, rfl, data.slot_eq, last⟩

/-- A message that `MQTTSerialize_publish` writes stays inside the buffer, arrives as it
was written, and is read back. -/
theorem publish_round_trip {topicName : MQTTString}
    (written : serializePublish buflen dup qos retained packetid topicName payload = some bytes)
    (small : buflen ≤ 65536) (single : topicName.Single) (bit : dup < 2) (level : qos < 4)
    (keep : retained < 2) (id : packetid < 65536) (rest : List UInt8) :
    bytes.length ≤ buflen ∧ readPacket (bytes ++ rest) = some bytes ∧
      ∃ p, deserializePublish (bytes ++ rest) = .publish p ∧ p.dup = decide (dup = 1) ∧ p.qos = qos ∧
        p.retained = decide (retained = 1) ∧ p.packetid = (if qos > 0 then some packetid else none) ∧
        slot (bytes ++ rest) p.topic p.topicLen = topicName.text ∧ p.payloadlen = payload.length ∧
        slot (bytes ++ rest) p.payload payload.length = payload := by
  have framed := publish_frame single written
  have bound : buflen < 128 ^ 4 := by omega
  obtain ⟨p, read, fields⟩ := deserializePublish_written written small single bit level keep id rest
  obtain ⟨dupField, qosField, keepField, idField, name, length, data, _⟩ := fields
  exact ⟨(frame_fits framed bound).2, frame_arrives framed bound rest, p, read, dupField, qosField, keepField,
    idField, name, length, data⟩

/-- A message of QoS 1 in a buffer of sixteen bytes. -/
theorem publish_round_trip_hi :
    let bytes : List UInt8 := [50, 7, 0, 1, 116, 1, 2, 104, 105]
    bytes.length ≤ 16 ∧ readPacket (bytes ++ [192, 0]) = some bytes ∧
      ∃ p, deserializePublish (bytes ++ [192, 0]) = .publish p ∧ p.dup = decide (0 = 1) ∧ p.qos = 1 ∧
        p.retained = decide (0 = 1) ∧ p.packetid = (if 1 > 0 then some 258 else none) ∧
        slot (bytes ++ [192, 0]) p.topic p.topicLen = MQTTString.text ⟨some [116], []⟩ ∧
        p.payloadlen = ([104, 105] : List UInt8).length ∧
        slot (bytes ++ [192, 0]) p.payload ([104, 105] : List UInt8).length = [104, 105] := by
  have written : serializePublish 16 0 1 0 258 ⟨some [116], []⟩ [104, 105] =
      some [50, 7, 0, 1, 116, 1, 2, 104, 105] := rfl
  exact publish_round_trip written (by decide) (.inr rfl) (by decide) (by decide) (by decide) (by decide) _

theorem typeBits_header (type : MsgType) (dup qos retain : Nat) : typeBits (header type dup qos retain) = type.code := by
  have few : type.code < 16 := by cases type <;> decide
  rw [typeBits, header, UInt8.toNat_ofNat']
  omega

theorem dupBit_header (type : MsgType) (dup qos retain : Nat) : dupBit (header type dup qos retain) = dup % 2 := by
  have few : type.code < 16 := by cases type <;> decide
  rw [dupBit, header, UInt8.toNat_ofNat']
  omega

/-- An acknowledgement takes four bytes, and its type and packet id are read back. -/
theorem ack_round_trip (written : serializeAck buflen packettype dup packetid = some bytes) (bit : dup < 2)
    (id : packetid < 65536) (rest : List UInt8) :
    bytes.length = 4 ∧ 4 ≤ buflen ∧ readPacket (bytes ++ rest) = some bytes ∧
      deserializeAck (bytes ++ rest) = (1, packettype.code, dup, some packetid) := by
  unfold serializeAck at written
  split at written
  · cases written
  · rename_i room
    have framed : frame 5 (header packettype dup (if packettype = .pubrel then 1 else 0) 0)
        (writeInt packetid).length (writeInt packetid) = some bytes := written
    have bound : 5 < 128 ^ 4 := by decide
    obtain ⟨head, length, body, whole⟩ := frame_stands framed bound rest
    refine ⟨?_, Nat.le_of_not_lt room, frame_arrives framed bound rest, ?_⟩
    · rw [whole, length_writeInt]
      rfl
    rw [length_writeInt] at length body
    have two : ¬ 2 < 2 := Nat.lt_irrefl 2
    simp only [deserializeAck, head, length, two, if_false, typeBits_header, dupBit_header,
      readInt_of_stands body id, Nat.mod_eq_of_lt bit]

end RemoteBoot.Mqtt
