import Mathlib.Algebra.Order.Ring.Int
import RemoteBoot.Bytes

/-! A received PUBLISH packet in the read buffer of the client, and the NUL that
the callbacks store behind its payload. The payload ends where the packet ends, so
the NUL goes one past the packet, and past the buffer when the packet fills it. -/
namespace RemoteBoot.Mqtt
open Bytes

/-- `client.readbuf_size` -/
def readbufSize : Nat := 2048

def maxLengthBytes : Nat := 4

/-- The do-while loop of `MQTTPacket_encode`, with the turns it may take. -/
def encodeFrom : Nat → Nat → List UInt8
  | 0, _ => []
  | turns + 1, length =>
    let d := UInt8.ofNat (length % 128)
    if length / 128 > 0 then (d ||| 0x80) :: encodeFrom turns (length / 128) else [d]

/-- `MQTTPacket_encode`. Five turns are enough for an `int`. -/
def encode (length : Nat) : List UInt8 := encodeFrom 5 length

/-- `MQTTPacket_decode`: the value, and `len`, which also counts a byte that was
not there or one too many. -/
def decode : Nat → List UInt8 → Nat × Nat
  | turns + 1, c :: rest =>
    if c &&& 128 ≠ 0 then
      let (value, len) := decode turns rest
      ((c &&& 127).toNat + 128 * value, len + 1)
    else ((c &&& 127).toNat, 1)
  | _, _ => (0, 1)

def charAt (buf : List UInt8) (i : Nat) : UInt8 := buf.getD i 0

def readInt (buf : List UInt8) (curdata : Nat) : Nat :=
  256 * (charAt buf curdata).toNat + (charAt buf (curdata + 1)).toNat

/-- `readMQTTLenString`: the length of the string behind the two bytes. -/
def readMQTTLenString (buf : List UInt8) (curdata enddata : Nat) : Option Nat :=
  if 1 < enddata - curdata then
    let len := readInt buf curdata
    if curdata + 2 + len ≤ enddata then some len else none
  else none

/-- What `MQTTDeserialize_publish` returns, with positions in the buffer. -/
structure Publish where
  dup : Bool
  qos : Nat
  retained : Bool
  packetid : Option Nat
  topic : Nat
  topicLen : Nat
  payload : Nat
  payloadlen : Int

def publishType : UInt8 := 3

/-- What a call of `MQTTDeserialize_publish` leaves behind: nothing for another
type of packet; the flags for a topic that is cut off, with the number of length
bytes as the result; or all that a message has. -/
inductive Deserialized where
  | other
  | cut (lengthBytes : Nat) (dup : Bool) (qos : Nat) (retained : Bool)
  | publish (p : Publish)

/-- The result of the call. 1 is success. -/
def Deserialized.rc : Deserialized → Nat
  | .other => 0
  | .cut lengthBytes .. => lengthBytes
  | .publish _ => 1

def deserializePublish (buf : List UInt8) : Deserialized :=
  let header := charAt buf 0
  if header >>> 4 ≠ publishType then .other
  else
    let dup := header &&& 8 ≠ 0
    let qos := ((header >>> 1) &&& 3).toNat
    let retained := header &&& 1 ≠ 0
    let (mylen, rc) := decode maxLengthBytes (buf.drop 1)
    let curdata := 1 + rc
    let enddata := curdata + mylen
    match readMQTTLenString buf curdata enddata with
    | none => .cut rc dup qos retained
    | some topicLen =>
      let topic := curdata + 2
      let curdata := topic + topicLen
      -- the packet id is taken without a look at `enddata`
      let payload := if qos > 0 then curdata + 2 else curdata
      .publish ⟨dup, qos, retained, if qos > 0 then some (readInt buf curdata) else none,
        topic, topicLen, payload, enddata - payload⟩

/-- Where the callbacks store the NUL. -/
def Publish.nul (p : Publish) : Int := p.payload + p.payloadlen

/-- `*((char *)payload + payloadlen) = '\0'`. A store past the buffer is undefined. -/
def Publish.terminate (p : Publish) (buf : List UInt8) : Option (List UInt8) :=
  if 0 ≤ p.nul ∧ p.nul < buf.length then some (buf.set p.nul.toNat 0) else none

/-- The same store of a callback that was handed the result. A payload that was
never set may point anywhere. -/
def Deserialized.terminate (buf : List UInt8) : Deserialized → Option (List UInt8)
  | .publish p => p.terminate buf
  | .other | .cut .. => none

/-- A PUBLISH packet by its header byte and what follows the remaining length. -/
structure Packet where
  header : UInt8
  body : List UInt8
  publish : header >>> 4 = publishType

namespace Packet

/-- As it is stored from offset 0 on, which is also how it is sent. -/
def bytes (p : Packet) : List UInt8 := p.header :: (encode p.body.length ++ p.body)

/-- The topic with its two bytes of length is inside the packet. -/
def TopicFits (p : Packet) : Prop :=
  2 ≤ p.body.length ∧ 2 + readInt p.body 0 ≤ p.body.length

instance (p : Packet) : Decidable p.TopicFits := inferInstanceAs (Decidable (_ ∧ _))

end Packet

/-- `MQTTPacket_readPacket` on what arrives. The remaining length is encoded anew. -/
def readPacket : List UInt8 → Option (List UInt8)
  | [] => none
  | header :: wire =>
    let (remLen, len) := decode maxLengthBytes wire
    let body := (wire.drop (min len maxLengthBytes)).take remLen
    if body.length = remLen then some (header :: (encode remLen ++ body)) else none

theorem continued_byte : ∀ {d : Nat}, d < 128 →
    (UInt8.ofNat d ||| 0x80) &&& 128 ≠ 0 ∧ ((UInt8.ofNat d ||| 0x80) &&& 127).toNat = d := by
  decide

theorem last_byte : ∀ {d : Nat}, d < 128 →
    ¬ UInt8.ofNat d &&& 128 ≠ 0 ∧ (UInt8.ofNat d &&& 127).toNat = d := by
  decide

/-- A quotient that is left to encode is one digit shorter. -/
theorem quotient_shorter {turns length : Nat} (small : length < 128 ^ (turns + 1)) (long : length / 128 > 0) :
    length / 128 < 128 ^ turns ∧ 0 < turns := by
  have shorter : length / 128 < 128 ^ turns := by
    rw [Nat.div_lt_iff_lt_mul (by decide), ← Nat.pow_succ]
    exact small
  refine ⟨shorter, ?_⟩
  cases turns with
  | zero => exact absurd shorter (by omega)
  | succ => exact Nat.succ_pos _

/-- The length is read back, whatever follows it. -/
theorem decode_encodeFrom {turns more : Nat} (enough : turns ≤ more) (length : Nat)
    (small : length < 128 ^ turns) (positive : 0 < turns) (rest : List UInt8) :
    decode turns (encodeFrom more length ++ rest) = (length, (encodeFrom more length).length) := by
  induction turns generalizing more length with
  | zero => exact absurd positive (Nat.lt_irrefl 0)
  | succ turns ih =>
    cases more with
    | zero => exact absurd enough (Nat.not_succ_le_zero turns)
    | succ more =>
      have low : length % 128 < 128 := Nat.mod_lt _ (by decide)
      by_cases long : length / 128 > 0
      · obtain ⟨continues, value⟩ := continued_byte low
        obtain ⟨shorter, again⟩ := quotient_shorter small long
        simp only [encodeFrom, if_pos long, List.cons_append, decode, if_pos continues,
          ih (Nat.le_of_succ_le_succ enough) _ shorter again, value, List.length_cons]
        congr 1
        omega
      · obtain ⟨ends, value⟩ := last_byte low
        simp only [encodeFrom, if_neg long, List.cons_append, decode, if_neg ends, value,
          List.length_singleton]
        congr 1
        omega

theorem length_encodeFrom {turns more : Nat} (length : Nat) (small : length < 128 ^ turns)
    (positive : 0 < turns) : (encodeFrom more length).length ≤ turns := by
  induction turns generalizing more length with
  | zero => exact absurd positive (Nat.lt_irrefl 0)
  | succ turns ih =>
    cases more with
    | zero => exact Nat.zero_le _
    | succ more =>
      by_cases long : length / 128 > 0
      · obtain ⟨shorter, again⟩ := quotient_shorter small long
        simp only [encodeFrom, if_pos long, List.length_cons]
        exact Nat.succ_le_succ (ih _ shorter again)
      · simp only [encodeFrom, if_neg long, List.length_singleton]
        exact Nat.succ_le_succ (Nat.zero_le _)

theorem decode_encode {length : Nat} (small : length < 128 ^ 4) (rest : List UInt8) :
    decode maxLengthBytes (encode length ++ rest) = (length, (encode length).length) :=
  decode_encodeFrom (by decide) length small (by decide) rest

namespace Packet

theorem length_bytes (p : Packet) :
    p.bytes.length = 1 + (encode p.body.length).length + p.body.length := by
  simp only [bytes, List.length_cons, List.length_append]
  omega

/-- A packet that arrives whole is stored as it is. -/
theorem readPacket_bytes (p : Packet) (small : p.body.length < 128 ^ 4) (later : List UInt8) :
    readPacket (p.bytes ++ later) = some p.bytes := by
  have decoded := decode_encode small (p.body ++ later)
  have few : (encode p.body.length).length ≤ maxLengthBytes :=
    length_encodeFrom _ small (by decide)
  simp only [bytes, List.cons_append, List.append_assoc, readPacket, decoded, Nat.min_eq_left few,
    List.drop_left, List.take_left, if_true]

theorem readInt_body (p : Packet) {rest : List UInt8} (two : 2 ≤ p.body.length) :
    readInt (p.bytes ++ rest) (1 + (encode p.body.length).length) = readInt p.body 0 := by
  have at_body (i : Nat) (inside : i < p.body.length) :
      charAt (p.bytes ++ rest) (1 + (encode p.body.length).length + i) = charAt p.body i := by
    have split : p.bytes ++ rest = (p.header :: encode p.body.length) ++ (p.body ++ rest) := by
      simp only [bytes, List.cons_append, List.append_assoc]
    have width : (p.header :: encode p.body.length).length = 1 + (encode p.body.length).length := by
      rw [List.length_cons, Nat.add_comm]
    simp only [charAt, List.getD_eq_getElem?_getD, split]
    rw [← width, List.getElem?_append_right (Nat.le_add_right _ _), Nat.add_sub_cancel_left,
      List.getElem?_append_left inside]
  have first := at_body 0 (by omega)
  have second := at_body 1 (by omega)
  rw [Nat.add_zero] at first
  simp only [readInt, first, second, Nat.zero_add]

theorem deserialize_topic (p : Packet) (small : p.body.length < 128 ^ 4) (rest : List UInt8) :
    decode maxLengthBytes ((p.bytes ++ rest).drop 1) = (p.body.length, (encode p.body.length).length) ∧
    readMQTTLenString (p.bytes ++ rest) (1 + (encode p.body.length).length)
      (1 + (encode p.body.length).length + p.body.length) =
        if p.TopicFits then some (readInt p.body 0) else none := by
  constructor
  · have := decode_encode small (p.body ++ rest)
    simpa only [bytes, List.cons_append, List.drop_succ_cons, List.drop_zero, List.append_assoc] using this
  · simp only [readMQTTLenString, Nat.add_sub_cancel_left]
    by_cases two : 1 < p.body.length
    · rw [if_pos two, p.readInt_body two]
      have inside : (1 + (encode p.body.length).length + 2 + readInt p.body 0 ≤
          1 + (encode p.body.length).length + p.body.length) ↔ p.TopicFits := by
        unfold TopicFits
        omega
      simp only [inside]
    · have short : ¬ p.TopicFits := fun fits => two fits.1
      rw [if_neg two, if_neg short]

/-- The position is the end of the packet, whatever the topic and the QoS are. -/
theorem deserialize_fits (p : Packet) (small : p.body.length < 128 ^ 4) (fits : p.TopicFits)
    (rest : List UInt8) :
    ∃ publish, deserializePublish (p.bytes ++ rest) = .publish publish ∧
      publish.nul = p.bytes.length := by
  have header : charAt (p.bytes ++ rest) 0 = p.header := rfl
  obtain ⟨decoded, topic⟩ := p.deserialize_topic small rest
  rw [if_pos fits] at topic
  simp only [deserializePublish, header, p.publish, ne_eq, not_true_eq_false, if_false, decoded, topic]
  refine ⟨_, rfl, ?_⟩
  simp only [Publish.nul, length_bytes]
  omega

theorem deserialize_cut (p : Packet) (small : p.body.length < 128 ^ 4) (cut : ¬ p.TopicFits)
    (rest : List UInt8) :
    deserializePublish (p.bytes ++ rest) = .cut (encode p.body.length).length (p.header &&& 8 ≠ 0)
      ((p.header >>> 1) &&& 3).toNat (p.header &&& 1 ≠ 0) := by
  have header : charAt (p.bytes ++ rest) 0 = p.header := rfl
  obtain ⟨decoded, topic⟩ := p.deserialize_topic small rest
  rw [if_neg cut] at topic
  simp only [deserializePublish, header, p.publish, ne_eq, not_true_eq_false, if_false, decoded, topic]

end Packet

theorem length_encode_eq_one {length : Nat} : (encode length).length = 1 ↔ length < 128 := by
  rw [encode, encodeFrom]
  split
  · have more : encodeFrom 4 (length / 128) ≠ [] := by
      rw [encodeFrom]
      split <;> exact List.cons_ne_nil _ _
    have := List.length_pos_iff.mpr more
    rw [List.length_cons]
    omega
  · rw [List.length_singleton]
    omega

/-- The NUL behind a payload lies in the read buffer exactly when the packet either
has its topic inside and does not fill the buffer, or has its topic cut off and two
length bytes or more: with one, the result of the call is that of success. -/
theorem terminate_iff (p : Packet) {buf : List UInt8} (size : buf.length = readbufSize)
    (stored : p.bytes <+: buf) :
    ((deserializePublish buf).rc = 1 → ((deserializePublish buf).terminate buf).isSome) ↔
      (p.TopicFits → p.bytes.length < readbufSize) ∧ (¬ p.TopicFits → 128 ≤ p.body.length) := by
  obtain ⟨rest, rfl⟩ := stored
  have small : p.body.length < 128 ^ 4 := by
    have whole := p.length_bytes
    simp only [List.length_append, readbufSize] at size
    omega
  by_cases fits : p.TopicFits
  · obtain ⟨publish, read, at_end⟩ := p.deserialize_fits small fits rest
    have inside : (publish.terminate (p.bytes ++ rest)).isSome ↔ p.bytes.length < readbufSize := by
      simp only [Publish.terminate, at_end, size, Option.isSome_ite]
      omega
    simp only [read, Deserialized.rc, Deserialized.terminate, inside, fits, not_true_eq_false,
      true_implies, false_implies, and_true]
  · have long : ¬ (encode p.body.length).length = 1 ↔ 128 ≤ p.body.length := by
      rw [length_encode_eq_one, Nat.not_lt]
    simp only [p.deserialize_cut small fits rest, Deserialized.rc, Deserialized.terminate,
      Option.isSome_none, Bool.false_eq_true, imp_false, long, fits, not_false_eq_true,
      true_implies, false_implies, true_and]

def shortPacket : Packet := ⟨0x30, [0, 1, 116, 49], rfl⟩

theorem terminate_iff_short :
    ((deserializePublish (shortPacket.bytes ++ List.replicate 2042 0)).rc = 1 →
        ((deserializePublish (shortPacket.bytes ++ List.replicate 2042 0)).terminate
          (shortPacket.bytes ++ List.replicate 2042 0)).isSome) ↔
      (shortPacket.TopicFits → shortPacket.bytes.length < readbufSize) ∧
        (¬ shortPacket.TopicFits → 128 ≤ shortPacket.body.length) := by
  refine terminate_iff shortPacket ?_ (List.prefix_append _ _)
  rw [List.length_append, List.length_replicate]
  rfl

/-- A topic of one letter and as much payload as the buffer holds. -/
def fullPacket : Packet := ⟨0x30, [0, 1, 116] ++ List.replicate 2042 32, rfl⟩

/-- Its remaining length is 0: there is no topic in it. -/
def barePacket : Packet := ⟨0x30, [], rfl⟩

/-- The NUL of the one is stored past the buffer, that of the other wherever a
pointer that was never set leads. -/
theorem fullPacket_overruns :
    (fullPacket.bytes.length = readbufSize ∧ (deserializePublish fullPacket.bytes).rc = 1 ∧
      (deserializePublish fullPacket.bytes).terminate fullPacket.bytes = none) ∧
    ∀ rest, (deserializePublish (barePacket.bytes ++ rest)).rc = 1 ∧
      (deserializePublish (barePacket.bytes ++ rest)).terminate (barePacket.bytes ++ rest) = none := by
  have body : fullPacket.body.length = 2045 := by
    rw [fullPacket, List.length_append, List.length_replicate]
    rfl
  have size : fullPacket.bytes.length = readbufSize := by
    rw [fullPacket.length_bytes, body]
    rfl
  have fits : fullPacket.TopicFits := by
    refine ⟨by rw [body]; decide, ?_⟩
    have topic : readInt fullPacket.body 0 = 1 := rfl
    rw [body, topic]
    decide
  obtain ⟨publish, read, at_end⟩ := fullPacket.deserialize_fits (by rw [body]; decide) fits []
  rw [List.append_nil] at read
  refine ⟨⟨size, by rw [read]; rfl, ?_⟩, fun rest => ?_⟩
  · rw [read]
    refine if_neg ?_
    rw [at_end]
    omega
  · rw [barePacket.deserialize_cut (by decide) (by decide) rest]
    exact ⟨rfl, rfl⟩

end RemoteBoot.Mqtt
