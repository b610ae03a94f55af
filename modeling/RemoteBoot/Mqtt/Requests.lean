import RemoteBoot.Mqtt.Format

/-! The requests of the client, SUBSCRIBE, UNSUBSCRIBE and CONNECT, and the readers
of the server side on them. -/
namespace RemoteBoot.Mqtt
open Bytes

/-- A topic filter, with the QoS that a SUBSCRIBE asks for. -/
structure TopicFilter where
  filter : MQTTString
  requestedQoS : Option UInt8

/-- What the serializers write of a filter: UNSUBSCRIBE has no QoS. -/
def TopicFilter.bytes (t : TopicFilter) : List UInt8 := writeMQTTString t.filter ++ t.requestedQoS.toList

/-- `MQTTSerialize_subscribeLength` and `MQTTSerialize_unsubscribeLength` -/
def filtersLength (topicFilters : List TopicFilter) : Nat :=
  2 + (topicFilters.map fun t => 2 + t.filter.strlen + t.requestedQoS.toList.length).sum

def serializeFilters (type : MsgType) (buflen dup packetid : Nat) (topicFilters : List TopicFilter) :
    Option (List UInt8) :=
  frame buflen (header type dup 1 0) (filtersLength topicFilters)
    (writeInt packetid ++ topicFilters.flatMap TopicFilter.bytes)

/-- `MQTTSerialize_subscribe` -/
def serializeSubscribe (buflen dup packetid : Nat) (topicFilters : List (MQTTString × UInt8)) :
    Option (List UInt8) :=
  serializeFilters .subscribe buflen dup packetid (topicFilters.map fun (filter, qos) => ⟨filter, some qos⟩)

/-- `MQTTSerialize_unsubscribe` -/
def serializeUnsubscribe (buflen dup packetid : Nat) (topicFilters : List MQTTString) : Option (List UInt8) :=
  serializeFilters .unsubscribe buflen dup packetid (topicFilters.map fun filter => ⟨filter, none⟩)

/-- The loops of `MQTTDeserialize_subscribe` and `MQTTDeserialize_unsubscribe`, with the
turns they may take: whether it came to the end, and what was read. -/
def readFilters (asks : Bool) (buf : List UInt8) (enddata : Nat) :
    (turns curdata : Nat) → Bool × List (List UInt8 × Option UInt8)
  | 0, _ => (true, [])
  | turns + 1, curdata =>
    if curdata < enddata then
      match readMQTTLenString buf curdata enddata with
      | none => (false, [])
      | some len =>
        let filter := slot buf (curdata + 2) len
        let behind := curdata + 2 + len
        if asks then
          if behind ≥ enddata then (false, [])
          else
            let (done, more) := readFilters asks buf enddata turns (behind + 1)
            (done, (filter, some (charAt buf behind)) :: more)
        else
          let (done, more) := readFilters asks buf enddata turns behind
          (done, (filter, none) :: more)
    else (true, [])

/-- The result for another packet, or the number of length bytes when a filter is cut
off, and 1 otherwise; with it the dup flag, the packet id and the filters. Each turn
reads two bytes at least. -/
def deserializeFilters (type : MsgType) (other : Int) (asks : Bool) (buf : List UInt8) :
    Int × Option (Nat × Nat × List (List UInt8 × Option UInt8)) :=
  let byte := charAt buf 0
  if typeBits byte ≠ type.code then (other, none)
  else
    let (mylen, rc) := decode maxLengthBytes (buf.drop 1)
    let (done, filters) := readFilters asks buf (1 + rc + mylen) mylen (1 + rc + 2)
    (if done then 1 else rc, some (dupBit byte, readInt buf (1 + rc), filters))

/-- `MQTTDeserialize_subscribe` -/
def deserializeSubscribe := deserializeFilters .subscribe (-1) true

/-- `MQTTDeserialize_unsubscribe` -/
def deserializeUnsubscribe := deserializeFilters .unsubscribe 0 false

theorem length_filterBytes {t : TopicFilter} (single : t.filter.Single) :
    t.bytes.length = 2 + t.filter.strlen + t.requestedQoS.toList.length := by
  rw [TopicFilter.bytes, List.length_append, length_writeMQTTString single]

theorem length_filtersBody {topicFilters : List TopicFilter} (single : ∀ t ∈ topicFilters, t.filter.Single)
    (packetid : Nat) : (writeInt packetid ++ topicFilters.flatMap TopicFilter.bytes).length =
      filtersLength topicFilters := by
  have each : topicFilters.map (fun t => t.bytes.length) =
      topicFilters.map fun t => 2 + t.filter.strlen + t.requestedQoS.toList.length :=
    List.map_congr_left fun t member => length_filterBytes (single t member)
  rw [List.length_append, length_writeInt, List.length_flatMap, each, filtersLength]

/-- The loop reads the filters that stand there, one a turn. -/
theorem readFilters_of_stands {buf : List UInt8} {topicFilters : List TopicFilter}
    (stands : Stands buf off (topicFilters.flatMap TopicFilter.bytes))
    (single : ∀ t ∈ topicFilters, t.filter.Single) (short : ∀ t ∈ topicFilters, t.filter.strlen < 65536)
    (all_ask : ∀ t ∈ topicFilters, t.requestedQoS.isSome = asks) (turns : topicFilters.length ≤ n) :
    readFilters asks buf (off + (topicFilters.flatMap TopicFilter.bytes).length) n off =
      (true, topicFilters.map fun t => (t.filter.text, t.requestedQoS)) := by
  induction topicFilters generalizing off n with
  | nil =>
    cases n with
    | zero => rfl
    | succ n => exact if_neg (Nat.lt_irrefl off)
  | cons t topicFilters ih =>
    cases n with
    | zero => exact absurd turns (Nat.not_succ_le_zero _)
    | succ n =>
      have one := single t List.mem_cons_self
      have few := short t List.mem_cons_self
      have ask := all_ask t List.mem_cons_self
      have width := length_filterBytes one
      rw [← t.filter.length_text] at few width
      rw [List.flatMap_cons] at stands ⊢
      obtain ⟨head, tail⟩ := Stands.append.mp stands
      have rest := ih tail (fun t member => single t (List.mem_cons_of_mem _ member))
        (fun t member => short t (List.mem_cons_of_mem _ member))
        (fun t member => all_ask t (List.mem_cons_of_mem _ member)) (Nat.le_of_succ_le_succ turns)
      rw [Nat.add_assoc, ← List.length_append] at rest
      rw [TopicFilter.bytes, writeMQTTString_single one] at head
      obtain ⟨name, level⟩ := Stands.append.mp head
      rw [length_writeCString, ← Nat.add_assoc] at level
      generalize whole : off + (t.bytes ++ topicFilters.flatMap TopicFilter.bytes).length = enddata at rest ⊢
      rw [List.length_append, width] at whole
      obtain ⟨length, text⟩ := readMQTTLenString_of_stands name few (by omega : _ ≤ enddata)
      have more : off < enddata := by omega
      simp only [readFilters, if_pos more, length, text, List.map_cons]
      cases asked : t.requestedQoS with
      | none =>
        rw [asked] at ask width
        have plain : asks = false := ask.symm
        have next : off + 2 + t.filter.text.length = off + t.bytes.length := by
          rw [width]
          exact Nat.add_assoc _ _ _
        simp only [plain, Bool.false_eq_true, if_false, next]
        rw [plain] at rest
        rw [rest]
      | some qos =>
        rw [asked] at ask width level whole
        have asking : asks = true := ask.symm
        rw [Option.toList_some, List.length_singleton] at width whole
        have inside : ¬ off + 2 + t.filter.text.length ≥ enddata := by omega
        have next : off + 2 + t.filter.text.length + 1 = off + t.bytes.length := by omega
        simp only [asking, if_true, if_neg inside, next, charAt_of_stands level]
        rw [asking] at rest
        rw [rest]

theorem filtersLength_bounds (topicFilters : List TopicFilter) :
    (∀ t ∈ topicFilters, t.filter.strlen ≤ filtersLength topicFilters) ∧
      2 + topicFilters.length ≤ filtersLength topicFilters := by
  unfold filtersLength
  induction topicFilters with
  | nil => exact ⟨fun t member => absurd member List.not_mem_nil, Nat.le_refl 2⟩
  | cons first topicFilters ih =>
    obtain ⟨each, count⟩ := ih
    rw [List.map_cons, List.sum_cons, List.length_cons]
    constructor
    · intro t member
      rcases List.mem_cons.mp member with rfl | later
      · omega
      · have := each t later
        omega
    · omega

/-- Any number of filters that a request carries is read back by the server side. -/
theorem filters_round_trip {topicFilters : List TopicFilter} (other : Int)
    (written : serializeFilters type buflen dup packetid topicFilters = some bytes) (small : buflen ≤ 65536)
    (single : ∀ t ∈ topicFilters, t.filter.Single) (all_ask : ∀ t ∈ topicFilters, t.requestedQoS.isSome = asks)
    (bit : dup < 2) (id : packetid < 65536) (rest : List UInt8) :
    bytes.length ≤ buflen ∧ readPacket (bytes ++ rest) = some bytes ∧
      deserializeFilters type other asks (bytes ++ rest) =
        (1, some (dup, packetid, topicFilters.map fun t => (t.filter.text, t.requestedQoS))) := by
  have counted := length_filtersBody single packetid
  rw [serializeFilters, ← counted] at written
  have bound : buflen < 128 ^ 4 := by omega
  have fits := frame_fits written bound
  obtain ⟨head, length, body, _⟩ := frame_stands written bound rest
  rw [counted] at fits length body
  obtain ⟨number, filters⟩ := Stands.append.mp body
  rw [length_writeInt] at filters
  obtain ⟨each, count⟩ := filtersLength_bounds topicFilters
  have read := readFilters_of_stands filters single
    (fun t member => Nat.lt_of_le_of_lt (each t member) (by omega)) all_ask (Nat.le_of_add_left_le count)
  rw [List.length_append, length_writeInt] at counted
  have last : 1 + (encode (filtersLength topicFilters)).length + filtersLength topicFilters =
      1 + (encode (filtersLength topicFilters)).length + 2 +
        (topicFilters.flatMap TopicFilter.bytes).length := by omega
  refine ⟨fits.2, frame_arrives written bound rest, ?_⟩
  simp only [deserializeFilters, head, typeBits_header, ne_eq, not_true_eq_false, if_false, length, last, read,
    readInt_of_stands number id, dupBit_header, Nat.mod_eq_of_lt bit, if_true]

/-- Two filters in one SUBSCRIBE. -/
theorem filters_round_trip_two :
    let bytes : List UInt8 := [130, 11, 0, 1, 0, 1, 116, 1, 0, 2, 97, 98, 0]
    bytes.length ≤ 64 ∧ readPacket (bytes ++ []) = some bytes ∧
      deserializeFilters .subscribe (-1) true (bytes ++ []) = (1, some (0, 1,
        [⟨⟨some [116], []⟩, some 1⟩, ⟨⟨some [97, 98], []⟩, some 0⟩].map fun t : TopicFilter =>
          (t.filter.text, t.requestedQoS))) :=
  filters_round_trip (-1) rfl (by decide) (by decide) (by decide) (by decide) (by decide) _

end RemoteBoot.Mqtt
