import RemoteBoot.Mqtt.Cycle

/-! What a stream of any bytes can do to `MQTT_cycle`. -/
namespace RemoteBoot.Mqtt
open Bytes
variable {Callback : Type}

/-- The remaining length of a packet, and what arrives of that many bytes. -/
def arriving (wire : List UInt8) : Nat × List UInt8 :=
  let (remLen, len) := decode maxLengthBytes wire
  (remLen, (wire.drop (min len maxLengthBytes)).take remLen)

/-- The topic of a PUBLISH is inside its body. -/
def TopicFits (body : List UInt8) : Prop := 2 ≤ body.length ∧ 2 + readInt body 0 ≤ body.length

instance (body : List UInt8) : Decidable (TopicFits body) := inferInstanceAs (Decidable (_ ∧ _))

/-- How far a PUBLISH with a packet id reaches past its own end when the id is cut off. -/
def overhang (byte : UInt8) (body : List UInt8) : Nat :=
  2 + readInt body 0 + (if ((byte >>> 1) &&& 3).toNat > 0 then 2 else 0) - body.length

/-- A PUBLISH with a topic that is cut off and one length byte, if anybody listens or it
is acknowledged; one with a packet id that is cut off by the end of the buffer; one that
is handed to a callback and fills the buffer, or has no NUL behind it from where its id
ends; a PUBREC without a packet id; a SUBACK of two filters. -/
def Harmful (h : Handlers Callback) (byte : UInt8) (body behind : List UInt8) : Prop :=
  (typeBits byte = MsgType.publish.code ∧
    (¬ TopicFits body ∧ body.length < 128 ∧
        (h.Listens ∨ ((byte >>> 1) &&& 3).toNat = 1 ∨ ((byte >>> 1) &&& 3).toNat = 2) ∨
      TopicFits body ∧
        (1 + (encode body.length).length + body.length + overhang byte body > readbufSize ∨
          (deliverMessage h.messageHandlers h.defaultMessageHandler ⟨none, slot body 2 (readInt body 0)⟩).2 ≠ [] ∧
            (1 + (encode body.length).length + body.length = readbufSize ∨
              0 < overhang byte body ∧ 0 ∉ behind.drop (overhang byte body))))) ∨
  (typeBits byte = MsgType.pubrec.code ∧ body.length < 2) ∨
  (typeBits byte = MsgType.suback.code ∧ 4 ≤ body.length)

theorem decode_lt (turns : Nat) (wire : List UInt8) : (decode turns wire).1 < 128 ^ turns := by
  induction turns generalizing wire with
  | zero =>
    cases wire <;> exact Nat.one_pos
  | succ turns ih =>
    cases wire with
    | nil => exact Nat.pow_pos (by decide)
    | cons c rest =>
      have low : (c &&& 127).toNat < 128 := by
        rw [UInt8.toNat_and]
        exact Nat.lt_succ_of_le Nat.and_le_right
      have more := ih rest
      rw [decode, Nat.pow_succ]
      split
      · change (c &&& 127).toNat + 128 * (decode turns rest).1 < _
        omega
      · change (c &&& 127).toNat < _
        have : 0 < 128 ^ turns := Nat.pow_pos (by decide)
        omega

theorem publishType_of_typeBits {byte : UInt8} (publish : typeBits byte = MsgType.publish.code) :
    byte >>> 4 = publishType := by
  have shifted : (byte >>> 4).toNat = byte.toNat / 16 := by
    rw [UInt8.toNat_shiftRight]
    exact Nat.shiftRight_eq_div_pow _ 4
  exact UInt8.toNat_inj.mp (shifted.trans publish)

theorem readMQTTLenString_some {buf : List UInt8} (read : readMQTTLenString buf curdata enddata = some len) :
    len = readInt buf curdata := by
  simp only [readMQTTLenString] at read
  split at read
  · split at read
    · exact (Option.some.inj read).symm
    · cases read
  · cases read

theorem deserializePublish_topic {buf : List UInt8} (read : deserializePublish buf = .publish p) :
    p.topic = 1 + (decode maxLengthBytes (buf.drop 1)).2 + 2 ∧
      p.topicLen = readInt buf (1 + (decode maxLengthBytes (buf.drop 1)).2) ∧
      p.payload = p.topic + p.topicLen + if ((charAt buf 0 >>> 1) &&& 3).toNat > 0 then 2 else 0 := by
  simp only [deserializePublish] at read
  split at read
  · cases read
  · split at read
    · cases read
    · rename_i topicLen found
      cases read
      refine ⟨rfl, readMQTTLenString_some found, ?_⟩
      dsimp only
      split <;> rfl

/-- Acknowledging is harmless. -/
theorem acknowledge_defined {sends : Bool} {done : List (Service Callback)} {readbuf wire : List UInt8} :
    acknowledge sends done readbuf wire packet ≠ .undefined := by
  intro undefined
  unfold acknowledge at undefined
  split at undefined
  · cases undefined
  · split at undefined <;> cases undefined

theorem answer_defined {sends : Bool} {done : List (Service Callback)} {readbuf wire : List UInt8} {msg : Publish} :
    answer sends done readbuf wire msg ≠ .undefined := by
  intro undefined
  unfold answer at undefined
  split at undefined
  · cases undefined
  · exact acknowledge_defined undefined

theorem serveUnset_undefined_iff {h : Handlers Callback} {readbuf wire : List UInt8} :
    serveUnset h qos readbuf wire = .undefined ↔ h.Listens ∨ qos = 1 ∨ qos = 2 := by
  unfold serveUnset
  by_cases listens : h.Listens
  · rw [if_pos listens]
    exact iff_of_true rfl (.inl listens)
  · rw [if_neg listens, or_iff_right listens]
    split
    · rename_i zero
      exact iff_of_false (fun served => by cases served) (by omega)
    · split
      · rename_i numbered
        exact iff_of_true rfl numbered
      · rename_i other
        exact iff_of_false (fun served => by cases served) other

/-- Where the string of a payload leaves the buffer: its NUL does, or its start is behind
the NUL and there is no other. -/
theorem payloadText_none_iff {p : Publish} {bytes rest : List UInt8} (nul : p.nul = bytes.length)
    (reach : bytes.length + k = max bytes.length p.payload) (whole : bytes.length + rest.length = size) :
    payloadText (bytes ++ rest) p = none ↔ bytes.length = size ∨ 0 < k ∧ 0 ∉ rest.drop k := by
  cases rest with
  | nil =>
    rw [List.length_nil, Nat.add_zero] at whole
    have past : ¬ (0 ≤ p.nul ∧ p.nul < (bytes ++ []).length) := by
      rw [nul, List.append_nil]
      omega
    rw [payloadText, Publish.terminate, if_neg past]
    exact iff_of_true rfl (.inl whole)
  | cons old rest =>
    rw [List.length_cons] at whole
    have short : ¬ bytes.length = size := by omega
    have inside : 0 ≤ p.nul ∧ p.nul < (bytes ++ old :: rest).length := by
      rw [nul, List.length_append, List.length_cons]
      omega
    have stored : (bytes ++ old :: rest).set p.nul.toNat 0 = bytes ++ 0 :: rest := by
      rw [nul, Int.toNat_natCast, List.set_append_right _ _ (Nat.le_refl _), Nat.sub_self, List.set_cons_zero]
    have string : 0 ∈ (bytes ++ 0 :: rest).drop p.payload ↔ k = 0 ∨ 0 ∈ (old :: rest).drop k := by
      rcases Nat.eq_zero_or_pos k with none | some_past
      · rw [List.drop_append_of_le_length (by omega)]
        exact iff_of_true (List.mem_append_right _ List.mem_cons_self) (.inl none)
      · obtain ⟨j, rfl⟩ := Nat.exists_eq_add_one.mpr some_past
        have start : p.payload = bytes.length + (j + 1) := by omega
        have apart : ¬ j + 1 = 0 := Nat.succ_ne_zero j
        rw [start, ← List.drop_drop, List.drop_left, List.drop_succ_cons, List.drop_succ_cons]
        simp only [apart, false_or]
    rw [payloadText, Publish.terminate, if_pos inside, stored]
    simp only [short, false_or]
    by_cases found : 0 ∈ (bytes ++ 0 :: rest).drop p.payload
    · rw [if_pos found]
      refine iff_of_false (Option.some_ne_none _) fun both => ?_
      exact (string.mp found).elim (Nat.ne_of_gt both.1) both.2
    · rw [if_neg found]
      rw [string, not_or] at found
      exact iff_of_true rfl ⟨Nat.pos_of_ne_zero found.1, found.2⟩

section
variable {readbuf wire body rest : List UInt8} {byte : UInt8} (h : Handlers Callback) (sends : Bool)
  (small : body.length < 128 ^ 4)
include small

/-- A whole packet at the front of the read buffer. -/
theorem stored_spec : charAt (byte :: (encode body.length ++ body) ++ rest) 0 = byte ∧
    decode maxLengthBytes ((byte :: (encode body.length ++ body) ++ rest).drop 1) =
      (body.length, (encode body.length).length) ∧
    Stands (byte :: (encode body.length ++ body) ++ rest) (1 + (encode body.length).length) body := by
  have stands := Stands.whole (byte :: (encode body.length ++ body)) rest
  obtain ⟨length, content⟩ := Stands.append.mp (Stands.cons.mp stands).2
  exact ⟨charAt_of_stands stands, decode_of_stands length small, Nat.zero_add 1 ▸ content⟩

theorem servePublish_undefined_iff (publish : typeBits byte = MsgType.publish.code)
    (size : (byte :: (encode body.length ++ body) ++ rest).length = readbufSize) :
    servePublish h sends (byte :: (encode body.length ++ body) ++ rest) wire = .undefined ↔
      (¬ TopicFits body ∧ body.length < 128 ∧
          (h.Listens ∨ ((byte >>> 1) &&& 3).toNat = 1 ∨ ((byte >>> 1) &&& 3).toNat = 2) ∨
        TopicFits body ∧
          (1 + (encode body.length).length + body.length + overhang byte body > readbufSize ∨
            (deliverMessage h.messageHandlers h.defaultMessageHandler
                ⟨none, slot body 2 (readInt body 0)⟩).2 ≠ [] ∧
              (1 + (encode body.length).length + body.length = readbufSize ∨
                0 < overhang byte body ∧ 0 ∉ rest.drop (overhang byte body)))) := by
  obtain ⟨head, decoded, content⟩ := @stored_spec body rest byte small
  let packet : Packet := ⟨byte, body, publishType_of_typeBits publish⟩
  have bytes : packet.bytes ++ rest = byte :: (encode body.length ++ body) ++ rest := rfl
  unfold servePublish
  by_cases fits : TopicFits body
  · obtain ⟨p, read, nul⟩ := packet.deserialize_fits small fits rest
    rw [bytes] at read
    obtain ⟨topic, topicLen, payload⟩ := deserializePublish_topic read
    rw [decoded] at topic topicLen
    rw [head] at payload
    have number : p.topicLen = readInt body 0 := topicLen.trans (packet.readInt_body fits.1)
    have name : slot (byte :: (encode body.length ++ body) ++ rest) p.topic p.topicLen =
        slot body 2 (readInt body 0) := by
      obtain ⟨tail, joined⟩ := content
      have enough := fits.2
      rw [number, topic, slot, ← List.drop_drop, ← joined, List.drop_append_of_le_length (by omega),
        List.take_append_of_le_length (by rw [List.length_drop]; omega)]
      rfl
    have total : packet.bytes.length = 1 + (encode body.length).length + body.length := packet.length_bytes
    have whole : packet.bytes.length + rest.length = readbufSize := by
      rw [← size, ← bytes, List.length_append]
    have reach : packet.bytes.length + overhang byte body = max packet.bytes.length p.payload := by
      unfold overhang
      omega
    have outside : p.payload > (byte :: (encode body.length ++ body) ++ rest).length ↔
        1 + (encode body.length).length + body.length + overhang byte body > readbufSize := by
      omega
    have text : payloadText (byte :: (encode body.length ++ body) ++ rest) p = none ↔
        1 + (encode body.length).length + body.length = readbufSize ∨
          0 < overhang byte body ∧ 0 ∉ rest.drop (overhang byte body) := by
      rw [← bytes, ← total]
      exact payloadText_none_iff nul reach whole
    simp only [read, fits, not_true_eq_false, false_and, true_and, false_or, name, outside]
    by_cases id : 1 + (encode body.length).length + body.length + overhang byte body > readbufSize
    · simp only [id, true_or, if_true]
    · simp only [id, false_or, if_false, ← text]
      cases (deliverMessage h.messageHandlers h.defaultMessageHandler
        ⟨none, slot body 2 (readInt body 0)⟩).2 with
      | nil => exact iff_of_false answer_defined fun both => both.1 rfl
      | cons callback called =>
        simp only [ne_eq, reduceCtorEq, not_false_eq_true, true_and]
        cases payloadText (byte :: (encode body.length ++ body) ++ rest) p with
        | none => exact iff_of_true rfl rfl
        | some after => exact iff_of_false answer_defined (Option.some_ne_none after)
  · have read := packet.deserialize_cut small fits rest
    rw [bytes] at read
    simp only [read, fits, not_false_eq_true, true_and, false_and, or_false]
    by_cases few : body.length < 128
    · rw [if_neg (not_not.mpr (length_encode_eq_one.mpr few)), serveUnset_undefined_iff]
      simp only [few, true_and]
      rfl
    · rw [if_pos (mt length_encode_eq_one.mp few)]
      exact iff_of_false (fun served => by cases served) (fun both => few both.1)

end

theorem servePubrec_undefined_iff {readbuf wire : List UInt8} (sends : Bool) (small : n < 128 ^ 4)
    (decoded : decode maxLengthBytes (readbuf.drop 1) = (n, (encode n).length)) :
    (servePubrec sends readbuf wire : Cycled Callback) = .undefined ↔ n < 2 := by
  by_cases short : n < 2
  · have one : (encode n).length = 1 := by
      rw [length_encode small, if_pos (by omega)]
    have unnumbered : deserializeAck readbuf =
        (1, typeBits (charAt readbuf 0), dupBit (charAt readbuf 0), none) := by
      simp only [deserializeAck, decoded, if_pos short, one]
    rw [servePubrec, unnumbered]
    exact iff_of_true rfl short
  · have numbered : deserializeAck readbuf = (1, typeBits (charAt readbuf 0), dupBit (charAt readbuf 0),
        some (readInt readbuf (1 + (encode n).length))) := by
      simp only [deserializeAck, decoded, if_neg short]
    rw [servePubrec, numbered]
    exact iff_of_false acknowledge_defined short

/-- The cycle never does what is undefined, unless the packet does not fit into the read
buffer, or is one of the harmful ones, whatever the buffer held before. -/
theorem cycle_undefined_iff (h : Handlers Callback) (sends : Bool) {readbuf : List UInt8}
    (size : readbuf.length = readbufSize) (byte : UInt8) (wire : List UInt8) :
    cycle h sends readbuf (byte :: wire) = .undefined ↔
      1 + (encode (arriving wire).1).length + (arriving wire).2.length > readbufSize ∨
        ((arriving wire).2.length = (arriving wire).1 ∧ Harmful h byte (arriving wire).2
          (readbuf.drop (1 + (encode (arriving wire).1).length + (arriving wire).2.length))) := by
  have small : (arriving wire).1 < 128 ^ 4 := decode_lt 4 wire
  have received : receive readbuf (byte :: wire) =
      if 1 + (encode (arriving wire).1).length + (arriving wire).2.length > readbufSize then .overrun
      else if (arriving wire).2.length = (arriving wire).1 then
        .packet (splice readbuf 0 (byte :: (encode (arriving wire).1 ++ (arriving wire).2)))
          ((wire.drop (min (decode maxLengthBytes wire).2 maxLengthBytes)).drop (arriving wire).1)
      else .failure := by
    have width : (byte :: (encode (arriving wire).1 ++ (arriving wire).2)).length =
        1 + (encode (arriving wire).1).length + (arriving wire).2.length := by
      rw [List.length_cons, List.length_append]
      omega
    rw [← width, ← size]
    rfl
  generalize (wire.drop (min (decode maxLengthBytes wire).2 maxLengthBytes)).drop (arriving wire).1 = later at received
  generalize (arriving wire).2 = body at *
  generalize (arriving wire).1 = remLen at *
  unfold cycle
  rw [received]
  by_cases large : 1 + (encode remLen).length + body.length > readbufSize
  · rw [if_pos large]
    exact iff_of_true rfl (.inl large)
  · rw [if_neg large]
    by_cases complete : body.length = remLen
    · subst complete
      rw [if_pos rfl]
      have front : splice readbuf 0 (byte :: (encode body.length ++ body)) = byte :: (encode body.length ++ body) ++
          readbuf.drop (byte :: (encode body.length ++ body)).length := by
        rw [splice, List.take_zero, List.nil_append, Nat.zero_add]
      rw [front]
      have whole : (byte :: (encode body.length ++ body) ++
          readbuf.drop (byte :: (encode body.length ++ body)).length).length = readbufSize := by
        rw [← front, length_splice, size]
        rw [List.length_cons, List.length_append]
        omega
      have width : (byte :: (encode body.length ++ body)).length = 1 + (encode body.length).length + body.length := by
        rw [List.length_cons, List.length_append]
        omega
      rw [width] at whole ⊢
      generalize readbuf.drop (1 + (encode body.length).length + body.length) = rest at whole
      obtain ⟨head, decoded, _⟩ := @stored_spec body rest byte small
      simp only [large, false_or, true_and, head]
      unfold Harmful
      by_cases publish : typeBits byte = MsgType.publish.code
      · have notPubrec : ¬ MsgType.publish.code = MsgType.pubrec.code := by decide
        have notSuback : ¬ MsgType.publish.code = MsgType.suback.code := by decide
        rw [if_pos publish, servePublish_undefined_iff h sends small publish whole]
        simp only [publish, true_and, notPubrec, notSuback, false_and, or_false]
      · rw [if_neg publish]
        by_cases pubrec : typeBits byte = MsgType.pubrec.code
        · have notPublish : ¬ MsgType.pubrec.code = MsgType.publish.code := by decide
          have notSuback : ¬ MsgType.pubrec.code = MsgType.suback.code := by decide
          rw [if_pos pubrec, servePubrec_undefined_iff sends small decoded]
          simp only [pubrec, notPublish, notSuback, true_and, false_and, or_false, false_or]
        · rw [if_neg pubrec]
          by_cases suback : typeBits byte = MsgType.suback.code
          · have notPublish : ¬ MsgType.suback.code = MsgType.publish.code := by decide
            have notPubrec : ¬ MsgType.suback.code = MsgType.pubrec.code := by decide
            rw [if_pos suback, decoded]
            simp only [suback, notPublish, notPubrec, true_and, false_and, false_or]
            by_cases two : 4 ≤ body.length
            · rw [if_pos two]
              exact iff_of_true rfl two
            · rw [if_neg two]
              exact iff_of_false (fun served => by cases served) two
          · rw [if_neg suback]
            simp only [publish, pubrec, suback, false_and, or_false, iff_false]
            by_cases pong : typeBits byte = MsgType.pingresp.code
            · rw [if_pos pong]
              exact fun served => by cases served
            · rw [if_neg pong]
              exact fun served => by cases served
    · rw [if_neg complete]
      refine iff_of_false (fun served => by cases served) ?_
      rintro (again | both)
      · exact large again
      · exact complete both.1

/-- A PUBLISH of two bytes: there is no topic in it, and it is handed on all the same. -/
theorem cycle_undefined_iff_bare :
    cycle startHandlers true (List.replicate readbufSize 0) [0x30, 0] = .undefined ↔
      1 + (encode (arriving [0]).1).length + (arriving [0]).2.length > readbufSize ∨
        ((arriving [0]).2.length = (arriving [0]).1 ∧ Harmful startHandlers 0x30 (arriving [0]).2
          ((List.replicate readbufSize 0).drop (1 + (encode (arriving [0]).1).length + (arriving [0]).2.length))) :=
  cycle_undefined_iff startHandlers true List.length_replicate 0x30 [0]

end RemoteBoot.Mqtt
