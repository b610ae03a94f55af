import RemoteBoot.Kernel.RingFifo
import RemoteBoot.Mqtt.Format

/-! Publishing: `MQTTPublish` writes a message into a pipe, and the worker thread sends
what it reads from the pipe. A read takes all that is queued, and the worker acts on the
front of it. -/
namespace RemoteBoot.Mqtt
open Bytes Kernel Transition

/-- `PIPE_BUFSZ` -/
def pipeBufsz : Nat := 1024

/-- `sizeof(MQTTMessage)` -/
def messageSize : Nat := 16

/-- `buf_size` of `mqtt_start` -/
def outBufSize : Nat := 2048

/-- A 32-bit word in memory, low byte first. -/
def word (n : Nat) : List UInt8 :=
  [UInt8.ofNat n, UInt8.ofNat (n / 256), UInt8.ofNat (n / 65536), UInt8.ofNat (n / 16777216)]

def wordAt (buf : List UInt8) (i : Nat) : Nat :=
  (charAt buf i).toNat + 256 * (charAt buf (i + 1)).toNat + 65536 * (charAt buf (i + 2)).toNat +
    16777216 * (charAt buf (i + 3)).toNat

/-- What `MQTTPublish` is called with: an `MQTTMessage` and a topic name. An `enum QoS`
takes one byte. `paho_mqtt_publish` sets neither the dup flag nor the packet id. -/
structure Outgoing where
  qos : Nat
  retained : UInt8
  dup : UInt8
  id : UInt16
  padding : UInt8 × UInt8 × UInt8
  address : Nat
  payload : List UInt8
  topicName : List UInt8
  level : qos < 4
  noNul : 0 ∉ topicName

namespace Outgoing

def head (m : Outgoing) : List UInt8 :=
  [UInt8.ofNat m.qos, m.retained, m.dup, m.padding.1, UInt8.ofNat m.id.toNat, UInt8.ofNat (m.id.toNat / 256),
    m.padding.2.1, m.padding.2.2]

/-- `MQTTMessage`, the payload, the topic and its NUL -/
def record (m : Outgoing) : List UInt8 :=
  m.head ++ (word m.address ++ (word m.payload.length ++ (m.payload ++ (m.topicName ++ [0]))))

theorem length_record (m : Outgoing) :
    m.record.length = messageSize + m.payload.length + m.topicName.length + 1 := by
  simp only [record, head, List.length_append, word, List.length_cons, List.length_nil, messageSize]
  omega

/-- The PUBLISH packet of the message. -/
def packet (m : Outgoing) : Option (List UInt8) :=
  serializePublish outBufSize 0 m.qos m.retained.toNat m.id.toNat ⟨some m.topicName, []⟩ m.payload

/-- What went through the pipe goes into the send buffer. -/
theorem packet_isSome (m : Outgoing) (fits : m.record.length ≤ pipeBufsz) : m.packet.isSome := by
  rw [length_record] at fits
  have length : publishLength m.qos ⟨some m.topicName, []⟩ m.payload.length ≤ 1024 := by
    simp only [publishLength, MQTTString.strlen, pipeBufsz, messageSize] at fits ⊢
    split <;> omega
  have room : ¬ packetLen (publishLength m.qos ⟨some m.topicName, []⟩ m.payload.length) > outBufSize := by
    simp only [packetLen, outBufSize]
    split_ifs <;> omega
  rw [packet, serializePublish, frame, if_neg room]
  rfl

end Outgoing

/-- What is written into the pipe: a message, or the command of `paho_mqtt_stop`. -/
inductive Item where
  | message (m : Outgoing)
  | disconnect

def Item.bytes : Item → List UInt8
  | message m => m.record
  | disconnect => ascii "DISCONNECT" ++ [0]

/-- What the worker does about one read. -/
inductive Handled where
  | send (packet : List UInt8)
  | exit
  | ignore
  /-- `MQTTSerialize_publish` fails and the connection is given up. -/
  | reconnect
  /-- The length or the topic leads out of the read buffer. -/
  | undefined
  deriving DecidableEq

/-- The branch of `paho_mqtt_thread` for the pipe, with what was read and what stood in
the read buffer behind it. -/
def handle (data stale : List UInt8) : Handled :=
  let readbuf := data ++ stale
  if data.length < messageSize then
    if cstring data = ascii "DISCONNECT" then .exit else .ignore
  else
    let payloadlen := wordAt readbuf 12
    let topic := readbuf.drop (messageSize + payloadlen)
    if 0 ∈ topic then
      match serializePublish outBufSize 0 (charAt readbuf 0).toNat (charAt readbuf 1).toNat
          ((charAt readbuf 4).toNat + 256 * (charAt readbuf 5).toNat) ⟨some (cstring topic), []⟩
          (slot readbuf messageSize payloadlen) with
      | some packet => .send packet
      | none => .reconnect
    else .undefined

theorem wordAt_of_stands {buf : List UInt8} (stands : Stands buf off (word n)) (small : n < 2 ^ 32) :
    wordAt buf off = n := by
  obtain ⟨b0, rest⟩ := Stands.cons.mp stands
  obtain ⟨b1, rest⟩ := Stands.cons.mp rest
  obtain ⟨b2, rest⟩ := Stands.cons.mp rest
  obtain ⟨b3, _⟩ := Stands.cons.mp rest
  simp only [wordAt, charAt, List.getD_eq_getElem?_getD, b0, b1, b2, b3, Option.getD_some, UInt8.toNat_ofNat']
  omega

/-- The fields of the message, wherever it stands at the front. -/
theorem Outgoing.head_fields (m : Outgoing) {buf : List UInt8} (stands : Stands buf 0 m.head) :
    (charAt buf 0).toNat = m.qos ∧ charAt buf 1 = m.retained ∧
      (charAt buf 4).toNat + 256 * (charAt buf 5).toNat = m.id.toNat := by
  have level := m.level
  have wide := m.id.toNat_lt
  have qos := charAt_of_stands stands
  obtain ⟨_, rest⟩ := Stands.cons.mp stands
  have retained := charAt_of_stands rest
  obtain ⟨_, rest⟩ := Stands.cons.mp rest
  obtain ⟨_, rest⟩ := Stands.cons.mp rest
  obtain ⟨_, rest⟩ := Stands.cons.mp rest
  have low := charAt_of_stands rest
  obtain ⟨_, rest⟩ := Stands.cons.mp rest
  have high := charAt_of_stands rest
  refine ⟨?_, retained, ?_⟩
  · rw [qos, UInt8.toNat_ofNat']
    omega
  · rw [low, high, UInt8.toNat_ofNat', UInt8.toNat_ofNat']
    omega

/-- The worker sends the message at the front, whatever stands behind it. -/
theorem handle_message (m : Outgoing) (fits : m.record.length ≤ pipeBufsz) (behind stale : List UInt8) :
    ∃ packet, m.packet = some packet ∧ handle (m.record ++ behind) stale = .send packet := by
  obtain ⟨packet, built⟩ := Option.isSome_iff_exists.mp (m.packet_isSome fits)
  refine ⟨packet, built, ?_⟩
  have length := m.length_record
  have long : ¬ (m.record ++ behind).length < messageSize := by
    rw [List.length_append]
    omega
  have small : m.payload.length < 2 ^ 32 := by
    rw [pipeBufsz] at fits
    omega
  have stands := Stands.whole m.record (behind ++ stale)
  rw [← List.append_assoc] at stands
  obtain ⟨head, rest⟩ := Stands.append.mp stands
  obtain ⟨_, rest⟩ := Stands.append.mp rest
  obtain ⟨count, rest⟩ := Stands.append.mp rest
  obtain ⟨payload, name⟩ := Stands.append.mp rest
  obtain ⟨qos, retained, id⟩ := m.head_fields head
  have payloadlen : wordAt (m.record ++ behind ++ stale) 12 = m.payload.length := wordAt_of_stands count small
  have topic : ∃ more, (m.record ++ behind ++ stale).drop (messageSize + m.payload.length) =
      m.topicName ++ 0 :: more := by
    obtain ⟨more, joined⟩ := name
    exact ⟨more, by rw [List.append_assoc] at joined; exact joined.symm⟩
  obtain ⟨more, topic⟩ := topic
  have ended : 0 ∈ m.topicName ++ 0 :: more := List.mem_append_right _ List.mem_cons_self
  have text : slot (m.record ++ behind ++ stale) messageSize m.payload.length = m.payload := payload.slot_eq
  rw [Outgoing.packet] at built
  simp only [handle, if_neg long, payloadlen, topic, if_pos ended, cstring_append_nul m.noNul, qos, retained, id,
    text, built]

/-- A stop command that is read alone ends the worker. -/
theorem handle_disconnect (stale : List UInt8) : handle Item.disconnect.bytes stale = .exit := rfl

/-- One that anything stands behind is taken for a message. -/
theorem handle_disconnect_append {behind : List UInt8} (more : 5 ≤ behind.length) (stale : List UInt8) :
    handle (Item.disconnect.bytes ++ behind) stale ≠ .exit := by
  have length : Item.disconnect.bytes.length = 11 := rfl
  have long : ¬ (Item.disconnect.bytes ++ behind).length < messageSize := by
    rw [List.length_append, length, messageSize]
    omega
  simp only [handle, if_neg long]
  split_ifs
  · split <;> exact fun same => by cases same
  · exact fun same => by cases same

theorem Item.long (item : Item) : 11 ≤ item.bytes.length := by
  cases item with
  | message m =>
    rw [bytes, m.length_record, messageSize]
    omega
  | disconnect => exact Nat.le_refl 11

/-- The pipe of the worker, and what the worker has done about its reads. -/
structure Outbox where
  fifo : RingBuffer pipeBufsz
  handled : List Handled
  ended : Bool

/-- A call of `MQTTPublish` or `MQTT_CMD` that finds room in the pipe, or a read of the
worker with what its buffer held before. A write that has to wait is not among them. -/
inductive OutboxLabel where
  | write (item : Item)
  | read (stale : List UInt8)

namespace Outbox

def step (s : Outbox) : OutboxLabel → Option Outbox
  | .write item =>
    if item.bytes.length ≤ s.fifo.spaceLen then some { s with fifo := (s.fifo.put item.bytes).2 } else none
  | .read stale =>
    if s.ended ∨ s.fifo.dataLen = 0 then none
    else
      let (data, fifo) := s.fifo.get readbufSize
      let done := handle data stale
      some ⟨fifo, s.handled ++ [done], decide (done = .exit ∨ done = .undefined)⟩

def start (pool : List UInt8) (width : pool.length = pipeBufsz) : Outbox where
  fifo := RingBuffer.init pool width (by decide)
  handled := []
  ended := false

end Outbox

/-- What was written from each read to the next, and since the last one. -/
def spans (queued : List Item) : List OutboxLabel → List (List Item) × List Item
  | [] => ([], queued)
  | .write item :: labels => spans (queued ++ [item]) labels
  | .read _ :: labels => (queued :: (spans [] labels).1, (spans [] labels).2)

/-- What is done about the items of one read: the message in front is sent, and what
stands behind it is dropped. A stop command in front is obeyed if it is alone. -/
def Tells : List Item → Handled → Prop
  | .message m :: _, done => ∃ packet, m.packet = some packet ∧ done = .send packet
  | [.disconnect], done => done = .exit
  | .disconnect :: _ :: _, done => done ≠ .exit
  | [], _ => False

theorem tells_handle {queued : List Item} (some_there : queued ≠ [])
    (fits : (queued.flatMap Item.bytes).length ≤ pipeBufsz) (stale : List UInt8) :
    Tells queued (handle (queued.flatMap Item.bytes) stale) := by
  match queued, some_there with
  | .message m :: behind, _ =>
    rw [List.flatMap_cons] at fits ⊢
    have room : m.record.length ≤ pipeBufsz := by
      rw [List.length_append] at fits
      exact Nat.le_trans (Nat.le_add_right _ _) fits
    exact handle_message m room _ stale
  | [.disconnect], _ => exact handle_disconnect stale
  | .disconnect :: next :: behind, _ =>
    have long := next.long
    refine handle_disconnect_append ?_ stale
    change 5 ≤ ((next :: behind).flatMap Item.bytes).length
    rw [List.flatMap_cons, List.length_append]
    omega

namespace Outbox

theorem step_write {s t : Outbox} (stepped : s.step (.write item) = some t)
    (held : s.fifo.held = queued.flatMap Item.bytes) :
    t.fifo.held = (queued ++ [item]).flatMap Item.bytes ∧ t.handled = s.handled := by
  simp only [step] at stepped
  split at stepped
  · rename_i room
    cases stepped
    rw [List.flatMap_append, List.flatMap_singleton, ← held, (s.fifo.put_held item.bytes).2,
      List.take_of_length_le room]
    exact ⟨rfl, rfl⟩
  · cases stepped

theorem step_read {s t : Outbox} (stepped : s.step (.read stale) = some t)
    (held : s.fifo.held = queued.flatMap Item.bytes) :
    t.fifo.held = [] ∧ ∃ done, t.handled = s.handled ++ [done] ∧ Tells queued done := by
  simp only [step] at stepped
  split at stepped
  · cases stepped
  · rename_i able
    cases stepped
    have bound := s.fifo.length_held_le
    have all : s.fifo.held.length ≤ readbufSize := Nat.le_trans bound (by decide)
    have nonempty : queued ≠ [] := by
      rintro rfl
      have count := s.fifo.length_held
      rw [held] at count
      exact able (.inr count.symm)
    obtain ⟨data, left⟩ := s.fifo.get_held readbufSize
    rw [List.take_of_length_le all] at data
    refine ⟨left.trans (List.drop_of_length_le all), _, rfl, ?_⟩
    rw [data, held]
    rw [held] at bound
    exact tells_handle nonempty bound stale

theorem run_tells {s t : Outbox} (run : Run step Free s labels t)
    (held : s.fifo.held = queued.flatMap Item.bytes) :
    (∃ dones, t.handled = s.handled ++ dones ∧ List.Forall₂ Tells (spans queued labels).1 dones) ∧
      t.fifo.held = (spans queued labels).2.flatMap Item.bytes := by
  induction run generalizing queued with
  | refl s => exact ⟨⟨[], (List.append_nil _).symm, .nil⟩, held⟩
  | @next s label middle labels t _ stepped _ ih =>
    cases label with
    | write item =>
      obtain ⟨grown, same⟩ := step_write stepped held
      obtain ⟨⟨dones, handled, tells⟩, last⟩ := ih grown
      exact ⟨⟨dones, same ▸ handled, tells⟩, last⟩
    | read stale =>
      obtain ⟨empty, done, logged, told⟩ := step_read stepped held
      obtain ⟨⟨dones, handled, tells⟩, last⟩ := @ih [] empty
      refine ⟨⟨done :: dones, ?_, .cons told tells⟩, last⟩
      rw [handled, logged, List.append_assoc, List.singleton_append]

end Outbox

/-- Of the messages that were accepted since a read, the next read sends the first one and
drops the others; and `paho_mqtt_stop` is obeyed when its command is read alone, and
never when anything was written behind it before the read. -/
theorem reads_send_first {pool : List UInt8} {width : pool.length = pipeBufsz}
    (run : Run Outbox.step Free (Outbox.start pool width) labels t) :
    List.Forall₂ Tells (spans [] labels).1 t.handled ∧
      t.fifo.held = (spans [] labels).2.flatMap Item.bytes := by
  obtain ⟨⟨dones, handled, tells⟩, last⟩ := @Outbox.run_tells labels [] _ _ run rfl
  exact ⟨handled ▸ tells, last⟩

/-- A message that one publish writes. -/
def hello : Outgoing where
  qos := 1
  retained := 0
  dup := 0
  id := 7
  padding := (0, 0, 0)
  address := 0x24000000
  payload := ascii "hi"
  topicName := ascii "t"
  level := by decide
  noNul := by decide

/-- Two messages and a read, and a stop command and a read. -/
theorem reads_send_first_hello :
    let labels : List OutboxLabel :=
      [.write (.message hello), .write (.message hello), .read [], .write .disconnect, .read []]
    ∃ t, Run Outbox.step Free (Outbox.start (List.replicate 1024 0) List.length_replicate) labels t ∧
      List.Forall₂ Tells (spans [] labels).1 t.handled ∧
        t.fifo.held = (spans [] labels).2.flatMap Item.bytes := by
  intro labels
  have run : Run Outbox.step Free (Outbox.start (List.replicate 1024 0) List.length_replicate) labels _ :=
    .next trivial rfl (.next trivial rfl (.next trivial rfl (.next trivial rfl (.next trivial rfl (.refl _)))))
  exact ⟨_, run, reads_send_first run⟩

end RemoteBoot.Mqtt
