import RemoteBoot.Mqtt.Format

/-! The CONNECT packet: `MQTTSerialize_connect` with the options of the client, and
`MQTTDeserialize_connect` of the server side on it. -/
namespace RemoteBoot.Mqtt
open Bytes

/-- `MQTTPacket_willOptions` -/
structure WillOptions where
  topicName : MQTTString
  message : MQTTString
  retained : Nat
  qos : Nat

/-- `MQTTPacket_connectData` -/
structure ConnectData where
  mqttVersion : Nat
  clientID : MQTTString
  keepAliveInterval : UInt16
  cleansession : Nat
  willFlag : Bool
  will : WillOptions
  username : MQTTString
  password : MQTTString

/-- `options->username.cstring || options->username.lenstring.data` -/
def MQTTString.given (s : MQTTString) : Bool := s.cstring.isSome || !s.lenstring.isEmpty

def optional (wanted : Bool) (length : Nat) : Nat := if wanted then length else 0

namespace ConnectData

/-- `MQTTSerialize_connectLength` -/
def length (options : ConnectData) : Nat :=
  (if options.mqttVersion = 3 then 12 else if options.mqttVersion = 4 then 10 else 0) +
    (options.clientID.strlen + 2) +
    optional options.willFlag (options.will.topicName.strlen + 2 + options.will.message.strlen + 2) +
    optional options.username.given (options.username.strlen + 2) +
    optional options.password.given (options.password.strlen + 2)

/-- `MQTTConnectFlags` -/
def flags (options : ConnectData) : Nat :=
  options.cleansession % 2 * 2 +
    (if options.willFlag then 4 + options.will.qos % 4 * 8 + options.will.retained % 2 * 32 else 0) +
    optional options.password.given 64 + optional options.username.given 128

def protocol (options : ConnectData) : List UInt8 :=
  if options.mqttVersion = 4 then writeCString (ascii "MQTT") ++ [4] else writeCString (ascii "MQIsdp") ++ [3]

def body (options : ConnectData) : List UInt8 :=
  options.protocol ++ (UInt8.ofNat options.flags :: (writeInt options.keepAliveInterval.toNat ++
    (writeMQTTString options.clientID ++
      ((if options.willFlag then writeMQTTString options.will.topicName ++ writeMQTTString options.will.message
        else []) ++
      ((if options.username.given then writeMQTTString options.username else []) ++
        (if options.password.given then writeMQTTString options.password else []))))))

end ConnectData

/-- `MQTTSerialize_connect` -/
def serializeConnect (buflen : Nat) (options : ConnectData) : Option (List UInt8) :=
  frame buflen (header .connect 0 0 0) options.length options.body

/-- `MQTTPacket_checkVersion`. The comparison ends where the shorter name does. -/
def checkVersion (protocol : List UInt8) (version : Nat) : Bool :=
  version = 3 && (protocol.take 6).isPrefixOf (ascii "MQIsdp") ||
    version = 4 && (protocol.take 4).isPrefixOf (ascii "MQTT")

/-- `readMQTTLenString`, with the text and where it ends. -/
def readString (buf : List UInt8) (enddata curdata : Nat) : Option (List UInt8 × Nat) :=
  (readMQTTLenString buf curdata enddata).map fun len => (slot buf (curdata + 2) len, curdata + 2 + len)

structure Will where
  qos : Nat
  retained : Nat
  topicName : List UInt8
  message : List UInt8
  deriving DecidableEq

/-- What `MQTTDeserialize_connect` fills in. -/
structure Connect where
  cleansession : Nat
  keepAliveInterval : Nat
  clientID : List UInt8
  will : Option Will
  username : Option (List UInt8)
  password : Option (List UInt8)
  deriving DecidableEq

def readWill (flags : Nat) (buf : List UInt8) (enddata curdata : Nat) : Option (Option Will × Nat) :=
  if flags / 4 % 2 = 1 then
    (readString buf enddata curdata).bind fun (topicName, curdata) =>
      (readString buf enddata curdata).map fun (message, curdata) =>
        (some ⟨flags / 8 % 4, flags / 32 % 2, topicName, message⟩, curdata)
  else some (none, curdata)

/-- The username and the password; a password alone is invalid. -/
def readCredentials (flags : Nat) (buf : List UInt8) (enddata curdata : Nat) :
    Option (Option (List UInt8) × Option (List UInt8)) :=
  if flags / 128 % 2 = 1 then
    if enddata < curdata + 3 then none
    else (readString buf enddata curdata).bind fun (username, curdata) =>
      if flags / 64 % 2 = 1 then
        if enddata < curdata + 3 then none
        else (readString buf enddata curdata).map fun (password, _) => (some username, some password)
      else some (some username, none)
  else if flags / 64 % 2 = 1 then none
  else some (none, none)

/-- `MQTTDeserialize_connect`. The end of the data is that of the buffer it is given. -/
def deserializeConnect (buf : List UInt8) (len : Nat) : Option Connect :=
  if typeBits (charAt buf 0) ≠ MsgType.connect.code then none
  else
    let (_, rc) := decode maxLengthBytes (buf.drop 1)
    (readString buf len (1 + rc)).bind fun (protocol, curdata) =>
      if checkVersion protocol (charAt buf curdata).toNat then
        let flags := (charAt buf (curdata + 1)).toNat
        (readString buf len (curdata + 4)).bind fun (clientID, behind) =>
          (readWill flags buf len behind).bind fun (will, behind) =>
            (readCredentials flags buf len behind).map fun (username, password) =>
              ⟨flags / 2 % 2, readInt buf (curdata + 2), clientID, will, username, password⟩
      else none

namespace ConnectData

/-- Protocol levels and strings that the package has a meaning for. -/
structure Plain (options : ConnectData) : Prop where
  version : options.mqttVersion = 3 ∨ options.mqttVersion = 4
  clientID : options.clientID.Single
  willTopic : options.will.topicName.Single
  willMessage : options.will.message.Single
  username : options.username.Single
  password : options.password.Single

/-- The credentials that the reader lets pass: no password without a username, and the
last of the two that are given is not empty. -/
def Credible (options : ConnectData) : Prop :=
  (options.password.given → options.username.given ∧ 0 < options.password.strlen) ∧
    (options.username.given → options.password.given ∨ 0 < options.username.strlen)

instance (options : ConnectData) : Decidable options.Credible := inferInstanceAs (Decidable (_ ∧ _))

/-- The request that the options stand for. -/
def request (options : ConnectData) : Connect where
  cleansession := options.cleansession % 2
  keepAliveInterval := options.keepAliveInterval.toNat
  clientID := options.clientID.text
  will := if options.willFlag then
      some ⟨options.will.qos % 4, options.will.retained % 2, options.will.topicName.text, options.will.message.text⟩
    else none
  username := if options.username.given then some options.username.text else none
  password := if options.password.given then some options.password.text else none

theorem flags_bits (options : ConnectData) : options.flags < 256 ∧ options.flags / 2 % 2 = options.cleansession % 2 ∧
    options.flags / 128 % 2 = (if options.username.given then 1 else 0) ∧
    options.flags / 64 % 2 = (if options.password.given then 1 else 0) ∧
    options.flags / 4 % 2 = (if options.willFlag then 1 else 0) ∧
    (options.willFlag = true → options.flags / 8 % 4 = options.will.qos % 4 ∧
      options.flags / 32 % 2 = options.will.retained % 2) := by
  simp only [flags, optional]
  split_ifs <;> simp_all <;> omega

theorem length_body {options : ConnectData} (plain : options.Plain) : options.body.length = options.length := by
  have protocol : options.protocol.length + 3 =
      if options.mqttVersion = 3 then 12 else if options.mqttVersion = 4 then 10 else 0 := by
    unfold ConnectData.protocol
    rcases plain.version with three | four
    · rw [three]
      rfl
    · rw [four]
      rfl
  simp only [body, length, optional, List.length_append, List.length_cons, length_writeInt,
    length_writeMQTTString plain.clientID, apply_ite List.length, List.length_nil,
    length_writeMQTTString plain.willTopic, length_writeMQTTString plain.willMessage,
    length_writeMQTTString plain.username, length_writeMQTTString plain.password]
  split_ifs at protocol ⊢ <;> omega

end ConnectData

theorem readString_of_stands {buf : List UInt8} (stands : Stands buf off (writeCString string))
    (short : string.length < 65536) (inside : off + 2 + string.length ≤ enddata) :
    readString buf enddata off = some (string, off + (writeCString string).length) := by
  obtain ⟨length, text⟩ := readMQTTLenString_of_stands stands short inside
  rw [readString, length, Option.map_some, text, length_writeCString, Nat.add_assoc]

/-- The version and the flags behind the name of the protocol. -/
theorem protocol_spec {options : ConnectData} (version : options.mqttVersion = 3 ∨ options.mqttVersion = 4) :
    ∃ name, options.protocol = writeCString name ++ [UInt8.ofNat options.mqttVersion] ∧
      checkVersion name options.mqttVersion = true ∧
      name.length + 6 = if options.mqttVersion = 3 then 12 else if options.mqttVersion = 4 then 10 else 0 := by
  unfold ConnectData.protocol
  rcases version with three | four
  · rw [three]
    exact ⟨_, rfl, by decide, by decide⟩
  · rw [four]
    exact ⟨_, rfl, by decide, by decide⟩

theorem readWill_of_stands {buf : List UInt8} {options : ConnectData} (plain : options.Plain)
    (stands : Stands buf off (if options.willFlag then
      writeMQTTString options.will.topicName ++ writeMQTTString options.will.message else []))
    (inside : off + optional options.willFlag
      (options.will.topicName.strlen + 2 + options.will.message.strlen + 2) ≤ enddata)
    (small : enddata ≤ 65536) :
    readWill options.flags buf enddata off = some (options.request.will, off + optional options.willFlag
      (options.will.topicName.strlen + 2 + options.will.message.strlen + 2)) := by
  obtain ⟨_, _, _, _, flag, bits⟩ := options.flags_bits
  unfold readWill
  rw [flag]
  cases wanted : options.willFlag with
  | false =>
    simp only [ConnectData.request, wanted, Bool.false_eq_true, if_false, Nat.zero_ne_one, optional,
      Nat.add_zero]
  | true =>
    simp only [wanted, if_true, optional, writeMQTTString_single plain.willTopic,
      writeMQTTString_single plain.willMessage] at stands inside
    obtain ⟨qos, retained⟩ := bits wanted
    obtain ⟨topic, message⟩ := Stands.append.mp stands
    have topicLength := options.will.topicName.length_text
    have messageLength := options.will.message.length_text
    have width := length_writeCString options.will.topicName.text
    have first := readString_of_stands topic (by omega) (by omega : _ ≤ enddata)
    have second := readString_of_stands message (by omega) (by omega : _ ≤ enddata)
    have behind : off + (writeCString options.will.topicName.text).length +
        (writeCString options.will.message.text).length =
          off + (options.will.topicName.strlen + 2 + options.will.message.strlen + 2) := by
      rw [length_writeCString, length_writeCString]
      omega
    simp only [if_true, first, second, Option.bind_some, Option.map_some, qos, retained, behind,
      ConnectData.request, wanted, optional]

/-- The password, where a username came before it. -/
theorem readCredentials_of_stands {buf : List UInt8} {options : ConnectData} (plain : options.Plain)
    (stands : Stands buf off ((if options.username.given then writeMQTTString options.username else []) ++
      (if options.password.given then writeMQTTString options.password else [])))
    (last : off + optional options.username.given (options.username.strlen + 2) +
      optional options.password.given (options.password.strlen + 2) = enddata) (small : enddata ≤ 65536) :
    readCredentials options.flags buf enddata off =
      if options.Credible then some (options.request.username, options.request.password) else none := by
  obtain ⟨_, _, userFlag, passFlag, _, _⟩ := options.flags_bits
  have userLength := options.username.length_text
  have passLength := options.password.length_text
  unfold readCredentials
  rw [userFlag, passFlag]
  unfold ConnectData.Credible
  by_cases user : options.username.given = true
  · simp only [user, if_true, optional, writeMQTTString_single plain.username] at stands last
    obtain ⟨username, behind⟩ := Stands.append.mp stands
    have width := length_writeCString options.username.text
    by_cases pass : options.password.given = true
    · simp only [pass, if_true, writeMQTTString_single plain.password] at behind last
      have first := readString_of_stands username (by omega) (by omega : _ ≤ enddata)
      have room : ¬ enddata < off + 3 := by omega
      by_cases empty : options.password.strlen = 0
      · have cut : enddata < off + (writeCString options.username.text).length + 3 := by omega
        simp [room, cut, empty, first, user, pass]
      · have more : ¬ enddata < off + (writeCString options.username.text).length + 3 := by omega
        have filled : 0 < options.password.strlen := Nat.pos_of_ne_zero empty
        have second := readString_of_stands behind (by omega) (by omega : _ ≤ enddata)
        simp [room, more, filled, first, second, ConnectData.request, user, pass]
    · simp only [pass, Bool.false_eq_true, if_false, Nat.add_zero] at last
      by_cases empty : options.username.strlen = 0
      · have cut : enddata < off + 3 := by omega
        simp [cut, empty, user, pass]
      · have first := readString_of_stands username (by omega) (by omega : _ ≤ enddata)
        have room : ¬ enddata < off + 3 := by omega
        have filled : 0 < options.username.strlen := Nat.pos_of_ne_zero empty
        simp [room, filled, first, ConnectData.request, user, pass]
  · by_cases pass : options.password.given = true
    · simp [user, pass]
    · simp [ConnectData.request, user, pass]

/-- The options of `mqtt_start`, with the strings of the configuration. -/
def startOptions (cid userName passwd : List UInt8) : ConnectData where
  mqttVersion := 4
  clientID := ⟨some cid, []⟩
  keepAliveInterval := 30
  cleansession := 1
  willFlag := true
  will := ⟨⟨some (ascii "$thing/up/property/OJ2O020V2M/dev_001"), []⟩, ⟨some (ascii "Goodbye!"), []⟩, 0, 1⟩
  username := ⟨some userName, []⟩
  password := ⟨some passwd, []⟩

theorem startOptions_plain (cid userName passwd : List UInt8) : (startOptions cid userName passwd).Plain :=
  ⟨.inr rfl, .inr rfl, .inr rfl, .inr rfl, .inr rfl, .inr rfl⟩

end RemoteBoot.Mqtt
