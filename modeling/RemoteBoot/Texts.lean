import RemoteBoot.Decimal
import RemoteBoot.Config.Stores
import RemoteBoot.Mqtt.Client

/-! The texts that the application formats, each with the array that `rt_sprintf`
writes it to. Nothing compares a text with its array, so a text fits exactly when
what goes into it is short, and two of them are too long whatever goes in. -/
namespace RemoteBoot
open Bytes Decimal Config

structure TimeOfDay where
  hour : Nat
  min : Nat
  sec : Nat
  hour_lt : hour < 24
  min_lt : min < 60
  sec_lt : sec < 60

/-- A call of `rt_sprintf` with what it prints. -/
inductive Text where
  | time (now : TimeOfDay)
  | ssid (config : ConfigInfo)
  | passwd (config : ConfigInfo)
  | macAddress (config : ConfigInfo)
  | status (value : UInt32)
  | firstReport
  | readPath
  | writePath

namespace Text

def configPath : String := "config.txt"

/-- The characters. `%d` prints the unsigned status as a signed number. -/
def written : Text → List UInt8
  | time now => padded now.hour ++ ascii ":" ++ padded now.min ++ ascii ":" ++ padded now.sec ++ ascii "\r\n"
  | ssid config => ascii "ssid:" ++ config.str .wifiName
  | passwd config => ascii "passwd:" ++ config.str .wifiPassword
  | macAddress config => config.str .macAddress
  | status value => ascii "\x7b\"method\":\"report\",\"params\":\x7b\"status\":" ++
      signed value.toBitVec.toInt ++ ascii "\x7d\x7d"
  | firstReport => ascii Mqtt.Client.firstReport
  | readPath | writePath => ascii rootDir ++ ascii configPath

/-- `char str[10]`, twice `unsigned char str[40]`, `temp[STR_SIZE]` and `temp[50]`. -/
def size : Text → Nat
  | time _ | ssid _ | passwd _ | macAddress _ => 10
  | status _ | firstReport => 40
  | readPath => strSize
  | writePath => 50

def Fits (t : Text) : Prop := t.written.length + 1 ≤ t.size

instance (t : Text) : Decidable t.Fits := inferInstanceAs (Decidable (_ ≤ _))

/-- What goes in leaves room. A time and a status never do. -/
def Short : Text → Prop
  | time _ | status _ => False
  | ssid config => (config.str .wifiName).length ≤ 4
  | passwd config => (config.str .wifiPassword).length ≤ 2
  | macAddress config => (config.str .macAddress).length ≤ 9
  | firstReport | readPath | writePath => True

theorem length_padded {n : Nat} (small : n < 100) : (padded n).length = 2 := by
  have short : (decimal n).length ≤ 2 := (length_decimal_le_iff (by decide) n).mpr small
  rw [padded, List.length_append, List.length_replicate]
  omega

theorem length_time (now : TimeOfDay) : (time now).written.length = 10 := by
  have hour := length_padded (Nat.lt_trans now.hour_lt (by decide))
  have min := length_padded (Nat.lt_trans now.min_lt (by decide))
  have sec := length_padded (Nat.lt_trans now.sec_lt (by decide))
  simp only [written, List.length_append, hour, min, sec]
  rfl

theorem length_signed_pos (n : Int) : 0 < (signed n).length := by
  have positive := length_decimal_pos n.natAbs
  unfold signed
  split
  · exact Nat.succ_pos _
  · exact positive

/-- The literals alone fill the array. -/
theorem length_status (value : UInt32) :
    (status value).written.length = 40 + (signed value.toBitVec.toInt).length := by
  have before : (ascii "\x7b\"method\":\"report\",\"params\":\x7b\"status\":").length = 38 := rfl
  have after : (ascii "\x7d\x7d").length = 2 := rfl
  simp only [written, List.length_append, before, after]
  omega

/-- Each text fits its array exactly when it is short. -/
theorem fits_iff (t : Text) : t.Fits ↔ t.Short := by
  cases t with
  | time now =>
    simp only [Fits, length_time, size, Short]
    decide
  | ssid config =>
    have literal : (ascii "ssid:").length = 5 := rfl
    simp only [Fits, written, size, Short, List.length_append, literal]
    omega
  | passwd config =>
    have literal : (ascii "passwd:").length = 7 := rfl
    simp only [Fits, written, size, Short, List.length_append, literal]
    omega
  | macAddress config =>
    simp only [Fits, written, size, Short]
    omega
  | status value =>
    have positive := length_signed_pos value.toBitVec.toInt
    simp only [Fits, length_status, size, Short, iff_false, not_le]
    omega
  | firstReport | readPath | writePath => exact iff_of_true (by decide) trivial

/-- Midnight takes eleven bytes of ten. -/
theorem time_overruns : ¬ (time ⟨0, 0, 0, by decide, by decide, by decide⟩).Fits := by
  decide

end Text
end RemoteBoot
