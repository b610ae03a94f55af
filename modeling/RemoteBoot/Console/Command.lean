import Mathlib.Logic.Function.Basic
import RemoteBoot.Config.File

/-! `cmd_handle` of `device_config.c`: the menu and the three entries, over the
static `config` and the static scratch struct. What it prints and which structs
it hands to `write_to_file` is its list of actions. -/
namespace RemoteBoot.Console
open Config

/-- `enum cmd`, the values of `cur_cmd`. -/
inductive Cmd where
  | null | wifi | mqtt | mac
  deriving DecidableEq, Repr

structure State where
  curCmd : Cmd
  config : ConfigInfo
  curLvl : Nat
  configTemp : ConfigInfo

inductive Action where
  | kprintf (text : String)
  /-- `write_to_file("config.txt", &config)` -/
  | writeToFile (info : ConfigInfo)

def guideInfoPrint : List Action :=
  [.kprintf "\r\n",
   .kprintf "********************\r\n",
   .kprintf "*1.Wifi     change *\r\n",
   .kprintf "*2.MQTT     change *\r\n",
   .kprintf "*3.MAC      change *\r\n",
   .kprintf "******ESC exit******\r\n"]

/-- `cur_cmd = *data - '0'` for the digits that pass the menu's range check. -/
def Cmd.ofDigit (digit : UInt8) : Cmd :=
  if digit = 49 then .wifi else if digit = 50 then .mqtt else .mac

/-- The member for the first line of an entry of two lines. -/
def Cmd.first : Cmd → Option Field
  | .wifi => some .wifiName
  | .mqtt => some .mqttUsername
  | .null | .mac => none

def Cmd.prompt : Cmd → List Action
  | .null => []
  | .wifi => [.kprintf "please input wifi name: "]
  | .mqtt => [.kprintf "please input mqtt user name: "]
  | .mac => [.kprintf "please input MAC address: "]

/-- `CMD_NULL`: one character from `'1'` to `'3'` selects an entry. -/
def menu (s : State) (data : List UInt8) (dataLen : Nat) : State × List Action :=
  if dataLen > 1 ∨ data.headD 0 > 51 ∨ data.headD 0 < 49 then
    (s, .kprintf "Error, please input Number 1-3\r\n" :: guideInfoPrint)
  else
    let cmd := Cmd.ofDigit (data.headD 0)
    ({ s with curCmd := cmd, curLvl := 1 }, cmd.prompt)

/-- An entry of two lines. The first goes to the scratch struct; the second does
too, then both members are copied whole and the struct is saved. -/
def pairEntry (first second : Field) (ask saved : String) (s : State) (data : List UInt8)
    (dataLen : Nat) : Option (State × List Action) :=
  if s.curLvl = 1 then do
    let temp ← s.configTemp.setString first.offset (data.take dataLen)
    some ({ s with configTemp := temp, curLvl := s.curLvl + 1 }, [.kprintf ask])
  else if s.curLvl = 2 then do
    let temp ← s.configTemp.setString second.offset (data.take dataLen)
    let config ← s.config.memcpy first.offset (temp.slot first)
    let config ← config.memcpy second.offset (temp.slot second)
    some ({ curCmd := .null, config, curLvl := 0, configTemp := temp },
      .writeToFile config :: .kprintf saved :: guideInfoPrint)
  else some (s, [])

def wifiEntry : State → List UInt8 → Nat → Option (State × List Action) :=
  pairEntry .wifiName .wifiPassword "please input wifi password: " "wifi info saved!\r\n"

def mqttEntry : State → List UInt8 → Nat → Option (State × List Action) :=
  pairEntry .mqttUsername .mqttPasswd "please input mqtt password: " "mqtt info saved!\r\n"

def inDigitRange (ch : UInt8) : Bool := ch ≤ 102 && ch ≥ 48

/-- The test of the `MAC_CMD` branch. The five separators are not looked at. -/
def macAccepted (data : List UInt8) (dataLen : Nat) : Bool :=
  dataLen == 17 && [0, 1, 3, 4, 6, 7, 9, 10, 12, 13, 15, 16].all fun i => inDigitRange (data.getD i 0)

def macEntry (s : State) (data : List UInt8) (dataLen : Nat) : Option (State × List Action) :=
  if macAccepted data dataLen then do
    let config ← s.config.setString Field.macAddress.offset (data.take dataLen)
    some ({ s with config, curCmd := .null },
      .writeToFile config :: .kprintf "MAC address saved!\r\n" :: guideInfoPrint)
  else some (s, [.kprintf "Error, please re-input: "])

/-- `cmd_handle`. `data` is the line buffer, of which `data_len` characters count. -/
def cmdHandle (s : State) (data : List UInt8) (dataLen : Nat) : Option (State × List Action) :=
  match s.curCmd with
  | .null => some (menu s data dataLen)
  | .wifi => wifiEntry s data dataLen
  | .mqtt => mqttEntry s data dataLen
  | .mac => macEntry s data dataLen

def saves (actions : List Action) : List ConfigInfo :=
  actions.filterMap fun
    | .kprintf _ => none
    | .writeToFile info => some info

@[simp] theorem saves_guide : saves guideInfoPrint = [] := rfl

@[simp] theorem saves_prompt (cmd : Cmd) : saves cmd.prompt = [] := by
  cases cmd <;> rfl

@[simp] theorem saves_append (a b : List Action) : saves (a ++ b) = saves a ++ saves b :=
  List.filterMap_append

@[simp] theorem saves_kprintf (text : String) (rest : List Action) :
    saves (.kprintf text :: rest) = saves rest := rfl

@[simp] theorem saves_write (info : ConfigInfo) (rest : List Action) :
    saves (.writeToFile info :: rest) = info :: saves rest := rfl

theorem menu_select (s : State) {data : List UInt8} (nonempty : 0 < data.length) :
    menu s data data.length =
      if data = [49] ∨ data = [50] ∨ data = [51] then
        ({ s with curCmd := Cmd.ofDigit (data.headD 0), curLvl := 1 },
          (Cmd.ofDigit (data.headD 0)).prompt)
      else (s, .kprintf "Error, please input Number 1-3\r\n" :: guideInfoPrint) := by
  match data, nonempty with
  | [digit], _ =>
    have range : (digit > 51 ∨ digit < 49) ↔ ¬ (digit = 49 ∨ digit = 50 ∨ digit = 51) := by
      simp only [gt_iff_lt, UInt8.lt_iff_toNat_lt, ← UInt8.toNat_inj, UInt8.reduceToNat]
      omega
    simp only [menu, List.length_singleton, List.headD_cons, gt_iff_lt, Nat.lt_irrefl, false_or,
      List.cons.injEq, and_true]
    by_cases chosen : digit = 49 ∨ digit = 50 ∨ digit = 51
    · rw [if_neg (fun out => range.mp out chosen), if_pos chosen]
    · rw [if_pos (range.mpr chosen), if_neg chosen]
  | first :: second :: rest, _ => simp [menu]

section Pair
variable {first second : Field} {ask saved : String}

theorem pairEntry_first (s : State) (fresh : s.curLvl = 1) {l : List UInt8}
    (fits : first.offset + l.length < 5 * strSize) :
    ∃ temp, pairEntry first second ask saved s l l.length =
        some ({ s with configTemp := temp, curLvl := 2 }, [.kprintf ask]) ∧
      ∃ rest, temp.slot first = (l ++ 0 :: rest).take strSize := by
  obtain ⟨temp, stored, cells, _⟩ := s.configTemp.setString_spill first fits
  refine ⟨temp, ?_, cells⟩
  rw [pairEntry, if_pos fresh, List.take_length, stored, fresh]
  rfl

theorem pairEntry_second (s : State) (order : first.index < second.index) (waiting : s.curLvl = 2)
    {l : List UInt8} (fits : second.offset + l.length < 5 * strSize) :
    ∃ temp config, pairEntry first second ask saved s l l.length =
        some (⟨.null, config, 0, temp⟩, .writeToFile config :: .kprintf saved :: guideInfoPrint) ∧
      config.slot first = s.configTemp.slot first ∧
      (∃ rest, config.slot second = (l ++ 0 :: rest).take strSize) ∧
      ∀ g, g ≠ first → g ≠ second → config.slot g = s.config.slot g := by
  obtain ⟨temp, stored, ⟨rest, cells⟩, frame⟩ := s.configTemp.setString_spill second fits
  obtain ⟨middle, copied, firstCells, firstFrame⟩ := s.config.memcpy_member temp first
  obtain ⟨config, copied', secondCells, secondFrame⟩ := middle.memcpy_member temp second
  have different : first ≠ second := by
    rintro rfl
    omega
  refine ⟨temp, config, ?_, ?_, ⟨rest, secondCells.trans cells⟩, fun g notFirst notSecond => ?_⟩
  · rw [pairEntry, if_neg (by omega), if_pos waiting, List.take_length, stored,
      Option.bind_eq_bind, Option.bind_some, copied]
    simp only [Option.bind_some, copied']
  · rw [secondFrame first different, firstCells, frame first order]
  · rw [secondFrame g notSecond, firstFrame g notFirst]

theorem pairEntry_neither (s : State) (notFirst : s.curLvl ≠ 1) (notSecond : s.curLvl ≠ 2)
    (data : List UInt8) (dataLen : Nat) :
    pairEntry first second ask saved s data dataLen = some (s, []) := by
  rw [pairEntry, if_neg notFirst, if_neg notSecond]

/-- Both texts of a completed entry reach the configuration, and nothing else. -/
theorem pairEntry_completes (s : State) (order : first.index < second.index) (waiting : s.curLvl = 2)
    (good : s.config.Terminated) (held : (s.configTemp.str first).length < strSize)
    {l : List UInt8} (short : l.length < strSize) (noNul : 0 ∉ l) :
    ∃ temp config, pairEntry first second ask saved s l l.length =
        some (⟨.null, config, 0, temp⟩, .writeToFile config :: .kprintf saved :: guideInfoPrint) ∧
      config.str =
        Function.update (Function.update s.config.str first (s.configTemp.str first)) second l ∧
      config.Terminated := by
  obtain ⟨temp, config, handled, firstCells, ⟨_, secondCells⟩, frame⟩ :=
    pairEntry_second s order waiting (second.room short)
  have strings : config.str =
      Function.update (Function.update s.config.str first (s.configTemp.str first)) second l := by
    funext g
    by_cases isSecond : g = second
    · rw [isSecond, Function.update_self]
      exact (ConfigInfo.str_of_spill secondCells short).trans (Bytes.cstring_of_not_mem noNul)
    · rw [Function.update_of_ne isSecond]
      by_cases isFirst : g = first
      · rw [isFirst, Function.update_self, ConfigInfo.str_congr firstCells held]
      · rw [Function.update_of_ne isFirst, ConfigInfo.str_congr (frame g isFirst isSecond) (good g)]
  refine ⟨temp, config, handled, strings, fun g => ?_⟩
  rw [strings]
  by_cases isSecond : g = second
  · rw [isSecond, Function.update_self]
    exact short
  · rw [Function.update_of_ne isSecond]
    by_cases isFirst : g = first
    · rw [isFirst, Function.update_self]
      exact held
    · rw [Function.update_of_ne isFirst]
      exact good g

end Pair

theorem macEntry_refused (s : State) {data : List UInt8} {dataLen : Nat}
    (refused : ¬ macAccepted data dataLen) :
    macEntry s data dataLen = some (s, [.kprintf "Error, please re-input: "]) := by
  rw [macEntry, if_neg refused]

theorem macAccepted_length {data : List UInt8} {dataLen : Nat}
    (accepted : macAccepted data dataLen) : dataLen = 17 := by
  simp only [macAccepted, Bool.and_eq_true, beq_iff_eq] at accepted
  exact accepted.1

theorem macAccepted_short {l : List UInt8} (accepted : macAccepted l l.length) :
    l.length < strSize := by
  rw [macAccepted_length accepted]
  decide

theorem macEntry_stores (s : State) {l : List UInt8} (accepted : macAccepted l l.length) :
    ∃ config, macEntry s l l.length = some ({ s with config, curCmd := .null },
        .writeToFile config :: .kprintf "MAC address saved!\r\n" :: guideInfoPrint) ∧
      config.slot .macAddress = l ++ 0 :: (s.config.slot .macAddress).drop (l.length + 1) ∧
      ∀ g ≠ .macAddress, config.slot g = s.config.slot g := by
  obtain ⟨config, stored, cells, frame⟩ :=
    s.config.setString_slot .macAddress (macAccepted_short accepted)
  refine ⟨config, ?_, cells, frame⟩
  rw [macEntry, if_pos accepted, List.take_length, stored]
  rfl

theorem macEntry_accepted (s : State) {l : List UInt8} (accepted : macAccepted l l.length)
    (noNul : 0 ∉ l) :
    ∃ config, macEntry s l l.length = some ({ s with config, curCmd := .null },
        .writeToFile config :: .kprintf "MAC address saved!\r\n" :: guideInfoPrint) ∧
      config.str .macAddress = l ∧ ∀ g ≠ .macAddress, config.slot g = s.config.slot g := by
  obtain ⟨config, entered, cells, frame⟩ := macEntry_stores s accepted
  exact ⟨config, entered, (ConfigInfo.str_of_slot cells (macAccepted_short accepted)).trans
    (Bytes.cstring_of_not_mem noNul), frame⟩

end RemoteBoot.Console
