import RemoteBoot.Config.Info

/-! `file_config.c`: reading `config.txt` character by character into the flat
struct, and writing the five strings back line by line. -/
namespace RemoteBoot.Config

def newline : UInt8 := 10

/-- Locals of the read loop: `temp[0 .. index)`, `line_index` and the struct. -/
structure Reader where
  temp : List UInt8
  lineIndex : Nat
  config : ConfigInfo

/-- One turn of `while(read(fd, &ch, 1) == 1)`. Storing past `temp` or past the
struct is undefined. -/
def Reader.step (r : Reader) (ch : UInt8) : Option Reader :=
  if ch ≠ newline then
    if r.temp.length < strSize then some { r with temp := r.temp ++ [ch] } else none
  else do
    let config ← r.config.setString (r.lineIndex * strSize) r.temp
    some ⟨[], r.lineIndex + 1, config⟩

def readFailed : String := "Read config file failed, please check or re-config...\r\n"

/-- `init_from_file`. The input is `none` when `open` fails, else the characters
that `read` delivers before it first returns something other than 1. An error
carries the text printed beside `RT_ERROR`; the struct is then untouched. -/
def initFromFile (input : Option (List UInt8)) (config : ConfigInfo) :
    Option (Except String ConfigInfo) :=
  match input with
  | none => some (.error readFailed)
  | some content => do
    let r ← content.foldlM Reader.step ⟨[], 0, config⟩
    some (.ok r.config)

def writeCalls (info : ConfigInfo) : List (List UInt8) :=
  [info.str .wifiName, [newline],
   info.str .wifiPassword, [newline],
   info.str .mqttUsername, [newline],
   info.str .mqttPasswd, [newline],
   info.str .macAddress, [newline]]

/-- How the card answers a save: whether `open` succeeds, and how many leading
characters of each `write` call reach it. `none` stands for a full write. -/
structure Card where
  opened : Bool
  landed : Nat → Option Nat

def Card.reliable : Card := ⟨true, fun _ => none⟩

def Card.written (card : Card) (info : ConfigInfo) : List UInt8 :=
  ((writeCalls info).mapIdx fun j data => data.take ((card.landed j).getD data.length)).flatten

def writeFailed : String := "Write config file failed, please check or re-config...\r\n"

/-- `write_to_file`: its result beside the file it leaves. No result of `write`
is looked at. A file is `none` while it does not exist. -/
def writeToFile (card : Card) (file : Option (List UInt8)) (info : ConfigInfo) :
    Except String Unit × Option (List UInt8) :=
  if card.opened then (.ok (), some (card.written info)) else (.error writeFailed, file)

/-- The file operations of a save, `open` with `O_TRUNC` first. -/
inductive FileOp where
  | openTrunc
  | write (data : List UInt8)
  | close

def saveOps (info : ConfigInfo) : List FileOp :=
  .openTrunc :: (writeCalls info).map .write ++ [.close]

def FileOp.perform (file : Option (List UInt8)) : FileOp → Option (List UInt8)
  | .openTrunc => some []
  | .write data => file.map (· ++ data)
  | .close => file

def interrupted (k : Nat) (file : Option (List UInt8)) (info : ConfigInfo) :
    Option (List UInt8) :=
  ((saveOps info).take k).foldl FileOp.perform file

end RemoteBoot.Config
