import Mathlib.Data.List.Basic

/-! The static MQTT client of `mqtt.c`: its two flags, what starts and stops a
worker, and the worker thread as far as the flags, the connection and the
command pipe go. -/
namespace RemoteBoot.Mqtt

/-- Where a `paho_mqtt_thread` is. -/
inductive Worker where
  | creatingPipe | connecting | subscribing | looping
  deriving DecidableEq, Repr

/-- Between a successful `MQTTConnect` and the next disconnect. -/
def Worker.Connected : Worker → Prop
  | .creatingPipe | .connecting => False
  | .subscribing | .looping => True

instance : DecidablePred Worker.Connected := fun w => by
  cases w <;> unfold Worker.Connected <;> infer_instance

/-- `is_started`, `is_online`, the static of the online callback, the client's
`isconnected`, the commands in its pipe, its workers, and what the online callback
handed to `paho_mqtt_publish`, whose result it drops. -/
structure Client where
  isStarted : Bool
  isOnline : Bool
  isFirstTimeOnline : Bool
  isconnected : Bool
  commands : Nat
  workers : List Worker
  handed : List String
  deriving DecidableEq

namespace Client

def initial : Client := ⟨false, false, false, false, 0, [], []⟩

def firstReport : String :=
  "\x7b\"method\":\"report\",\"params\":\x7b\"page\":0\x7d\x7d"

def onlineCallback (c : Client) : Client :=
  if c.isFirstTimeOnline then { c with isOnline := true }
  else { c with isOnline := true, isFirstTimeOnline := true,
                handed := c.handed ++ [firstReport] }

@[simp] theorem onlineCallback_isStarted (c : Client) : c.onlineCallback.isStarted = c.isStarted := by
  unfold onlineCallback
  split <;> rfl

@[simp] theorem onlineCallback_isconnected (c : Client) :
    c.onlineCallback.isconnected = c.isconnected := by
  unfold onlineCallback
  split <;> rfl

@[simp] theorem onlineCallback_commands (c : Client) : c.onlineCallback.commands = c.commands := by
  unfold onlineCallback
  split <;> rfl

def offlineCallback (c : Client) : Client := { c with isOnline := false }

/-- What a start finds: both buffers, the publish mutex, the thread. -/
structure Alloc where
  buf : Bool
  readbuf : Bool
  mutex : Bool
  thread : Bool

/-- `paho_mqtt_start`. A thread that could not be created is not reported. -/
def pahoMqttStart (alloc : Alloc) (c : Client) : Int × Client :=
  if alloc.mutex then
    (0, if alloc.thread then { c with workers := c.workers ++ [.creatingPipe] } else c)
  else (-1, c)

/-- `mqtt_start`. The result of `paho_mqtt_start` is dropped. -/
def mqttStart (alloc : Alloc) (c : Client) : Int × Client :=
  if c.isStarted then (-1, c)
  else
    let c := { c with isconnected := false }
    if alloc.buf && alloc.readbuf then (0, { (pahoMqttStart alloc c).2 with isStarted := true })
    else (-1, c)

/-- `MQTT_CMD`, with whether the command could be copied and written. -/
def mqttCmd (written : Bool) (c : Client) : Int × Client :=
  if c.isconnected && written then (0, { c with commands := c.commands + 1 }) else (-1, c)

def mqttStop (written : Bool) (c : Client) : Int × Client :=
  mqttCmd written { c with isStarted := false }

/-- How the next step of a worker ends: it succeeds, it fails or the connection
is lost, or the worker reads a `DISCONNECT` from the pipe. -/
inductive Outcome where
  | succeed | fail | command
  deriving DecidableEq, Repr

/-- `_mqtt_disconnect` and `_mqtt_restart` -/
def disconnect (c : Client) : Client := { c with isconnected := false }.offlineCallback

/-- One step of `paho_mqtt_thread` number `k`. -/
def workerStep (c : Client) (k : Nat) (outcome : Outcome) : Option Client := do
  let w ← c.workers[k]?
  let goto (w : Worker) : List Worker := c.workers.set k w
  match w, outcome with
  | .creatingPipe, .succeed => some { c with workers := goto .connecting, commands := 0 }
  | .creatingPipe, .fail => some { c with workers := c.workers.eraseIdx k }
  | .connecting, .succeed =>
    -- `MQTTConnect` refuses to connect a client that is connected already.
    if c.isconnected then some { c.offlineCallback with workers := goto .connecting }
    else some { c with workers := goto .subscribing, isconnected := true }
  | .connecting, .fail => some { c.offlineCallback with workers := goto .connecting }
  | .subscribing, .succeed =>
    if c.isconnected then some { c.onlineCallback with workers := goto .looping }
    else some { c.disconnect with workers := goto .connecting }
  | .subscribing, .fail => some { c.disconnect with workers := goto .connecting }
  | .looping, .succeed => some c
  | .looping, .fail => some { c.disconnect with workers := goto .connecting }
  | .looping, .command =>
    -- `_mqtt_disconnect_exit`, which calls no callback
    if c.commands = 0 then none
    else some { c with isconnected := false, commands := 0, workers := c.workers.eraseIdx k }
  | _, .command => none

end Client
end RemoteBoot.Mqtt
