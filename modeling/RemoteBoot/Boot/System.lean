import Mathlib.Data.List.Basic
import Mathlib.Logic.Function.Basic
import RemoteBoot.Transition
import RemoteBoot.Mqtt.Client
import RemoteBoot.Mqtt.Callback

/-! `system_boot`, run by `main` and by the shell command of the same name, next
to the MQTT workers and the threads it creates. A run of the function is a
program counter; `common_param_init` stores to the three global handles. -/
namespace RemoteBoot.Boot
open Mqtt

/-- The globals of `common_param.c` that hold an IPC object. -/
inductive Ipc where
  | computerStatusMail | computerOnSem | pageMail
  deriving DecidableEq, Repr

inductive Kind where
  | statusReport | statusCheck | wol | ui | keyCheck
  deriving DecidableEq, Repr

/-- The object whose handle the thread reads when it goes to wait. -/
def Kind.waitsFor : Kind → Option Ipc
  | .statusReport => some .computerStatusMail
  | .wol => some .computerOnSem
  | .ui => some .pageMail
  | .statusCheck | .keyCheck => none

/-- What a run of `system_boot` does next. `create` are the statements of
`common_param_init`, `spawn` the thread creations, in the order of the source. -/
inductive Pc where
  | sdWait (index : Nat)
  | configCheck
  | wlanWait
  | wlanTry (i : Nat)
  | ntpSync
  | mqttStart
  | onlineWait (index : Nat)
  | create (object : Ipc)
  | spawn (kind : Kind)
  | running
  | failed
  deriving DecidableEq, Repr

def Ipc.next : Ipc → Pc
  | .computerStatusMail => .create .computerOnSem
  | .computerOnSem => .create .pageMail
  | .pageMail => .spawn .statusReport

def Kind.next : Kind → Pc
  | .statusReport => .spawn .statusCheck
  | .statusCheck => .spawn .wol
  | .wol => .spawn .ui
  | .ui => .spawn .keyCheck
  | .keyCheck => .running

/-- One run of `system_boot` and the texts it showed on the display. -/
structure Activation where
  pc : Pc
  shown : List String
  deriving DecidableEq

def Activation.fresh : Activation := ⟨.sdWait 0, []⟩

def Activation.goto (a : Activation) (pc : Pc) (texts : List String) : Activation :=
  ⟨pc, a.shown ++ texts⟩

inductive Wlan where
  | ok | eio | failed
  deriving DecidableEq, Repr

/-- What the stages of a boot meet: `sd_status`, the result of `config_check`,
of `rt_wlan_connect` and of the time request, and what a start of MQTT finds. -/
structure Outcome where
  sdStatus : Bool
  config : Bool
  wlan : Wlan
  ntp : Bool
  alloc : Client.Alloc

def Outcome.smooth : Outcome := ⟨true, true, .ok, true, ⟨true, true, true, true⟩⟩

structure Thread where
  kind : Kind
  blockedOn : Option Nat
  deriving DecidableEq

/-- `boots` has the run from `main` first; `objects` counts the IPC objects
created so far; `signals` records the handle each signal of the MQTT callback
used, `none` for `RT_NULL`. -/
structure System where
  boots : List Activation
  client : Client
  handles : Ipc → Option Nat
  objects : Nat
  threads : List Thread
  signals : List (Option Nat)

inductive Move where
  | boot (k : Nat) (outcome : Outcome)
  /-- The shell command. The shell waits for it to return. -/
  | shell
  | stop (written : Bool)
  | worker (k : Nat) (outcome : Client.Outcome)
  /-- A worker delivers a document of the control topic. -/
  | deliver (k : Nat) (payload : List UInt8)
  | thread (j : Nat)

namespace System

def initial : System := ⟨[.fresh], .initial, fun _ => none, 0, [], []⟩

/-- One statement of `system_boot`. A creation that fails stops the board at the
assertion behind it and is no step. -/
def bootStep (s : System) (a : Activation) (outcome : Outcome) : Option (System × Activation) :=
  match a.pc with
  | .sdWait index =>
    if outcome.sdStatus then some (s, a.goto .configCheck [])
    else if index + 1 = 100 then some (s, a.goto .failed ["Please check sd card"])
    else some (s, a.goto (.sdWait (index + 1)) [])
  | .configCheck =>
    if outcome.config then some (s, a.goto .wlanWait ["Read config successed"])
    else some (s, a.goto .failed ["Read config failed"])
  | .wlanWait =>
    if outcome.wlan = .eio then some (s, a) else some (s, a.goto (.wlanTry 0) [])
  | .wlanTry i =>
    if outcome.wlan = .ok then some (s, a.goto .ntpSync ["WIFI connected"])
    else if i + 1 = 10 then some (s, a.goto .failed ["Connect wifi failed"])
    else some (s, a.goto (.wlanTry (i + 1)) [])
  | .ntpSync => if outcome.ntp then some (s, a.goto .mqttStart []) else some (s, a)
  | .mqttStart =>
    some ({ s with client := (s.client.mqttStart outcome.alloc).2 }, a.goto (.onlineWait 0) [])
  | .onlineWait index =>
    if s.client.isOnline then
      some (s, a.goto (.create .computerStatusMail) ["MQTT connected", "System running..."])
    else if index + 1 = 100 then some (s, a.goto .failed ["Connect MQTT failed"])
    else some (s, a.goto (.onlineWait (index + 1)) [])
  | .create object =>
    some ({ s with handles := Function.update s.handles object (some s.objects),
                   objects := s.objects + 1 }, a.goto object.next [])
  | .spawn kind => some ({ s with threads := s.threads ++ [⟨kind, none⟩] }, a.goto kind.next [])
  | .running | .failed => none

/-- A thread that is not waiting reads the handle and waits; one that waits goes
on. The threads that never wait have nothing to do here. -/
def threadStep (s : System) (t : Thread) : Option Thread :=
  match t.blockedOn, t.kind.waitsFor with
  | some _, _ => some { t with blockedOn := none }
  | none, some object => (s.handles object).map fun handle => { t with blockedOn := some handle }
  | none, none => none

def target : Effect → Option Ipc
  | .releaseOn => some .computerOnSem
  | .mailPage _ => some .pageMail
  | .jsonError | .echoPage _ => none

variable {Item : Type}

def step (json : CJson Item) (s : System) : Move → Option System
  | .boot k outcome => do
    let a ← s.boots[k]?
    let (s, a) ← s.bootStep a outcome
    some { s with boots := s.boots.set k a }
  | .shell =>
    if s.boots.tail.all fun a => a.pc == .running || a.pc == .failed then
      some { s with boots := s.boots ++ [.fresh] }
    else none
  | .stop written => some { s with client := (s.client.mqttStop written).2 }
  | .worker k outcome => do
    let client ← s.client.workerStep k outcome
    some { s with client }
  | .deliver k payload =>
    if s.client.workers[k]? = some .looping then
      some { s with signals :=
        s.signals ++ ((mqttSubCallback json payload).filterMap target).map s.handles }
    else none
  | .thread j => do
    let t ← s.threads[j]?
    let t ← s.threadStep t
    some { s with threads := s.threads.set j t }

end System
end RemoteBoot.Boot
