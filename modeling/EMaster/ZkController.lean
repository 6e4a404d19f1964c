import EMaster.Runs

/-!
# Threads of the panel controller

One thread of the controller drains the connection events, watches the connection and
reconnects. Other threads switch the driver on and off, connect and disconnect. Each section
under a lock is one step, and so is each access to an atomic flag. What the panel answers
and whether an interval has passed is left open.
-/

set_option autoImplicit false

namespace EMaster.Zk

inductive Worker where
  | draining
  | gate
  | awake
  | online
  | failing
  | arming
  | offline
  | attempting
  | reached
  | cleared
  | queueing (event : Bool)
  deriving DecidableEq, Repr

inductive Caller where
  | enabling
  | disabling
  | stopping
  | dropping
  | connecting
  | dialing
  | dialed (ok : Bool)
  | queueing (event unlocks : Bool)
  | returned
  deriving DecidableEq, Repr

inductive Call where
  | setEnabled (enabled : Bool)
  | connect
  | disconnect
  deriving DecidableEq, Repr

/-- A call that disconnects holds the lock of the client until its event is queued. It is
noted whether the connection has been dropped and no connect has been called since, and
whether such a call has returned and nothing was switched on since. -/
structure Controller where
  enabled : Bool := true
  connected : Bool := false
  reconnecting : Bool := false
  autoReconnect : Bool := true
  clientLocked : Bool := false
  connectionEvents : List Bool := []
  delivered : List Bool := []
  worker : Worker := .draining
  callers : List Caller := []
  dropped : Bool := false
  stopped : Bool := false
  deriving DecidableEq, Repr

inductive Event where
  | worker (outcome : Bool)
  | caller (n : ℕ) (outcome : Bool)
  | call (call : Call)
  deriving DecidableEq, Repr

namespace Controller

/-- What follows SetConnected in a heartbeat that failed, or in a reconnect. -/
def afterSet (connected : Bool) : Worker := if connected then .draining else .arming

variable (s : Controller)

/-- The first section of SetConnected, on the thread of the controller. -/
def workerSets (connected : Bool) : Controller :=
  if s.connected = connected then { s with worker := afterSet connected }
  else { s with connected := connected, worker := .queueing connected }

def moveTo (n : ℕ) (place : Caller) : Controller := { s with callers := s.callers.set n place }

def workerStep (outcome : Bool) : Controller :=
  match s.worker with
  | .draining =>
    match s.connectionEvents with
    | [] => { s with worker := .gate }
    | event::events =>
      { s with connectionEvents := events, delivered := s.delivered++[event] }
  | .gate => { s with worker := if s.enabled then .awake else .draining }
  | .awake => { s with worker := if s.connected then .online else .offline }
  | .online =>
    -- The heartbeat may be due, and the panel may not answer it.
    if s.clientLocked then s else { s with worker := if outcome then .failing else .draining }
  | .failing => s.workerSets false
  | .arming =>
    { s with reconnecting := s.reconnecting || s.autoReconnect, worker := .draining }
  | .offline =>
    { s with worker := if s.reconnecting && outcome then .attempting else .draining }
  | .attempting =>
    if s.clientLocked then s else { s with worker := if outcome then .reached else .draining }
  | .reached => { s with reconnecting := false, worker := .cleared }
  | .cleared => s.workerSets true
  | .queueing event =>
    { s with connectionEvents := s.connectionEvents++[event], worker := afterSet event }

def returns : Controller := { s with stopped := true }

def callerStep (n : ℕ) (outcome : Bool) : Controller :=
  match s.callers[n]? with
  | some .enabling => { s with enabled := true }.moveTo n .returned
  | some .disabling =>
    if s.enabled then { s with enabled := false }.moveTo n .stopping
    else { s with enabled := false }.returns.moveTo n .returned
  | some .stopping => { s with reconnecting := false }.moveTo n .dropping
  | some .dropping =>
    if s.clientLocked then s
    else if s.connected then
      { s with connected := false, clientLocked := true, dropped := true }.moveTo n
        (.queueing false true)
    else { s with dropped := true }.returns.moveTo n .returned
  | some .connecting => { s with reconnecting := false }.moveTo n .dialing
  | some .dialing =>
    if s.clientLocked then s
    else s.moveTo n (if s.enabled then .dialed outcome else .returned)
  | some (.dialed ok) =>
    if s.connected = ok then s.moveTo n .returned
    else { s with connected := ok }.moveTo n (.queueing ok false)
  | some (.queueing event unlocks) =>
    let queued := { s with connectionEvents := s.connectionEvents++[event] }.moveTo n .returned
    if unlocks then { queued with clientLocked := false }.returns else queued
  | some .returned => s
  | none => s

def called : Call → Controller
  | .setEnabled true => { s with callers := s.callers++[.enabling], stopped := false }
  | .setEnabled false => { s with callers := s.callers++[.disabling] }
  | .connect =>
    { s with callers := s.callers++[.connecting], dropped := false, stopped := false }
  | .disconnect => { s with callers := s.callers++[.stopping] }

def step : Event → Controller
  | .worker outcome => s.workerStep outcome
  | .caller n outcome => s.callerStep n outcome
  | .call call => s.called call

end Controller

end EMaster.Zk
