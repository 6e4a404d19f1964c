import EMaster.Runs
import EMaster.Text

/-!
# Scripts that run at once

The manager keeps a map from script names to runtimes and gives each runtime an engine and a
thread. Starting, stopping and restarting are cut where they take or give back the manager's
lock and at each step on a runtime outside of it.
-/

set_option autoImplicit false

namespace EMaster
namespace Runtimes
open Runs Option List AList

inductive Phase where
  | kStarting
  | kActive
  | kStopping
  | kTerminal
  deriving DecidableEq, Repr

/-- How far the thread of a runtime is: before it says that it is active, before it has the
engine's lock, in the script, back from it, at its end. -/
inductive Thread where
  | fresh
  | entered
  | inScript
  | returned (ok : Bool)
  | ended
  deriving DecidableEq, Repr

structure Launch where
  (name path source : Text)
  fromSource : Bool
  deriving DecidableEq, Repr

/-- A runtime; `up` tells that its engine has a running script, `held` that its thread was not
yet taken to be joined, and `reaper` who is joining it. -/
structure Runtime where
  id : ℕ
  (name path source : Text)
  phase : Phase
  stopRequested : Bool
  reaper : Option ℕ
  held : Bool
  thread : Thread
  up : Bool
  lastSource : Text
  decided : Option (Except Text Unit)

def Runtime.isActive (r : Runtime) : Prop := r.phase ≠ .kTerminal

instance (r : Runtime) : Decidable r.isActive := inferInstanceAs (Decidable (_ ≠ _))

inductive Reply where
  | started
  | alreadyRunning (error : Text)
  | failed (error : Text)
  | stopped (was : Bool)
  | notRestarted (error : Text)
  deriving DecidableEq, Repr

inductive ReapPoint where
  | enter
  | take
  | interrupt (joinable : Bool)
  | engine (joinable : Bool)
  | join (joinable : Bool)
  | settle
  deriving DecidableEq, Repr

/-- How far a call has come; a reaping goes on with what the call does after it. -/
inductive Task where
  | startCheck (l : Launch)
  | startErase (l : Launch) (existing : ℕ)
  | startThread (l : Launch)
  | startStore (l : Launch) (runtime : ℕ)
  | startWait (runtime : ℕ)
  | stopCheck (name : Text)
  | restartFind (name : Text)
  | restartRead (name : Text) (runtime : ℕ)
  | restartReap (l : Launch) (runtime : ℕ)
  | reap (runtime : ℕ) (interrupt : Bool) (point : ReapPoint) (next : Task)
  | done (reply : Reply)
  deriving DecidableEq, Repr

structure Core where
  all : List Runtime
  map : AList (fun _ : Text => ℕ)

def Core.put (c : Core) (i : ℕ) (r : Runtime) : Core := { c with all := c.all.set i r }

def makeRuntime (c : Core) (l : Launch) : Runtime where
  id := c.all.length+1
  name := l.name
  path := if l.fromSource then [] else l.path
  source := l.source
  phase := .kStarting
  stopRequested := false
  reaper := none
  held := true
  thread := .fresh
  up := false
  lastSource := []
  decided := none

def reapStep (c : Core) (a i : ℕ) (r : Runtime) (interrupt : Bool) (next : Task) :
    ReapPoint → Core×Task
  | .enter =>
    match r.reaper with
    | some _ => (c,next)
    | none => (c.put i { r with reaper := some a },.reap i interrupt .take next)
  | .take =>
    (c.put i { r with held := false },
      .reap i interrupt (if interrupt then .interrupt r.held else .join r.held) next)
  | .interrupt joinable =>
    (c.put i { r with stopRequested := true, phase := .kStopping },
      .reap i interrupt (.engine joinable) next)
  | .engine joinable =>
    -- the script holds the engine's lock while it runs
    if r.thread = .inScript then (c,.reap i interrupt (.engine joinable) next)
    else (c.put i { r with up := false },.reap i interrupt (.join joinable) next)
  | .join joinable =>
    if joinable = true ∧ r.thread ≠ .ended then (c,.reap i interrupt (.join joinable) next)
    else (c,.reap i interrupt .settle next)
  | .settle => (c.put i { r with phase := .kTerminal,reaper := none },next)

/-- One step of the call at an index; the outcome tells whether a script file is there, or
whether the wait for a start is over. -/
def advance (c : Core) (a : ℕ) (outcome : Bool) : Task → Core×Task
  | .startCheck l =>
    if l.fromSource = false ∧ outcome = false then
      (c,.done (.failed ("script not found: "++l.path)))
    else
      match c.map.lookup l.name with
      | none => (c,.startThread l)
      | some i =>
        match c.all[i]? with
        | none => (c,.startThread l)
        | some r =>
          if r.isActive then
            (c,.done (.alreadyRunning (l.name++" is already running")))
          else (c,.reap i false .enter (.startErase l i))
  | .startErase l existing =>
    if c.map.lookup l.name = some existing then
      ({ c with map := c.map.erase l.name },.startThread l)
    else (c,.startThread l)
  | .startThread l =>
    -- the thread runs from here on, before anything else can see the runtime
    ({ c with all := c.all++[makeRuntime c l] },.startStore l c.all.length)
  | .startStore l i => ({ c with map := c.map.insert l.name i },.startWait i)
  | .startWait i =>
    match c.all[i]?.bind (·.decided) with
    | some (.ok ()) => (c,.done .started)
    | some (.error error) => (c,.done (.failed error))
    | none => if outcome then (c,.done .started) else (c,.startWait i)
  | .stopCheck name =>
    match c.map.lookup name with
    | none => (c,.done (.stopped false))
    | some i =>
      match c.all[i]? with
      | none => (c,.done (.stopped false))
      | some r =>
        if r.isActive then (c,.reap i true .enter (.done (.stopped true)))
        else (c,.done (.stopped false))
  | .restartFind name =>
    match c.map.lookup name with
    | none => (c,.done (.notRestarted ("no runtime named "++name)))
    | some i => (c,.restartRead name i)
  | .restartRead name i =>
    match c.all[i]? with
    | none => (c,.done (.notRestarted ("no runtime named "++name)))
    | some r =>
      let source := if r.path = [] then r.lastSource else []
      if r.path = [] ∧ source = [] then
        (c,.done (.notRestarted ("nothing to restart for "++name)))
      else (c,.restartReap ⟨name,r.path,source,r.path = []⟩ i)
  | .restartReap l i =>
    match c.all[i]? with
    | none => (c,.startCheck l)
    | some r => if r.isActive then (c,.reap i true .enter (.startCheck l)) else (c,.startCheck l)
  | .reap i interrupt point next =>
    match c.all[i]? with
    | none => (c,.reap i interrupt point next)
    | some r => reapStep c a i r interrupt next point
  | .done reply => (c,.done reply)

def threadStep (r : Runtime) (result : Except Text Unit) : Runtime :=
  match r.thread with
  | .fresh => { r with phase := .kActive, thread := .entered }
  | .entered =>
    match result with
    | .ok () => { r with thread := .inScript, up := true, lastSource := r.source }
    | .error error => { r with thread := .returned false, decided := some (.error error) }
  | .inScript =>
    match result with
    | .ok () => { r with thread := .returned true, decided := some (.ok ()) }
    | .error error =>
      { r with thread := .returned false, up := false, decided := some (.error error) }
  | .returned true => { r with thread := .ended }
  | .returned false => { r with thread := .ended, phase := .kTerminal }
  | .ended => r

structure Sys where
  core : Core
  tasks : List Task

inductive Event where
  | start (l : Launch)
  | stop (name : Text)
  | restart (name : Text)
  | turn (a : ℕ) (outcome : Bool)
  | thread (i : ℕ) (result : Except Text Unit)

def step (s : Sys) : Event → Sys
  | .start l => { s with tasks := s.tasks++[.startCheck l] }
  | .stop name => { s with tasks := s.tasks++[.stopCheck name] }
  | .restart name => { s with tasks := s.tasks++[.restartFind name] }
  | .turn a outcome =>
    match s.tasks[a]? with
    | none => s
    | some task =>
      let (core,next) := advance s.core a outcome task
      ⟨core,s.tasks.set a next⟩
  | .thread i result =>
    match s.core.all[i]? with
    | none => s
    | some r => { s with core := s.core.put i (threadStep r result) }

def idle : Sys := ⟨⟨[],∅⟩,[]⟩

/-- A runtime is active, and its thread has begun or its start has stored it. -/
def Sys.Live (s : Sys) (i : ℕ) (r : Runtime) : Prop :=
  r.isActive ∧ (r.thread = .fresh → ∀ l, .startStore l i ∉ s.tasks)

/-- An engine that runs a script belongs to an active runtime, and a live runtime is the one in
the map under its name. -/
structure Reachable (s : Sys) : Prop where
  mapped : ∀ (i : ℕ) (r : Runtime), s.core.all[i]? = some r → s.Live i r →
    s.core.map.lookup r.name = some i
  stoppable : ∀ (i : ℕ) (r : Runtime), s.core.all[i]? = some r → r.up = true → r.isActive

/-- An entry is erased or replaced when its runtime is not active, a runtime that is marked as
stopping is the one in the map, and one is marked as ended when its engine is down. -/
def Careful (c : Core) : Task → Prop
  | .startErase l existing => c.map.lookup l.name = some existing →
      ∀ r : Runtime, c.all[existing]? = some r → ¬r.isActive
  | .startStore l _ => ∀ (i : ℕ) (r : Runtime), c.map.lookup l.name = some i →
      c.all[i]? = some r → ¬r.isActive
  | .reap i _ (.interrupt _) _ => ∀ r : Runtime, c.all[i]? = some r → c.map.lookup r.name = some i
  | .reap i _ .settle _ => ∀ r : Runtime, c.all[i]? = some r → r.up = false
  | _ => True

/-- Sections are careful, and a thread begins after its start has stored the runtime. -/
def Undisturbed (s : Sys) : Event → Prop
  | .turn a _ => ∀ task, s.tasks[a]? = some task → Careful s.core task
  | .thread i _ => ∀ r : Runtime, s.core.all[i]? = some r → r.thread = .fresh →
      ∀ l, .startStore l i ∉ s.tasks
  | _ => True

variable {α : Type} {xs : List α}

section
variable (s : Sys) (c : Core) (tasks : List Task) (a i : ℕ) (old r : Runtime)

def AtPoint (r : Runtime) : ReapPoint → Prop
  | .enter => False
  | .take => r.thread ≠ .ended → r.held = true
  | .interrupt joinable => r.thread ≠ .ended → joinable = true
  | .engine joinable => r.thread ≠ .ended → joinable = true
  | .join joinable => r.thread ≠ .ended → joinable = true
  | .settle => r.thread = .ended

/-- A thread that runs can be joined: it is still held, or the call that took it joins it. -/
def Covered (tasks : List Task) (i : ℕ) (r : Runtime) : Prop :=
  match r.reaper with
  | none => r.thread ≠ .ended → r.held = true
  | some a => ∃ interrupt point next,
      tasks[a]? = some (.reap i interrupt point next) ∧ AtPoint r point

/-- What a call goes on with after a reaping. -/
def Task.follows : Task → Bool
  | .reap _ _ _ _ => false
  | .startStore _ _ => false
  | _ => true

def Owned (c : Core) (a : ℕ) : Task → Prop
  | .reap i _ point next => next.follows = true ∧
      (point ≠ .enter → ∃ r, c.all[i]? = some r ∧ r.reaper = some a)
  | _ => True

structure Reaped (s : Sys) : Prop where
  covered : ∀ (i : ℕ) (r : Runtime), s.core.all[i]? = some r → Covered s.tasks i r
  owned : ∀ (a : ℕ) (task : Task), s.tasks[a]? = some task → Owned s.core a task

def Task.outside : Task → Prop
  | .reap _ _ point next => point = .enter ∧ next.follows = true
  | _ => True

variable {task : Task}

variable {tasks}

variable {c}

variable {changed : Runtime} {point : ReapPoint}

/-- A thread that has not ended keeps its runtime active, and no script runs before the thread
is in it or after it failed. -/
structure Lively (r : Runtime) : Prop where
  alive : r.thread ≠ .ended → r.isActive
  quiet : r.thread = .fresh ∨ r.thread = .entered ∨ r.thread = .returned false → r.up = false

structure Inv (s : Sys) : Prop where
  reachable : Reachable s
  named : ∀ (name : Text) (i : ℕ), s.core.map.lookup name = some i →
    ∃ r, s.core.all[i]? = some r ∧ r.name = name
  storing : ∀ l i, .startStore l i ∈ s.tasks → ∃ r, s.core.all[i]? = some r ∧ r.name = l.name
  lively : ∀ (i : ℕ) (r : Runtime), s.core.all[i]? = some r → Lively r
  reaped : Reaped s

variable (result : Except Text Unit)

variable {i old r}

variable {a s} {l : Launch}

end

section Reaping
variable {s : Sys} {a i : ℕ} {r : Runtime} {cut : Bool} {next : Task} (h : Inv s)
  (hr : s.core.all[i]? = some r)
include h hr

/-- What a section of a reaping leaves. -/
abbrev Leaves (s : Sys) (a : ℕ) (after : Core×Task) : Prop := Inv ⟨after.1,s.tasks.set a after.2⟩

variable {joinable : Bool}

variable {point : ReapPoint}

end Reaping

variable {task : Task}

def OneEach (s : Sys) : Prop :=
  ∀ (i j : ℕ) (r q : Runtime), s.core.all[i]? = some r → s.core.all[j]? = some q → s.Live i r →
    s.Live j q → r.name = q.name → i = j

theorem Reachable.one {s : Sys} (h : Reachable s) : OneEach s := by
  intro i j r q hr hq hrl hql hn
  have hi := h.mapped i r hr hrl
  rw [hn,h.mapped j q hq hql] at hi
  exact (some.inj hi).symm

end Runtimes
end EMaster
