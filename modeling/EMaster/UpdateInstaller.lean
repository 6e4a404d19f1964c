import EMaster.UpdateManager

/-!
# The update installer

An installation is a sequence of file operations, each of which may fail; those that
succeed are performed in order and power may be lost between any two of them. Of the disk
only the release directories, the `current` link and the state file are kept. The state
file is replaced by a rename, so that it reads as before or as written. The boot guard
and the confirmation act on the same disk.
-/

set_option autoImplicit false

namespace EMaster.Updates

structure BootState where
  pending : Text := []
  previous : Text := []
  attempts : ℤ := 0
  installedAt : Text := []
  lastResult : Text := []
  deriving DecidableEq

structure Disk where
  releases : Text → Bool
  current : Text
  state : BootState

def versionCharacter (c : Char) : Bool := c.isAlphanum || c = '.' || c = '-' || c = '+'

def isSafeVersionString (version : Text) : Bool :=
  if version = [] ∨ 64 < version.length then false
  else if version.all versionCharacter = false then false
  else if version = ['.'] ∨ version = ['.','.'] then false
  else version.head? ≠ some '-'

inductive Op where
  | clearStaging
  | makeStaging
  | unpack
  | removeDestination
  | moveRelease
  | copyRelease
  | dropStaging
  | setMode
  | seedData
  | clearLink
  | makeLink
  | renameLink
  | dropLink
  | writeState
  | renameState
  | dropState
  deriving DecidableEq

structure Outcome where
  ok : Op → Bool
  isRelease : Bool

variable (o : Outcome)

def attempt (op : Op) : List Op := if o.ok op then [op] else []

def writeStateOps : List Op :=
  if o.ok .writeState then
    .writeState::(if o.ok .renameState then [.renameState] else attempt o .dropState)
  else []

def swapOps : List Op :=
  attempt o .clearLink++
    if o.ok .makeLink then
      .makeLink::(if o.ok .renameLink then .renameLink::writeStateOps o else attempt o .dropLink)
    else []

def activateOps : List Op :=
  attempt o .dropStaging++(attempt o .setMode++(attempt o .seedData++swapOps o))

def placeOps : List Op :=
  attempt o .removeDestination++
    if o.ok .moveRelease then .moveRelease::activateOps o
    else if o.ok .copyRelease then .copyRelease::activateOps o
    else attempt o .dropStaging

def unpackOps : List Op :=
  attempt o .clearStaging++
    if o.ok .makeStaging then
      .makeStaging::(if o.ok .unpack then
        .unpack::(if o.isRelease then placeOps o else attempt o .dropStaging)
        else [])
    else []

variable (layout : Layout)

def installOps (version : Text) (o : Outcome) : List Op :=
  if layout.managed && isSafeVersionString version then unpackOps o else []

def activeVersion : Text :=
  if (Version.parse layout.activeRelease).isSome then layout.activeRelease else []

def recordedPrevious (before : BootState) (version : Text) : Text :=
  if activeVersion layout = [] ∨ activeVersion layout = version then before.previous
  else activeVersion layout

def trialState (before : BootState) (version now : Text) : BootState where
  pending := version
  previous := recordedPrevious layout before version
  installedAt := now

def setRelease (d : Disk) (version : Text) (present : Bool) : Disk :=
  { d with releases := fun r => if r = version then present else d.releases r }

/-- What a performed operation leaves on the disk; `written` is the new state file. -/
def perform (version : Text) (written : BootState) (d : Disk) : Op → Disk
  | .removeDestination => setRelease d version false
  | .moveRelease => setRelease d version true
  | .copyRelease => setRelease d version true
  | .renameLink => { d with current := version }
  | .renameState => { d with state := written }
  | _ => d

def diskAfter (version now : Text) (o : Outcome) (d : Disk) (n : ℕ) : Disk :=
  ((installOps layout version o).take n).foldl
    (perform version (trialState layout d.state version now)) d

theorem perform_current (ver : Text) (written : BootState) (d : Disk) (ops : List Op) :
    (ops.foldl (perform ver written) d).current = if .renameLink ∈ ops then ver else d.current := by
  induction ops generalizing d with
  | nil => simp
  | cons op ops ih =>
    rw [List.foldl_cons,ih]
    by_cases hl : .renameLink ∈ ops
    · simp [hl]
    · cases op <;> simp [hl,perform,setRelease]

theorem perform_state (ver : Text) (written : BootState) (d : Disk) (ops : List Op) :
    (ops.foldl (perform ver written) d).state =
      if .renameState ∈ ops then written else d.state := by
  induction ops generalizing d with
  | nil => simp
  | cons op ops ih =>
    rw [List.foldl_cons,ih]
    by_cases hl : .renameState ∈ ops
    · simp [hl]
    · cases op <;> simp [hl,perform,setRelease]

def allSucceed : Outcome := ⟨fun _ => true,true⟩

def activate (d : Disk) (version : Text) : Option Disk :=
  if layout.managed && isSafeVersionString version && d.releases version then
    some { d with current := version }
  else none

/-- The boot guard; the flag tells that `current` was moved back and a restart is due. -/
def checkBoot (d : Disk) (running : Text) (maxAttempts : ℤ) : Disk×Bool :=
  let s := d.state
  if layout.managed = false ∨ s.pending = [] then (d,false)
  else if s.pending ≠ running then
    ({ d with state := { s with pending := [],lastResult := "abandoned" } },false)
  else if s.attempts+1 ≤ maxAttempts then
    ({ d with state := { s with attempts := s.attempts+1 } },false)
  else if s.previous = [] then
    ({ d with state := { s with
        pending := []
        attempts := s.attempts+1
        lastResult := "failed-no-rollback-target" } },false)
  else
    match activate layout d s.previous with
    | none => (d,false)
    | some back =>
      ({ back with state := { s with
          pending := []
          attempts := 0
          lastResult := "rolled-back:"++running } },true)

def confirmHealthy (d : Disk) (running : Text) : Disk :=
  let s := d.state
  if layout.managed = false ∨ s.pending = [] ∨ s.pending ≠ running then d
  else { d with state := { s with
      pending := []
      attempts := 0
      lastResult := "confirmed" } }

def runningFrom (release : Text) : Layout := ⟨true,[],release⟩

def onlyRelease (release : Text) : Disk := ⟨fun r => r = release,release,{}⟩

def firstRelease : Text := "1.0.0"

def nextRelease : Text := "1.1.0"

end EMaster.Updates
