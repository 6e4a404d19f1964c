import EMaster.Employee
import EMaster.Modbus

/-!
# Doors in flight and the permanent status of lockers

The door cycle lives in memory, keyed by the locker. An unlock drives the
configured output once and starts a cycle; a failure records the error and ends
the cycle. The permanent status follows the card that holds the locker.
-/

set_option autoImplicit false

namespace EMaster.Locker
open KeyedTable Text LockerTime LockerConfig Database LockerDb
open Modbus

inductive CycleState where
  | UNLOCKING
  | WAIT_CLOSE
  deriving DecidableEq, Repr

structure Entry where
  state : CycleState
  cardCode : Text
  since : ℤ
  openedAt : Option ℤ
  deadline : ℤ
  deriving DecidableEq, Repr

abbrev Runtime := ℕ → Option Entry

def busy (runtime : Runtime) (lockerId : ℕ) : Bool := (runtime lockerId).isSome

def stateName : Option Entry → Text
  | none => "IDLE"
  | some entry =>
    match entry.state with
    | .UNLOCKING => "UNLOCKING"
    | .WAIT_CLOSE => "WAIT_CLOSE"

def setEntry (runtime : Runtime) (lockerId : ℕ) (entry : Option Entry) : Runtime :=
  fun id => if id = lockerId then entry else runtime id

structure Unlocked where
  db : Db
  runtime : Runtime
  result : Except Text Unit
  writes : List Write

/-- The interpreter handles queued events and requests while a call sleeps: what they make of
the tables and of the doors in flight. -/
abbrev Meanwhile := Db×Runtime → Db×Runtime

def after (held : Bool) (meanwhile : Meanwhile) (doors : Db×Runtime) : Db×Runtime :=
  if held then meanwhile doors else doors

@[simp] theorem after_quiet (held : Bool) (doors : Db×Runtime) :
    after held (fun doors => doors) doors = doors := ite_self doors

def setError (db : Db) (lockerId : ℕ) (reason : Text) : Db :=
  match LockerDb.get db lockerId with
  | none => db
  | some _ => LockerDb.setError db lockerId reason

variable (config : Config) (clock : Clock)

def unlockDeadline : ℤ := clock.now+config.locker.doorOpenTimeout

/-- Drives the output of the locker. Success starts the door cycle, failure of
the controller puts the locker into its error status. Both are written after the pulse, over
what was handled meanwhile; without `meanwhile` nothing was. -/
def unlock (config : Config) (clock : Clock) (answers : Answers) (db : Db) (runtime : Runtime)
    (lockerId : ℕ) (cardCode : Text) (meanwhile : Meanwhile := fun doors => doors) : Unlocked :=
  match LockerDb.get db lockerId with
  | none => ⟨db,runtime,.error ("no such locker "++ofNat lockerId),[]⟩
  | some locker =>
    match locker.outputRegister, locker.outputBit with
    | some register, some bit =>
      let triggered := triggerBit config.plc answers register bit
      let doors := after triggered.held meanwhile (db,runtime)
      match triggered.result with
      | .error reason =>
        ⟨setError doors.1 lockerId ("unlock failed: "++reason),
          setEntry doors.2 lockerId none,.error reason,triggered.writes⟩
      | .ok () =>
        ⟨doors.1,setEntry doors.2 lockerId
          (some ⟨.UNLOCKING,cardCode,clock.now,none,unlockDeadline config clock⟩),
          .ok (),triggered.writes⟩
    | _, _ =>
      ⟨db,runtime,.error ("locker "++ofNat locker.lockerNumber++
        " has no unlock output configured"),[]⟩

def restingStatus (db : Db) (locker : LockerRow) : LockerStatus :=
  match locker.cardCode with
  | none => .EMPTY
  | some cardCode =>
    match EmployeeDb.findByCard db cardCode with
    | none => .ASSIGNED
    | some employee => if Employee.isExpired config clock employee then .EXPIRED else .ASSIGNED

def refreshRow (db : Db) (locker : LockerRow) : Db :=
  if locker.status ≠ .ERROR ∧ locker.cardCode.isSome then
    let wanted := restingStatus config clock db locker
    if locker.status = wanted then db else LockerDb.setStatus db locker.id wanted none
  else db

def refreshExpiry (db : Db) : Db :=
  (LockerDb.all db).foldl (refreshRow config clock) db

variable (cfg : Config) (clk : Clock) (answers : Answers) (db : Db) (rt : Runtime) (card : Text)
  (lid : ℕ)

variable (locker : LockerRow)

/-- What an unlock of a known locker can do: nothing, or one trigger of its
configured output. -/
theorem unlock_during (mw : Meanwhile) (h : get db lid = some locker) :
    ((unlock cfg clk answers db rt lid card mw).writes = [] ∧
      (unlock cfg clk answers db rt lid card mw).db = db) ∨
    ∃ register bit held, locker.outputRegister = some register ∧ locker.outputBit = some bit ∧
      (unlock cfg clk answers db rt lid card mw).writes =
        (triggerBit cfg.plc answers register bit).writes ∧
      (unlock cfg clk answers db rt lid card mw).result =
        (triggerBit cfg.plc answers register bit).result ∧
      ((unlock cfg clk answers db rt lid card mw).db = (after held mw (db,rt)).1 ∨
        ∃ reason, (unlock cfg clk answers db rt lid card mw).db =
          setError (after held mw (db,rt)).1 lid reason) := by
  unfold unlock
  rw [h]
  dsimp only
  cases hr : locker.outputRegister with
  | none => exact .inl ⟨rfl,rfl⟩
  | some register =>
    cases hb : locker.outputBit with
    | none => exact .inl ⟨rfl,rfl⟩
    | some bit =>
      refine .inr ⟨register,bit,(triggerBit cfg.plc answers register bit).held,rfl,rfl,?_⟩
      dsimp only
      cases ht : (triggerBit cfg.plc answers register bit).result with
      | error reason => exact ⟨rfl,rfl,.inr ⟨_,rfl⟩⟩
      | ok _ => exact ⟨rfl,rfl,.inl rfl⟩

theorem unlock_cases (h : get db lid = some locker) :
    ((unlock cfg clk answers db rt lid card).writes = [] ∧
      (unlock cfg clk answers db rt lid card).db = db) ∨
    ∃ register bit, locker.outputRegister = some register ∧ locker.outputBit = some bit ∧
      (unlock cfg clk answers db rt lid card).writes =
        (triggerBit cfg.plc answers register bit).writes ∧
      (unlock cfg clk answers db rt lid card).result =
        (triggerBit cfg.plc answers register bit).result ∧
      ((unlock cfg clk answers db rt lid card).db = db ∨
        ∃ reason, (unlock cfg clk answers db rt lid card).db = setError db lid reason) := by
  rcases unlock_during cfg clk answers db rt card lid locker _ h with
    hn | ⟨register,bit,held,hr,hb,hw,hrs,hdb⟩
  · exact .inl hn
  · rw [after_quiet] at hdb
    exact .inr ⟨register,bit,hr,hb,hw,hrs,hdb⟩

end EMaster.Locker
