import EMaster.ContractorUsage
import EMaster.Locker

/-!
# Who gets which locker

The relation between a card and its locker is stored on both rows. Assignment
picks a free, wired locker of the right type; release clears both rows. The
hooks of a synchronisation, the consistency repair and the reclaim sweep are
built from these two.
-/

set_option autoImplicit false

namespace EMaster.Assignment
open KeyedTable Text LockerTime LockerConfig Database LockerDb
open Employee ContractorUsage

def lockerTypeFor (employee : EmployeeRow) : Text := employee.role

variable (config : Config)

def typeMatches (employee : EmployeeRow) (locker : LockerRow) : Bool :=
  config.locker.allowCrossType || decide (locker.lockerType = lockerTypeFor employee)

theorem type_matches_iff (cfg : Config) (emp : EmployeeRow) (lk : LockerRow) :
    typeMatches cfg emp lk = true ↔
      cfg.locker.allowCrossType = true ∨ lk.lockerType = emp.role := by
  rw [typeMatches,Bool.or_eq_true,decide_eq_true_iff]
  rfl

def inPriorityRange (priority : FemalePriority) (locker : LockerRow) : Bool :=
  decide (priority.first ≤ locker.lockerNumber ∧ locker.lockerNumber ≤ priority.last)

/-- The lowest free locker; the reserved range comes first for a woman. -/
def findAvailable (db : Db) (lockerType : Text) (gender : Option Text)
    (blockId : Option ℕ) : Except Text LockerRow :=
  match LockerDb.available db lockerType blockId with
  | [] => .error ("no free "++lockerType++" locker")
  | first::rest =>
    let priority := config.locker.femalePriority
    if priority.enabled && decide (gender = some genderFemale) then
      .ok (((first::rest).find? (inPriorityRange priority)).getD first)
    else .ok first

structure Released where
  db : Db
  ok : Bool

variable (db : Db)

def detach (cardCode : Text) : Db :=
  match EmployeeDb.findByCard db cardCode with
  | none => db
  | some employee => EmployeeDb.setLocker db employee.id none

def releaseLocker (lockerId : ℕ) : Released :=
  match LockerDb.get db lockerId with
  | none => ⟨db,false⟩
  | some locker =>
    match locker.cardCode with
    | none => ⟨db,true⟩
    | some cardCode => ⟨detach (LockerDb.release db lockerId) cardCode,true⟩

structure Assigned where
  db : Db
  locker : Except Text LockerRow

variable (clock : Clock)

def giveLocker (db : Db) (employee : EmployeeRow) (locker : LockerRow) : Assigned :=
  let db' := EmployeeDb.setLocker
    (LockerDb.assign db locker.id employee (stamp clock clock.now)) employee.id (some locker.id)
  match LockerDb.get db' locker.id with
  | none => ⟨db',.error []⟩
  | some stored => ⟨db',.ok stored⟩

def pickLocker (db : Db) (employee : EmployeeRow) (blockId : Option ℕ) : Assigned :=
  match findAvailable config db (lockerTypeFor employee) employee.gender blockId with
  | .error reason => ⟨db,.error reason⟩
  | .ok locker => giveLocker clock db employee locker

/-- A card that holds a locker of the right type keeps it. -/
def assign (db : Db) (employee : EmployeeRow) (blockId : Option ℕ) : Assigned :=
  if employee.active = false then
    ⟨db,.error ("card "++employee.cardCode++" is inactive")⟩
  else match LockerDb.getByCard db employee.cardCode with
    | none => pickLocker config clock db employee blockId
    | some existing =>
      if typeMatches config employee existing then ⟨db,.ok existing⟩
      else pickLocker config clock (releaseLocker db existing.id).db employee blockId

def release (cardCode : Text) : Released :=
  match LockerDb.getByCard db cardCode with
  | some locker => releaseLocker db locker.id
  | none =>
    match EmployeeDb.findByCard db cardCode with
    | none => ⟨db,true⟩
    | some employee =>
      if employee.lockerId.isSome then ⟨EmployeeDb.setLocker db employee.id none,true⟩
      else ⟨db,true⟩

structure AssignCount where
  db : Db
  (assigned failed : ℕ)

def assignIfWanted (s : AssignCount) (employee : EmployeeRow) : AssignCount :=
  if employee.active = false then s
  else if isExpired config clock employee then s
  else if (LockerDb.getByCard s.db employee.cardCode).isSome then s
  else
    let assigned := assign config clock s.db employee none
    match assigned.locker with
    | .ok _ => ⟨assigned.db,s.assigned+1,s.failed⟩
    | .error _ => ⟨assigned.db,s.assigned,s.failed+1⟩

structure ReleaseCount where
  db : Db
  released : ℕ

def releaseRemoved (s : ReleaseCount) (employee : EmployeeRow) : ReleaseCount :=
  let released := release s.db employee.cardCode
  ⟨released.db,if released.ok then s.released+1 else s.released⟩

structure AppliedChanges where
  db : Db
  (assigned released failed : ℕ)

def assignWanted (db : Db) (changes : Changes) : AssignCount :=
  if config.sync.assignOnSync then
    (changes.added++changes.updated).foldl (assignIfWanted config clock) ⟨db,0,0⟩
  else ⟨db,0,0⟩

/-- The locker side of a synchronisation: new cards first, then the withdrawn. -/
def applyChanges (db : Db) (changes : Changes) : AppliedChanges :=
  let wanted := assignWanted config clock db changes
  let removed := if config.sync.onRemoved = some .release then
    changes.deactivated.foldl releaseRemoved ⟨wanted.db,0⟩ else ⟨wanted.db,0⟩
  ⟨removed.db,wanted.assigned,removed.released,wanted.failed⟩

def relinkLocker (locker : LockerRow) : Db :=
  match locker.cardCode with
  | none => db
  | some cardCode =>
    match EmployeeDb.findByCard db cardCode with
    | none => (releaseLocker db locker.id).db
    | some employee =>
      if employee.lockerId ≠ some locker.id then
        EmployeeDb.setLocker db employee.id (some locker.id)
      else db

def linkHolds (lockerId : ℕ) (employee : EmployeeRow) : Bool :=
  match (LockerDb.get db lockerId).bind LockerRow.cardCode with
  | none => false
  | some cardCode => decide (normalizeCode cardCode = normalizeCode employee.cardCode)

def clearLink (employee : EmployeeRow) : Db :=
  match employee.lockerId with
  | none => db
  | some lockerId =>
    if linkHolds db lockerId employee then db else EmployeeDb.setLocker db employee.id none

/-- The locker row decides; a link to a door of somebody else is cleared. -/
def reconcile : Db :=
  let relinked := (LockerDb.all db).foldl relinkLocker db
  (EmployeeDb.all relinked).foldl clearLink relinked

def contractorMode (config : Config) : ℕ := if config.locker.contractorMode = 2 then 2 else 1

def holdSeconds : ℚ := max 0 config.locker.holdHours*3600

def holdExpired (locker : LockerRow) : Bool :=
  decide (contractorMode config = 2) && locker.cardCode.isSome &&
    decide (locker.lockerType = roleContractor) &&
    (match locker.assignedAt.bind (parse clock) with
      | none => false
      | some (assignedAt,_) =>
        decide (holdSeconds config ≠ 0 ∧ holdSeconds config ≤ ((clock.now-assignedAt : ℤ) : ℚ)))

def expiredHolds (db : Db) : List LockerRow :=
  if contractorMode config = 2 then (LockerDb.all db).filter (holdExpired config clock) else []

structure Sweep where
  db : Db
  seen : List ℕ
  (released skipped : ℕ)

variable (runtime : Locker.Runtime)

def reclaimOne (s : Sweep) (lockerId : ℕ) : Sweep :=
  if Locker.busy runtime lockerId then { s with skipped := s.skipped+1 }
  else
    let released := releaseLocker s.db lockerId
    if released.ok then { s with db := released.db, released := s.released+1 }
    else { s with db := released.db, skipped := s.skipped+1 }

def reclaimFinished (s : Sweep) (employee : EmployeeRow) : Sweep :=
  match LockerDb.getByCard s.db employee.cardCode with
  | none => { s with skipped := s.skipped+1 }
  | some locker => reclaimOne runtime { s with seen := locker.id::s.seen } locker.id

def reclaimHeld (s : Sweep) (locker : LockerRow) : Sweep :=
  if locker.id ∈ s.seen then s
  else reclaimOne runtime { s with seen := locker.id::s.seen } locker.id

/-- Finished contractors out of their period, then, in the second mode, lockers
held too long. A door in flight is left for the next sweep. -/
def reclaim (clock : Clock) (runtime : Locker.Runtime) (db : Db) : Sweep :=
  if config.locker.autoReclaim = false then ⟨db,[],0,0⟩
  else
    let finished := (reclaimable config clock db).foldl (reclaimFinished runtime) ⟨db,[],0,0⟩
    (expiredHolds config clock finished.db).foldl (reclaimHeld runtime) finished

end EMaster.Assignment
