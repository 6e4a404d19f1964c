import EMaster.KeyedTable
import EMaster.LockerTime

/-!
# The local card and locker tables

Rows carry the columns that the modelled functions read. Statements succeed:
each query reads the tables and each update rewrites the row with the given id.
Where several rows satisfy a single-row query, the first in scan order answers.
-/

set_option autoImplicit false

namespace EMaster.Database
open KeyedTable Text

inductive LockerStatus where
  | EMPTY
  | ASSIGNED
  | EXPIRED
  | ERROR
  | other (text : Text)
  deriving DecidableEq, Repr

inductive UsageStatus where
  | NOT_STARTED
  | USING
  | COMPLETED
  | EXPIRED
  | other (text : Text)
  deriving DecidableEq, Repr

structure EmployeeRow where
  id : ℕ
  (username cardCode role : Text)
  (gender expireAt : Option Text)
  active : Bool
  lockerId : Option ℕ
  (startAt usageDate usageStartedAt usageLastOpenAt usageCompletedAt : Option Text)
  usageStatus : UsageStatus
  deriving DecidableEq, Repr

structure LockerRow where
  (id blockId lockerNumber : ℕ)
  lockerType : Text
  outputRegister : Option ℤ
  outputBit : Option ℕ
  status : LockerStatus
  (cardCode assignedAt expireAt lastError : Option Text)
  deriving DecidableEq, Repr

structure Db where
  employees : Table EmployeeRow EmployeeRow.id
  lockers : Table LockerRow LockerRow.id
  metaGet : Text → Option Text

def normalizeCode (cardCode : Text) : Option Text :=
  let text := upper (cardCode.filter (fun c => !isSpace c))
  if text = [] then none else some text

theorem normalize_code_some (card code : Text) :
    normalizeCode card = some code ↔
      upper (card.filter (fun c => !isSpace c)) = code ∧ code ≠ [] := by
  unfold normalizeCode
  dsimp only
  split_ifs with h
  · rw [h]
    constructor
    · exact fun hn => nomatch hn
    · rintro ⟨rfl,hne⟩
      exact absurd rfl hne
  · rw [Option.some.injEq]
    constructor
    · rintro rfl
      exact ⟨rfl,h⟩
    · exact And.left

variable {card code : Text}

theorem normalize_code_idempotent (h : normalizeCode card = some code) :
    normalizeCode code = some code := by
  obtain ⟨rfl,hne⟩ := (normalize_code_some card code).mp h
  refine (normalize_code_some _ _).mpr ⟨?_,hne⟩
  rw [filter_upper,upper_idempotent,List.filter_filter]
  simp only [Bool.and_self]

theorem normalize_code_upper (h : normalizeCode card = some code) : upper code = code := by
  obtain ⟨rfl,_⟩ := (normalize_code_some card code).mp h
  exact upper_idempotent _

def cabinetEmployee : EmployeeRow :=
  ⟨1, "An", "AB12", "employee",none,none,true,some 1,none,none,none,none,none,
    .NOT_STARTED⟩

def cabinetLocker : LockerRow :=
  ⟨1,1,1,"employee",some 10001,some 0,.ASSIGNED,some "AB12",none,none,none⟩

def cabinetDb : Db where
  employees := ⟨[cabinetEmployee],1,by decide,by decide⟩
  lockers := ⟨[cabinetLocker],1,by decide,by decide⟩
  metaGet := fun _ => none

end EMaster.Database

namespace EMaster.EmployeeDb
open KeyedTable Text Database

variable (db : Db)

def all : List EmployeeRow := db.employees.rows.insertionSort (fun a b => a.id ≤ b.id)

def findByCode (code : Text) : Option EmployeeRow :=
  db.employees.one (fun row => decide (row.cardCode = code))

def findByCard (cardCode : Text) : Option EmployeeRow :=
  (normalizeCode cardCode).bind (findByCode db)

def findById (id : ℕ) : Option EmployeeRow := db.employees.get id

def byRole (role : Text) : List EmployeeRow := (all db).filter (fun row => decide (row.role = role))

def update (id : ℕ) (f : EmployeeRow → EmployeeRow) (hf : ∀ row, (f row).id = row.id) : Db :=
  { db with employees := db.employees.modify id f hf }

def withActive (active : Bool) (row : EmployeeRow) : EmployeeRow := { row with active := active }

theorem with_active_id (active : Bool) (row : EmployeeRow) : (withActive active row).id = row.id :=
  rfl

def setActive (id : ℕ) (active : Bool) : Db :=
  update db id (withActive active) (with_active_id _)

def withLocker (lockerId : Option ℕ) (row : EmployeeRow) : EmployeeRow :=
  { row with lockerId := lockerId }

theorem with_locker_id (lid : Option ℕ) (row : EmployeeRow) : (withLocker lid row).id = row.id :=
  rfl

def setLocker (id : ℕ) (lockerId : Option ℕ) : Db :=
  update db id (withLocker lockerId) (with_locker_id _)

def missingFrom (codes : List Text) : List EmployeeRow :=
  let normalized := codes.filterMap normalizeCode
  if normalized = [] then all db
  else (all db).filter (fun row => decide (row.cardCode ∉ normalized))

theorem find_by_card_some (card : Text) (emp : EmployeeRow)
    (h : findByCard db card = some emp) :
    normalizeCode card = some emp.cardCode ∧ emp ∈ db.employees.rows := by
  obtain ⟨code,hn,hf⟩ := Option.bind_eq_some_iff.mp h
  obtain ⟨hm,hc⟩ := one_some _ _ emp hf
  have hcd : emp.cardCode = code := of_decide_eq_true hc
  exact ⟨by rw [hn,hcd],hm⟩

end EMaster.EmployeeDb

namespace EMaster.LockerDb
open KeyedTable Text Database

def before (a b : LockerRow) : Prop :=
  a.blockId < b.blockId ∨ (a.blockId = b.blockId ∧ a.lockerNumber ≤ b.lockerNumber)

instance : DecidableRel before := fun _ _ => inferInstanceAs (Decidable (_ ∨ _))

def all (db : Db) : List LockerRow := db.lockers.rows.insertionSort before

def get (db : Db) (lockerId : ℕ) : Option LockerRow := db.lockers.get lockerId

def getByCard (db : Db) (cardCode : Text) : Option LockerRow :=
  db.lockers.one (fun row => decide (row.cardCode = some (upper cardCode)))

variable (row : LockerRow)

def canUnlock : Bool := row.outputRegister.isSome && row.outputBit.isSome

def isAvailable (lockerType : Text) (blockId : Option ℕ) (row : LockerRow) : Bool :=
  decide (row.status = .EMPTY) && row.cardCode.isNone && canUnlock row &&
    decide (row.lockerType = lockerType) &&
    (match blockId with
      | none => true
      | some block => decide (row.blockId = block))

def available (db : Db) (lockerType : Text) (blockId : Option ℕ) : List LockerRow :=
  (all db).filter (isAvailable lockerType blockId)

def byStatus (db : Db) (status : LockerStatus) : List LockerRow :=
  (all db).filter (fun row => decide (row.status = status))

def update (db : Db) (id : ℕ) (f : LockerRow → LockerRow) (hf : ∀ row, (f row).id = row.id) : Db :=
  { db with lockers := db.lockers.modify id f hf }

/-- A status other than the error clears the recorded reason. -/
def withStatus (status : LockerStatus) (reason : Option Text) (row : LockerRow) : LockerRow :=
  { row with
    status := status
    lastError := if status = .ERROR then reason.or row.lastError
      else if reason.isNone then none else row.lastError }

theorem with_status_id (st : LockerStatus) (why : Option Text) (row : LockerRow) :
    (withStatus st why row).id = row.id :=
  rfl

def setStatus (db : Db) (lockerId : ℕ) (status : LockerStatus) (reason : Option Text) : Db :=
  update db lockerId (withStatus status reason) (with_status_id _ _)

def heldBy (employee : EmployeeRow) (timestamp : Text) (row : LockerRow) : LockerRow :=
  { row with
    status := .ASSIGNED
    cardCode := some employee.cardCode
    assignedAt := some timestamp
    expireAt := employee.expireAt
    lastError := none }

theorem held_by_id (emp : EmployeeRow) (timestamp : Text) (row : LockerRow) :
    (heldBy emp timestamp row).id = row.id :=
  rfl

def assign (db : Db) (lockerId : ℕ) (employee : EmployeeRow) (timestamp : Text) : Db :=
  update db lockerId (heldBy employee timestamp) (held_by_id _ _)

def vacated : LockerRow :=
  { row with
    status := .EMPTY
    cardCode := none
    assignedAt := none
    expireAt := none
    lastError := none }

theorem vacated_id : (vacated row).id = row.id := rfl

def release (db : Db) (lockerId : ℕ) : Db := update db lockerId vacated vacated_id

def setError (db : Db) (lockerId : ℕ) (reason : Text) : Db :=
  setStatus db lockerId .ERROR (some reason)

/-- The same door with the same holder; only the status may differ. -/
structure SameDoor (a b : LockerRow) : Prop where
  id : b.id = a.id
  blockId : b.blockId = a.blockId
  lockerType : b.lockerType = a.lockerType
  outputRegister : b.outputRegister = a.outputRegister
  outputBit : b.outputBit = a.outputBit
  cardCode : b.cardCode = a.cardCode

theorem SameDoor.rfl (a : LockerRow) : SameDoor a a :=
  ⟨Eq.refl _,Eq.refl _,Eq.refl _,Eq.refl _,Eq.refl _,Eq.refl _⟩

variable (db : Db) (lid id : ℕ)

theorem get_update (f : LockerRow → LockerRow) (hf : ∀ row, (f row).id = row.id) :
    get (update db lid f hf) id = (get db id).map (patchRow LockerRow.id lid f) :=
  get_modify _ lid id f hf

theorem get_update_other (f : LockerRow → LockerRow) (hf : ∀ row, (f row).id = row.id)
    (h : id ≠ lid) : get (update db lid f hf) id = get db id := by
  rw [get_update]
  cases hr : get db id with
  | none => rfl
  | some row =>
    have hid := ((get_some _ id row).mp hr).2
    rw [Option.map_some, patchRow, if_neg (by rw [hid]; exact h)]

theorem get_set_status (st : LockerStatus) (why : Option Text) (lk : LockerRow)
    (h : get db id = some lk) :
    ∃ locker', get (setStatus db lid st why) id = some locker' ∧ SameDoor lk locker' := by
  refine ⟨patchRow LockerRow.id lid (withStatus st why) lk,?_,?_⟩
  · rw [setStatus,get_update,h]
    rfl
  · unfold patchRow
    split_ifs
    · exact ⟨Eq.refl _,Eq.refl _,Eq.refl _,Eq.refl _,Eq.refl _,Eq.refl _⟩
    · exact SameDoor.rfl lk

theorem get_by_card_some (card : Text) (lk : LockerRow) (h : getByCard db card = some lk) :
    get db lk.id = some lk ∧ lk.cardCode = some (upper card) := by
  obtain ⟨hm,hc⟩ := one_some db.lockers _ lk h
  exact ⟨get_key db.lockers lk hm,of_decide_eq_true hc⟩

end EMaster.LockerDb
