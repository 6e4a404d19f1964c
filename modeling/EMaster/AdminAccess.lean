import EMaster.Locker

/-!
# Admin cards and the override mode

A run of scans of one admin card opens the override mode. While it is open an
admin scan steps through the expired lockers and a user card opens its own
locker whatever the state of the card. Every decision reports a result.
-/

set_option autoImplicit false

namespace EMaster.AdminAccess
open KeyedTable Text LockerTime LockerConfig Database
open Modbus

inductive Mode where
  | NORMAL
  | ADMIN_SCAN
  | ADMIN_ACCESS_MODE
  deriving DecidableEq, Repr

structure State where
  name : Mode
  scanCount : ℕ
  adminCard : Option Text
  (lastScanAt deadline : Option ℤ)
  opened : List ℕ
  enteredAt : Option ℤ
  deriving DecidableEq, Repr

inductive Sound where
  | granted
  | denied
  | unknownCard
  | expiredCard
  | wrongLocker
  | doorError
  | dayComplete
  | adminScan
  | adminMode
  deriving DecidableEq, Repr

structure Result where
  granted : Bool
  event : Event
  (reason cardCode username : Option Text)
  locker : Option LockerRow
  repeated : Bool
  usageStatus : Option UsageStatus
  deriving DecidableEq, Repr

structure Outcome where
  db : Db
  runtime : Locker.Runtime
  admin : State
  result : Result
  sounds : List Sound
  writes : List Write

def toNormal : State := ⟨.NORMAL,0,none,none,none,[],none⟩

variable (config : Config)

def scanTarget : ℕ := max 1 config.admin.unlockAllScanCount.toNat

def isOverrideActive (s : State) : Bool := decide (s.name = .ADMIN_ACCESS_MODE)

def isAdminCard (cardCode : Text) : Bool :=
  config.admin.enabled &&
    (match normalizeCode cardCode with
      | none => false
      | some code => (config.admin.cards.filterMap normalizeCode).contains code)

def noteOtherCard (s : State) : State := if s.name = .ADMIN_SCAN then toNormal else s

def answer (granted : Bool) (event : Event) (reason cardCode username : Option Text)
    (locker : Option LockerRow) (repeated : Bool) : Result :=
  ⟨granted,event,reason,cardCode,username,locker,repeated,none⟩

variable (clock : Clock)

def enterOverrideMode (s : State) (code : Option Text) : State :=
  { s with
    name := .ADMIN_ACCESS_MODE
    adminCard := code.or s.adminCard
    enteredAt := some clock.now
    deadline := some (clock.now+config.admin.overrideTimeout)
    opened := [] }

def pendingExpired (db : Db) (s : State) : List LockerRow :=
  (LockerDb.byStatus db .EXPIRED).filter (fun locker =>
    decide (locker.id ∉ s.opened) && LockerDb.canUnlock locker)

def statusText : LockerStatus → Text
  | .EMPTY => "EMPTY"
  | .ASSIGNED => "ASSIGNED"
  | .EXPIRED => "EXPIRED"
  | .ERROR => "ERROR"
  | .other text => text

def openExpired (answers : Answers) (db : Db)
    (runtime : Locker.Runtime) (s : State) (locker : LockerRow)
    (meanwhile : Locker.Meanwhile := fun doors => doors) : Outcome :=
  if Locker.busy runtime locker.id then
    ⟨db,runtime,s,answer true .ADMIN_EXPIRED_LOCKER_OPEN
      (some ("already "++Locker.stateName (runtime locker.id))) none none (some locker) true,
      [],[]⟩
  else
    let unlocked := Locker.unlock config clock answers db runtime locker.id
      (locker.cardCode.getD []) meanwhile
    match unlocked.result with
    | .error reason =>
      ⟨unlocked.db,unlocked.runtime,s,
        answer false .LOCKER_ERROR (some reason) none none (some locker) false,
        [.doorError],unlocked.writes⟩
    | .ok () =>
      ⟨unlocked.db,unlocked.runtime,{ s with opened := locker.id::s.opened },
        answer true .ADMIN_EXPIRED_LOCKER_OPEN
          (some "expired locker opened under admin override") locker.cardCode none
          (some locker) false,
        [.granted],unlocked.writes⟩

def overrideDenied (reason : Text) (locker : Option LockerRow) : Result :=
  answer false .ADMIN_OVERRIDE_DENIED (some reason) none none locker false

def unlockExpired (answers : Answers) (db : Db)
    (runtime : Locker.Runtime) (s : State) (lockerId : ℕ)
    (meanwhile : Locker.Meanwhile := fun doors => doors) : Outcome :=
  match LockerDb.get db lockerId with
  | none => ⟨db,runtime,s,overrideDenied "no such locker" none,[],[]⟩
  | some locker =>
    if locker.status ≠ .EXPIRED then
      ⟨db,runtime,s,overrideDenied ("locker "++ofNat locker.lockerNumber++" is "++
        statusText locker.status++", not EXPIRED") (some locker),[],[]⟩
    else if LockerDb.canUnlock locker = false then
      ⟨db,runtime,s,overrideDenied ("locker "++ofNat locker.lockerNumber++
        " has no unlock output") (some locker),[],[]⟩
    else openExpired config clock answers db runtime s locker meanwhile

def unlockNextExpired (answers : Answers) (db : Db)
    (runtime : Locker.Runtime) (s : State)
    (meanwhile : Locker.Meanwhile := fun doors => doors) : Outcome :=
  match pendingExpired db s with
  | [] =>
    ⟨db,runtime,s,answer false .ADMIN_OVERRIDE_DENIED
      (some "no expired locker left to open") s.adminCard none none false,[.denied],[]⟩
  | locker::_ => unlockExpired config clock answers db runtime s locker.id meanwhile

def scanned (s : State) (code : Option Text) : State :=
  { s with
    name := .ADMIN_SCAN
    adminCard := code
    lastScanAt := some clock.now
    scanCount := if s.name = .ADMIN_SCAN ∧ s.adminCard ≠ code then 1 else s.scanCount+1 }

def onAdminScan (answers : Answers) (db : Db)
    (runtime : Locker.Runtime) (s : State) (cardCode : Text)
    (meanwhile : Locker.Meanwhile := fun doors => doors) : Outcome :=
  let code := normalizeCode cardCode
  if isOverrideActive s then
    let extended := { s with
      deadline := some (clock.now+config.admin.overrideTimeout)
      lastScanAt := some clock.now }
    if config.admin.scanOpensExpired = false then
      ⟨db,runtime,extended,answer true .ADMIN_SCAN_SEQUENCE
        (some "admin access mode extended") code none none false,[.adminScan],[]⟩
    else unlockNextExpired config clock answers db runtime extended meanwhile
  else
    let next := scanned clock s code
    if scanTarget config ≤ next.scanCount then
      let entered := enterOverrideMode config clock next code
      ⟨db,runtime,entered,answer true .ADMIN_MODE_ENTER (some "admin access mode")
        entered.adminCard none none false,[.adminMode],[]⟩
    else
      ⟨db,runtime,next,answer false .ADMIN_CARD_SCAN
        (some ("admin scan "++ofNat next.scanCount++" of "++
          ofNat (scanTarget config))) code none none false,[.adminScan],[]⟩

def statusName (employee : EmployeeRow) : Text :=
  if Employee.isActive employee = false then "INACTIVE"
  else if Employee.isExpired config clock employee then "EXPIRED"
  else "ACTIVE"

def overrideReason (employee : EmployeeRow) : Text :=
  if Employee.isExpired config clock employee then "EXPIRED_CONTRACTOR"
  else if Employee.isActive employee = false then "INACTIVE_CARD"
  else "ADMIN_REQUEST"

def openOverride (answers : Answers) (db : Db)
    (runtime : Locker.Runtime) (s : State) (cardCode : Text) (employee : EmployeeRow)
    (locker : LockerRow)
    (meanwhile : Locker.Meanwhile := fun doors => doors) : Outcome :=
  if LockerDb.canUnlock locker = false then
    ⟨db,runtime,s,answer false .LOCKER_ERROR
      (some ("locker "++ofNat locker.lockerNumber++" has no unlock output"))
      (normalizeCode cardCode) (some employee.username) (some locker) false,[.denied],[]⟩
  else if Locker.busy runtime locker.id then
    ⟨db,runtime,s,answer true .ADMIN_OVERRIDE_ACCESS
      (some ("already "++Locker.stateName (runtime locker.id))) (some employee.cardCode)
      (some employee.username) (some locker) true,[],[]⟩
  else
    let unlocked := Locker.unlock config clock answers db runtime locker.id employee.cardCode meanwhile
    match unlocked.result with
    | .error reason =>
      ⟨unlocked.db,unlocked.runtime,s,answer false .LOCKER_ERROR (some reason)
        (normalizeCode cardCode) (some employee.username) (some locker) false,
        [.doorError,.denied],unlocked.writes⟩
    | .ok () =>
      ⟨unlocked.db,unlocked.runtime,{ s with opened := locker.id::s.opened },
        answer true .ADMIN_OVERRIDE_ACCESS (some (overrideReason config clock employee))
          (some employee.cardCode) (some employee.username) (some locker) false,
        [.granted],unlocked.writes⟩

/-- A user card in the override mode opens that person's own locker. -/
def processUserCard (answers : Answers) (db : Db)
    (runtime : Locker.Runtime) (s : State) (cardCode : Text)
    (meanwhile : Locker.Meanwhile := fun doors => doors) : Outcome :=
  let extended := { s with deadline := some (clock.now+config.admin.overrideTimeout) }
  match EmployeeDb.findByCard db cardCode with
  | none =>
    ⟨db,runtime,extended,answer false .CARD_NOT_FOUND
      (some "card is not in the local database") (normalizeCode cardCode) none none false,
      [.denied],[]⟩
  | some employee =>
    if (Employee.isExpired config clock employee || !Employee.isActive employee) &&
        !config.admin.overrideExpired then
      ⟨db,runtime,extended,answer false .ACCESS_DENIED
        (some ("admin.override_expired is off; the card is "++
          statusName config clock employee)) (normalizeCode cardCode) (some employee.username)
        none false,[.denied],[]⟩
    else match LockerDb.getByCard db employee.cardCode with
      | none =>
        ⟨db,runtime,extended,answer false .NO_LOCKER_ASSIGNED
          (some "no locker is assigned to this card") (normalizeCode cardCode)
          (some employee.username) none false,[.denied],[]⟩
      | some locker =>
        openOverride config clock answers db runtime extended cardCode employee locker meanwhile

def exitOverrideMode (s : State) : State × Bool :=
  if s.name = .NORMAL then (s,false) else (toNormal,true)

/-- A half-entered sequence and an open override lapse when nobody presents a card. -/
def processTimeout (scanTimeout : ℤ) (s : State) (now : ℤ) : State × Bool :=
  match s.name with
  | .NORMAL => (s,false)
  | .ADMIN_SCAN =>
    match s.lastScanAt with
    | none => (s,false)
    | some last => if now-last > scanTimeout then (toNormal,true) else (s,false)
  | .ADMIN_ACCESS_MODE =>
    match s.deadline with
    | none => (s,false)
    | some deadline => if now ≥ deadline then ((exitOverrideMode s).1,true) else (s,false)

end EMaster.AdminAccess
