import EMaster.AdminAccess
import EMaster.Assignment

/-!
# What happens when a card is presented

The decision chain of one swipe over the local tables: admin card, override,
known card, active, period, contractor day, locker, type and block, door in
flight, unlock. The clock stands still during the call and statements succeed. Events and
requests that are handled while the pulse is held come as `meanwhile`.
-/

set_option autoImplicit false

namespace EMaster.Access
open KeyedTable Text LockerTime LockerConfig Database List LockerDb
open Modbus ContractorUsage AdminAccess

structure State where
  db : Db
  runtime : Locker.Runtime
  sequence : Sequence
  admin : AdminAccess.State

structure Presented where
  state : State
  result : Result
  sounds : List Sound
  writes : List Write

def denied (event : Event) (reason : Text) (cardCode username : Option Text)
    (locker : Option LockerRow) : Result :=
  ⟨false,event,some reason,cardCode,username,locker,false,none⟩

def deny (s : State) (result : Result) (sound : Sound) : Presented := ⟨s,result,[sound],[]⟩

def expireHeld (db : Db) (employee : EmployeeRow) : Db :=
  match LockerDb.getByCard db employee.cardCode with
  | none => db
  | some held =>
    if held.status = .ERROR then db else LockerDb.setStatus db held.id .EXPIRED none

def denyExpired (s : State) (employee : EmployeeRow) : Presented :=
  deny { s with db := expireHeld s.db employee }
    (denied .CARD_EXPIRED ("expired on "++employee.expireAt.getD "nil")
      (some employee.cardCode) (some employee.username)
      (LockerDb.getByCard s.db employee.cardCode)) .expiredCard

structure Located where
  db : Db
  locker : Option LockerRow

variable (config : Config) (clock : Clock)

def locate (db : Db) (employee : EmployeeRow) (block : Option Block) : Located :=
  match LockerDb.getByCard db employee.cardCode with
  | some locker => ⟨db,some locker⟩
  | none =>
    if config.locker.assignOnScan then
      let assigned := Assignment.assign config clock db employee (block.map Block.id)
      ⟨assigned.db,assigned.locker.toOption⟩
    else ⟨db,none⟩

def misplaced (employee : EmployeeRow) (block : Option Block) (locker : LockerRow) : Option Text :=
  if Assignment.typeMatches config employee locker = false then
    some ("locker "++ofNat locker.lockerNumber++" is a "++locker.lockerType++
      " locker, the card is "++employee.role)
  else match block with
    | none => none
    | some block =>
      if block.type ≠ locker.lockerType then
        some ("presented at the "++block.type++" block, locker is "++
          locker.lockerType)
      else if config.locker.enforceBlock && decide (locker.blockId ≠ block.id) then
        some ("locker is in block "++ofNat locker.blockId++
          ", card presented at block "++ofNat block.id)
      else none

def granted (employee : EmployeeRow) (locker : LockerRow) (usageStatus : Option UsageStatus) :
    Result :=
  ⟨true,.ACCESS_GRANTED,none,some employee.cardCode,some employee.username,some locker,false,
    usageStatus⟩

/-- The day is recorded once the pulse has gone out. -/
def recordOpen (s : State) (employee : EmployeeRow)
    (locker : LockerRow) (writes : List Write) : Presented :=
  if isContractor employee then
    let opened := onLockerOpen config clock s.db s.sequence employee
    ⟨{ s with db := opened.db, sequence := opened.sequence },
      granted opened.row locker (some opened.row.usageStatus),
      [if opened.changed && decide (opened.row.usageStatus = .COMPLETED) then .dayComplete
        else .granted],writes⟩
  else ⟨s,granted employee locker none,[.granted],writes⟩

def openLocker (answers : Answers) (s : State)
    (employee : EmployeeRow) (locker : LockerRow)
    (meanwhile : Locker.Meanwhile := fun doors => doors) : Presented :=
  if Locker.busy s.runtime locker.id then
    ⟨s,⟨true,.ACCESS_GRANTED,none,some employee.cardCode,none,some locker,true,none⟩,[],[]⟩
  else
    let unlocked :=
      Locker.unlock config clock answers s.db s.runtime locker.id employee.cardCode meanwhile
    let s' := { s with db := unlocked.db, runtime := unlocked.runtime }
    match unlocked.result with
    | .error reason =>
      ⟨s',denied .LOCKER_ERROR reason (some employee.cardCode) (some employee.username)
        (some locker),[.doorError],unlocked.writes⟩
    | .ok () => recordOpen config clock s' employee locker unlocked.writes

def serveEmployee (answers : Answers) (s : State)
    (employee : EmployeeRow) (block : Option Block)
    (meanwhile : Locker.Meanwhile := fun doors => doors) : Presented :=
  let located := locate config clock s.db employee block
  let s' := { s with db := located.db }
  match located.locker with
  | none =>
    deny s' (denied .NO_LOCKER_ASSIGNED "no locker is assigned and none is free"
      (some employee.cardCode) (some employee.username) none) .denied
  | some locker =>
    match misplaced config employee block locker with
    | some reason =>
      deny s' (denied .WRONG_LOCKER_TYPE reason (some employee.cardCode) (some employee.username)
        (some locker)) .wrongLocker
    | none => openLocker config clock answers s' employee locker meanwhile

def serveCard (answers : Answers) (s : State) (cardCode : Text) (block : Option Block)
    (meanwhile : Locker.Meanwhile := fun doors => doors) : Presented :=
  match EmployeeDb.findByCard s.db cardCode with
  | none =>
    deny s (denied .CARD_NOT_FOUND "card is not in the local database" (some cardCode)
      none none) .unknownCard
  | some employee =>
    if Employee.isActive employee = false then
      deny s (denied .CARD_INACTIVE "card is inactive" (some employee.cardCode)
        (some employee.username) none) .denied
    else if Employee.isExpired config clock employee then denyExpired s employee
    else match checkDailyUsage config clock s.db employee with
      | .error refusal =>
        deny s (denied refusal.event refusal.reason (some employee.cardCode)
          (some employee.username) (LockerDb.getByCard s.db employee.cardCode)) .denied
      | .ok () => serveEmployee config clock answers s employee block meanwhile

def ofAdmin (s : State) (outcome : Outcome) : Presented :=
  ⟨{ s with db := outcome.db, runtime := outcome.runtime, admin := outcome.admin },
    outcome.result,outcome.sounds,outcome.writes⟩

def presentedBlock (blockId : Option ℕ) : Option Block :=
  config.block (blockId.getD (config.defaultBlock.getD 1))

def onCard (answers : Answers) (s : State) (cardCode : Text) (blockId : Option ℕ)
    (meanwhile : Locker.Meanwhile := fun doors => doors) : Presented :=
  if cardCode = [] then
    deny s (denied .ACCESS_DENIED "empty card code" none none none) .unknownCard
  else if isAdminCard config cardCode then
    ofAdmin s (onAdminScan config clock answers s.db s.runtime s.admin cardCode meanwhile)
  else if isOverrideActive s.admin then
    ofAdmin s (processUserCard config clock answers s.db s.runtime s.admin cardCode meanwhile)
  else
    serveCard config clock answers { s with admin := noteOtherCard s.admin } cardCode
      (presentedBlock config blockId) meanwhile

variable (cfg : Config) (clk : Clock) (answers : Answers) (s : State)
  {emp : EmployeeRow} {locker : LockerRow} {block : Option Block}

/-- What entitles a write: the card's own record passed every gate, and the driven output is
that of a locker which holds the card. -/
structure Entitled (config : Config) (clock : Clock) (before : Db) (cardCode : Text)
    (employee : EmployeeRow) (locker : LockerRow) (write : Write) : Prop where
  known : EmployeeDb.findByCard before cardCode = some employee
  active : employee.active = true
  unexpired : Employee.isExpired config clock employee = false
  usage : checkDailyUsage config clock before employee = .ok ()
  holds : locker.cardCode = normalizeCode cardCode
  type : config.locker.allowCrossType = true ∨ locker.lockerType = employee.role
  output : ∃ register bit, locker.outputRegister = some register ∧
    locker.outputBit = some bit ∧ Drives config.plc register bit write

/-- The clear of the output that this write set was refused. -/
def ClearRefused (config : Config) (answers : Answers) (write : Write) : Prop :=
  ∃ reason, (writeBit config.plc answers.onClear write.address write.bit false).result =
    .error reason

/-- The card is on this locker. -/
def Carries (db : Db) (lockerId : ℕ) (code : Option Text) : Prop :=
  ∃ row, LockerDb.get db lockerId = some row ∧ row.cardCode = code

/-- The safety of one swipe. The tables at the pulse are those in which the locker was looked
up or given; what is handled while the pulse is held comes after. -/
structure Safe (config : Config) (clock : Clock) (answers : Answers) (s : State)
    (cardCode : Text) (block : Option Block) (meanwhile : Locker.Meanwhile) (p : Presented) :
    Prop where
  one : (pulses p.writes).length ≤ 1
  entitled : ∀ write ∈ pulses p.writes, ∃ employee locker,
    Entitled config clock s.db cardCode employee locker write ∧
      (∀ b, block = some b → locker.lockerType = b.type) ∧
      LockerDb.get (locate config clock s.db employee block).db locker.id = some locker ∧
      (Carries (meanwhile ((locate config clock s.db employee block).db,s.runtime)).1 locker.id
          locker.cardCode →
        Carries p.state.db locker.id locker.cardCode)
  denied : p.result.granted = false → ∀ write ∈ pulses p.writes,
    p.result.event = .LOCKER_ERROR ∧ ClearRefused config answers write

variable (mw : Locker.Meanwhile)

def plcAnswers (onSet onClear : Bool) : Answers :=
  ⟨false,⟨fun _ _ => none,fun _ _ _ => onSet⟩,⟨fun _ _ => none,fun _ _ _ => onClear⟩⟩

end EMaster.Access
