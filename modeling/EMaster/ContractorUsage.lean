import EMaster.Employee

/-!
# The contractor's day

A contractor card has a period and a day. The period gate is the start date; the
day gate is the working hours, read from the settings with the stored overtime.
An open records the day, and a run of scans of one card in a row finishes it.
-/

set_option autoImplicit false

namespace EMaster.ContractorUsage
open KeyedTable Text LockerTime LockerConfig Database
open Employee

inductive Window where
  | before
  | morning
  | midday
  | afternoon
  | after
  deriving DecidableEq, Repr

structure Bounds where
  (morningStart morningEnd afternoonStart afternoonEnd : ℤ)

structure Sequence where
  card : Option Text
  count : ℕ
  lastAt : Option ℤ
  deriving DecidableEq, Repr

def overtimeKey : Text := "contractor_overtime_end"

def overtimeDateKey : Text := "contractor_overtime_date"

def clockMinutes (hour minute : Text) : Option ℤ :=
  if allDigits hour && allDigits minute then
    if digitsValue hour > 23 ∨ digitsValue minute > 59 then none
    else some (digitsValue hour*60+digitsValue minute)
  else none

def minutesText (text : Text) : Option ℤ :=
  match trim text with
  | [h1,':',m1,m2] => clockMinutes [h1] [m1,m2]
  | [h1,h2,':',m1,m2] => clockMinutes [h1,h2] [m1,m2]
  | [h1,h2,m1,m2] => clockMinutes [h1,h2] [m1,m2]
  | _ => none

def minutesOf : Option ClockSetting → Option ℤ
  | none => none
  | some (.minutes value) => some value
  | some (.text value) => minutesText value

def twoDigits (n : ℤ) : Text :=
  let text := (toString n).toList
  if text.length < 2 then '0'::text else text

def clockOf (minutes : ℤ) : Text := twoDigits (minutes/60)++[':']++twoDigits (minutes%60)

def boundary (raw : Option ClockSetting) (fallback : String) : ℤ :=
  ((minutesOf raw).or (minutesText fallback.toList)).getD 0

variable (config : Config) (clock : Clock)

def overtime (db : Db) : Option Text :=
  match db.metaGet overtimeKey with
  | none => none
  | some stored =>
    if config.contractor.overtimeExpiresDaily = false then some stored
    else if db.metaGet overtimeDateKey ≠ some (date clock clock.now) then none
    else some stored

def boundaries (db : Db) : Bounds :=
  let morningStart := boundary config.contractor.morningStart "08:00"
  let morningEnd := boundary config.contractor.morningEnd "09:30"
  let afternoonStart := boundary config.contractor.afternoonStart "17:00"
  let configured := boundary config.contractor.afternoonEnd "19:00"
  let extended := match (overtime config clock db).bind minutesText with
    | none => configured
    | some minutes => max minutes configured
  ⟨morningStart,morningEnd,afternoonStart,max extended afternoonStart⟩

def window (db : Db) : Window :=
  let bounds := boundaries config clock db
  let minutes : ℤ := (clock.hourMinute clock.now).1*60+(clock.hourMinute clock.now).2
  if minutes < bounds.morningStart then .before
  else if minutes ≤ bounds.morningEnd then .morning
  else if minutes < bounds.afternoonStart then .midday
  else if minutes ≤ bounds.afternoonEnd then .afternoon
  else .after

def isContractor (employee : EmployeeRow) : Bool := decide (employee.role = roleContractor)

def hasStarted (employee : EmployeeRow) : Bool :=
  match employee.startAt with
  | none => true
  | some startAt =>
    if startAt = [] then true
    else match parse clock startAt with
      | none => true
      | some (epoch,_) => decide (epoch ≤ clock.now)

structure Refusal where
  reason : Text
  event : Event
  deriving DecidableEq, Repr

def outOfHours (reason : Text) : Except Refusal Unit := .error ⟨reason,.USAGE_OUT_OF_HOURS⟩

/-- The start-date and working-hours gate. Only a contractor can be refused. -/
def checkDailyUsage (db : Db) (employee : EmployeeRow) : Except Refusal Unit :=
  if isContractor employee = false then .ok ()
  else if config.contractor.enforceStartDate && !hasStarted clock employee then
    .error ⟨"the contractor period starts on "++employee.startAt.getD [],.USAGE_NOT_STARTED⟩
  else if config.contractor.usageTimeoutEnabled = false then .ok ()
  else
    let bounds := boundaries config clock db
    match window config clock db with
    | .before =>
      outOfHours ("before the morning window opens at "++clockOf bounds.morningStart)
    | .midday =>
      outOfHours ("between the morning window (ends "++clockOf bounds.morningEnd++
        ") and the afternoon window (opens "++clockOf bounds.afternoonStart++[')'])
    | .after =>
      if config.contractor.allowOt then .ok ()
      else outOfHours ("after the afternoon window closed at "++
        clockOf bounds.afternoonEnd++" and overtime is not allowed")
    | _ => .ok ()

def completeTarget : ℕ := config.contractor.completeScanCount.toNat

def completeTimeout : ℤ := max 0 config.contractor.completeScanTimeout

def resetSequence : Sequence := ⟨none,0,none⟩

def continues (now : ℤ) (sequence : Sequence) (cardCode : Text) : Bool :=
  decide (sequence.card = some cardCode) &&
    (match sequence.lastAt with
      | none => false
      | some last => decide (completeTimeout config = 0 ∨ now-last ≤ completeTimeout config))

def noteScan (now : ℤ) (sequence : Sequence) (cardCode : Text) : Sequence × Bool :=
  let count := if continues config now sequence cardCode then sequence.count+1 else 1
  if completeTarget config > 0 ∧ count ≥ completeTarget config then (resetSequence,true)
  else (⟨some cardCode,count,some now⟩,false)

structure Marked where
  db : Db
  row : EmployeeRow
  changed : Bool

/-- The usage columns that one open writes; an absent entry leaves its column. -/
structure UsagePatch where
  (date startedAt : Option Text)
  lastOpenAt : Text
  completedAt : Option (Option Text)
  status : Option UsageStatus

def UsagePatch.apply (patch : UsagePatch) (row : EmployeeRow) : EmployeeRow :=
  { row with
    usageDate := patch.date.or row.usageDate
    usageStartedAt := patch.startedAt.or row.usageStartedAt
    usageLastOpenAt := some patch.lastOpenAt
    usageCompletedAt := patch.completedAt.getD row.usageCompletedAt
    usageStatus := patch.status.getD row.usageStatus }

theorem usage_patch_id (patch : UsagePatch) (row : EmployeeRow) : (patch.apply row).id = row.id :=
  rfl

def write (db : Db) (employee : EmployeeRow) (patch : UsagePatch) (changed : Bool) : Marked :=
  let db' := EmployeeDb.update db employee.id patch.apply (usage_patch_id patch)
  ⟨db',(EmployeeDb.findById db' employee.id).getD employee,changed⟩

def markUsed (db : Db) (employee : EmployeeRow) : Marked :=
  let today := date clock clock.now
  let now := stamp clock clock.now
  if employee.usageDate = some today then
    if employee.usageStatus = .USING then write db employee ⟨none,none,now,none,none⟩ false
    else
      write db employee ⟨none,if employee.usageStartedAt = none then some now else none,now,
        some none,some .USING⟩ true
  else write db employee ⟨some today,some now,now,some none,some .USING⟩ true

def markCompleted (db : Db) (employee : EmployeeRow) : Marked :=
  let today := date clock clock.now
  let now := stamp clock clock.now
  if employee.usageDate = some today ∧ employee.usageStatus = .COMPLETED then
    write db employee ⟨none,none,now,none,none⟩ false
  else
    write db employee ⟨some today,
      if employee.usageDate ≠ some today ∨ employee.usageStartedAt = none then some now else none,
      now,some (some now),some .COMPLETED⟩ true

structure Opened where
  db : Db
  sequence : Sequence
  row : EmployeeRow
  changed : Bool

def onLockerOpen (db : Db) (sequence : Sequence)
    (employee : EmployeeRow) : Opened :=
  let noted := noteScan config clock.now sequence employee.cardCode
  let marked := if noted.2 then markCompleted clock db employee else markUsed clock db employee
  ⟨marked.db,noted.1,marked.row,marked.changed⟩

def isReclaimable (employee : EmployeeRow) : Bool :=
  isContractor employee && isExpired config clock employee &&
    decide (employee.usageStatus = .COMPLETED)

def reclaimable (db : Db) : List EmployeeRow :=
  (EmployeeDb.byRole db roleContractor).filter (isReclaimable config clock)

variable (clk : Clock) (db : Db)

variable (emp : EmployeeRow)

theorem mark_used_lockers : (markUsed clk db emp).db.lockers = db.lockers := by
  unfold markUsed
  dsimp only
  split_ifs <;> rfl

theorem mark_completed_lockers : (markCompleted clk db emp).db.lockers = db.lockers := by
  unfold markCompleted
  dsimp only
  split_ifs <;> rfl

theorem on_locker_open_lockers (cfg : Config) (clk : Clock) (db : Db) (sq : Sequence)
    (emp : EmployeeRow) :
    (onLockerOpen cfg clk db sq emp).db.lockers = db.lockers := by
  unfold onLockerOpen
  dsimp only
  split_ifs
  · exact mark_completed_lockers clk db emp
  · exact mark_used_lockers clk db emp

end EMaster.ContractorUsage
