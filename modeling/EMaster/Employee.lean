import EMaster.Database
import EMaster.LockerConfig

/-!
# Card records and their reconciliation with the server

A server record is validated, then inserted or merged into the row that has its
card code. A full synchronisation applies every record of the list and then
deactivates the active rows whose code was not seen among the accepted records.
-/

set_option autoImplicit false

namespace EMaster.Employee
open KeyedTable Text LockerTime LockerConfig Database List EmployeeDb Option

structure Record where
  (username cardCode role gender expireAt startAt : Option Text)
  active : Bool
  lockerId : Option ℕ
  deriving DecidableEq, Repr

structure Validated where
  (username cardCode role : Text)
  (gender expireAt startAt : Option Text)
  active : Bool
  lockerId : Option ℕ
  normalized : normalizeCode cardCode = some cardCode

def roleEmployee : Text := "employee"

def roleContractor : Text := "contractor"

def genderFemale : Text := "female"

def genderMale : Text := "male"

def rolePatterns : List (Text × Text) :=
  [("contractor",roleContractor),("nha thau",roleContractor),
   ("nhà thầu",roleContractor),("vendor",roleContractor),
   ("subcontract",roleContractor),("guest",roleContractor),
   ("employee",roleEmployee),("staff",roleEmployee),
   ("nhan vien",roleEmployee),("nhân viên",roleEmployee)]

/-- A short pattern must be the whole text, the others may stand anywhere in it. -/
def genderPatterns : List (Text × Bool × Text) :=
  [("female",false,genderFemale),("woman",false,genderFemale),
   ("f",true,genderFemale),("nu",false,genderFemale),
   ("nữ",false,genderFemale),("male",false,genderMale),
   ("man",false,genderMale),("m",true,genderMale),
   ("nam",false,genderMale)]

variable (value : Option Text)

def normalizeRole : Option Text :=
  value.bind (fun text =>
    (rolePatterns.find? (fun entry => decide (entry.1 <:+: lower text))).map Prod.snd)

def genderMatches (text : Text) (entry : Text × Bool × Text) : Bool :=
  if entry.2.1 then decide (text = entry.1) else decide (entry.1 <:+: text)

def normalizeGender : Option Text :=
  value.bind (fun text =>
    (genderPatterns.find? (genderMatches (trim (lower text)))).map (fun entry => entry.2.2))

def nonEmpty : Option Text := value.filter (fun text => !text.isEmpty)

variable (clock : Clock)

def readable (value : Option Text) : Bool :=
  match value with
  | none => true
  | some text => (parse clock text).isSome

def validate (record : Record) : Except Text Validated :=
  match hc : record.cardCode.bind normalizeCode with
  | none => .error "record has no card_code"
  | some cardCode =>
    let expireAt := nonEmpty record.expireAt
    let startAt := nonEmpty record.startAt
    if readable clock expireAt then
      .ok {
        username := record.username.getD []
        cardCode := cardCode
        role := (normalizeRole record.role).getD roleEmployee
        gender := normalizeGender record.gender
        expireAt := expireAt
        startAt := if readable clock startAt then startAt else none
        active := record.active
        lockerId := record.lockerId
        normalized := by
          obtain ⟨raw,_,hn⟩ := Option.bind_eq_some_iff.mp hc
          exact normalize_code_idempotent hn }
    else
      .error ("card "++cardCode++": expire_at '"++expireAt.getD []++
        "' is not a date")

def isActive (employee : EmployeeRow) : Bool := employee.active

def isExpired (config : Config) (clock : Clock) (employee : EmployeeRow) : Bool :=
  LockerTime.isExpired clock employee.expireAt config.sync.expireAtEndOfDay

/-- The columns that a merge writes; an absent entry leaves its column alone. -/
structure Patch where
  (username role gender : Option Text)
  expireAt : Option (Option Text)
  startAt : Option Text
  active : Option Bool
  deriving DecidableEq, Repr

def changed {α : Type} [DecidableEq α] (write : Bool) (old new : α) : Option α :=
  if write && decide (old ≠ new) then some new else none

def changesOf (existing : EmployeeRow) (validated : Validated) : Patch where
  username := changed (!validated.username.isEmpty) existing.username validated.username
  role := changed true existing.role validated.role
  gender := validated.gender.bind (fun gender =>
    (changed true existing.gender (some gender)).bind id)
  expireAt := changed true existing.expireAt validated.expireAt
  startAt := validated.startAt.bind (fun startAt =>
    (changed true existing.startAt (some startAt)).bind id)
  active := changed true existing.active validated.active

def Patch.isEmpty (patch : Patch) : Bool := decide (patch = ⟨none,none,none,none,none,none⟩)

def Patch.apply (patch : Patch) (row : EmployeeRow) : EmployeeRow :=
  { row with
    username := patch.username.getD row.username
    role := patch.role.getD row.role
    gender := patch.gender.or row.gender
    expireAt := patch.expireAt.getD row.expireAt
    startAt := patch.startAt.or row.startAt
    active := patch.active.getD row.active }

theorem patch_apply_id (patch : Patch) (row : EmployeeRow) : (patch.apply row).id = row.id := rfl

def inserted (validated : Validated) (id : ℕ) : EmployeeRow where
  id := id
  username := validated.username
  cardCode := validated.cardCode
  role := validated.role
  gender := validated.gender
  expireAt := validated.expireAt
  active := validated.active
  lockerId := validated.lockerId
  startAt := validated.startAt
  usageDate := none
  usageStartedAt := none
  usageLastOpenAt := none
  usageCompletedAt := none
  usageStatus := .NOT_STARTED

theorem inserted_id (val : Validated) (id : ℕ) : (inserted val id).id = id := rfl

def insert (db : Db) (validated : Validated) : Db :=
  { db with employees := db.employees.insert (inserted validated) (inserted_id _) }

inductive Action where
  | added
  | updated
  | unchanged
  deriving DecidableEq, Repr

structure Upserted where
  db : Db
  row : EmployeeRow
  action : Action

def upsert (db : Db) (record : Record) : Except Text Upserted :=
  match validate clock record with
  | .error reason => .error reason
  | .ok validated =>
    match EmployeeDb.findByCard db validated.cardCode with
    | none => .ok ⟨insert db validated,inserted validated (db.employees.last+1),.added⟩
    | some existing =>
      let patch := changesOf existing validated
      if patch.isEmpty then .ok ⟨db,existing,.unchanged⟩
      else
        let db' := EmployeeDb.update db existing.id patch.apply (patch_apply_id patch)
        .ok ⟨db',patch.apply existing,.updated⟩

structure Changes where
  (added updated deactivated : List EmployeeRow)

structure Applied where
  db : Db
  seen : List Text
  (added updated : List EmployeeRow)
  (unchanged invalid : ℕ)

def applyRecord (s : Applied) (record : Record) : Applied :=
  match upsert clock s.db record with
  | .error _ => { s with invalid := s.invalid+1 }
  | .ok ⟨db,row,action⟩ =>
    let s' := { s with db := db, seen := s.seen++[row.cardCode] }
    match action with
    | .added => { s' with added := s.added++[row] }
    | .updated => { s' with updated := s.updated++[row] }
    | .unchanged => { s' with unchanged := s.unchanged+1 }

def applyRecords (db : Db) (list : List Record) : Applied :=
  list.foldl (applyRecord clock) ⟨db,[],[],[],0,0⟩

def deactivateRow (db : Db) (row : EmployeeRow) : Db :=
  if row.active then EmployeeDb.setActive db row.id false else db

structure Synced where
  db : Db
  changes : Changes
  (unchanged invalid : ℕ)

def sync (db : Db) (list : List Record) (fullList : Bool) : Synced :=
  let s := applyRecords clock db list
  let missing := if fullList then EmployeeDb.missingFrom s.db s.seen else []
  { db := missing.foldl deactivateRow s.db
    changes := ⟨s.added,s.updated,missing.filter (fun row => row.active)⟩
    unchanged := s.unchanged
    invalid := s.invalid }

def acceptedCode (record : Record) : Option Text :=
  match validate clock record with
  | .error _ => none
  | .ok validated => some validated.cardCode

def accepted (list : List Record) : List Text := list.filterMap (acceptedCode clock)

def mentioned (list : List Record) : List Text :=
  list.filterMap (fun record => record.cardCode.bind normalizeCode)

variable (clk : Clock) (db : Db) (list : List Record)
  (done : List Record) (row : EmployeeRow) (rec : Record) (val : Validated) (id : ℕ)

theorem validate_code (h : validate clk rec = .ok val) :
    rec.cardCode.bind normalizeCode = some val.cardCode := by
  unfold validate at h
  split at h
  · exact nomatch h
  · next code hc =>
    dsimp only at h
    split_ifs at h <;> rw [hc,← Except.ok.inj h]

variable {code : Text}

theorem accepted_code_mentioned (h : acceptedCode clk rec = some code) :
    rec.cardCode.bind normalizeCode = some code := by
  unfold acceptedCode at h
  cases hv : validate clk rec with
  | error why =>
    rw [hv] at h
    exact nomatch h
  | ok val =>
    rw [hv] at h
    rw [validate_code clk rec val hv]
    exact h

theorem accepted_normalized (code : Text) (h : code ∈ accepted clk list) :
    normalizeCode code = some code := by
  obtain ⟨rec,_,hc⟩ := mem_filterMap.mp h
  obtain ⟨raw,_,hn⟩ := bind_eq_some_iff.mp (accepted_code_mentioned clk rec hc)
  exact normalize_code_idempotent hn

/-- What one accepted record does: its row has its code, and every row with
another code stays as it is. -/
structure Merged (db : Db) (code : Text) (u : Upserted) : Prop where
  rowCode : u.row.cardCode = code
  frame : ∀ row : EmployeeRow, row.cardCode ≠ code →
    (row ∈ u.db.employees.rows ↔ row ∈ db.employees.rows)
  lockers : u.db.lockers = db.lockers

theorem insert_merged :
    Merged db val.cardCode ⟨insert db val,inserted val (db.employees.last+1),.added⟩ := by
  refine ⟨rfl,?_,rfl⟩
  intro row hne
  change row ∈ (db.employees.insert (inserted val) (inserted_id val)).rows ↔ _
  rw [mem_insert]
  constructor
  · rintro (hold | rfl)
    · exact hold
    · exact absurd rfl hne
  · exact .inl

theorem update_merged {existing : EmployeeRow} (patch : Patch) (action : Action)
    (hm : existing ∈ db.employees.rows) :
    Merged db existing.cardCode
      ⟨update db existing.id patch.apply (patch_apply_id patch),patch.apply existing,action⟩ := by
  refine ⟨rfl,?_,rfl⟩
  intro row hne
  change row ∈ (db.employees.modify existing.id patch.apply (patch_apply_id patch)).rows ↔ _
  constructor
  · intro hr
    obtain ⟨old,hold,rfl⟩ := (mem_modify _ _ _ _).mp hr
    unfold patchRow at hne ⊢
    split_ifs at hne ⊢ with hid
    · rw [key_injective _ old hold hm hid] at hne
      exact absurd rfl hne
    · exact hold
  · intro hr
    apply mem_modify_other _ _ _ hr
    intro hid
    rw [key_injective _ row hr hm hid] at hne
    exact absurd rfl hne

variable {val}

theorem upsert_ok (hv : validate clk rec = .ok val) :
    ∃ u, upsert clk db rec = .ok u ∧ Merged db val.cardCode u := by
  unfold upsert
  rw [hv]
  dsimp only
  cases hf : findByCard db val.cardCode with
  | none => exact ⟨_,rfl,insert_merged db val⟩
  | some old =>
    obtain ⟨hc,hm⟩ := find_by_card_some db _ old hf
    rw [val.normalized] at hc
    rw [some.inj hc]
    dsimp only
    split_ifs with he
    · exact ⟨_,rfl,rfl,fun _ _ => Iff.rfl,rfl⟩
    · exact ⟨_,rfl,update_merged db _ _ hm⟩

structure Reached (clock : Clock) (db : Db) (done : List Record) (s : Applied) : Prop where
  seen : s.seen = accepted clock done
  frame : ∀ row : EmployeeRow, row.cardCode ∉ accepted clock done →
    (row ∈ s.db.employees.rows ↔ row ∈ db.employees.rows)
  lockers : s.db.lockers = db.lockers

theorem accepted_snoc :
    accepted clk (done++[rec]) = accepted clk done++(acceptedCode clk rec).toList := by
  rw [accepted,filterMap_append]
  cases h : acceptedCode clk rec <;> simp [accepted,h]

theorem apply_record_reached (s : Applied) (rec : Record) (h : Reached clk db done s) :
    Reached clk db (done++[rec]) (applyRecord clk s rec) := by
  have hs := accepted_snoc clk done rec
  cases hv : validate clk rec with
  | error why =>
    have hc : acceptedCode clk rec = none := by simp [acceptedCode,hv]
    rw [hc,toList_none,append_nil] at hs
    have hst : applyRecord clk s rec = { s with invalid := s.invalid+1 } := by
      simp [applyRecord,upsert,hv]
    rw [hst]
    exact ⟨by rw [hs]; exact h.seen,by rw [hs]; exact h.frame,h.lockers⟩
  | ok val =>
    have hc : acceptedCode clk rec = some val.cardCode := by
      simp [acceptedCode,hv]
    rw [hc,toList_some] at hs
    obtain ⟨⟨db',row,action⟩,hu,hr,hf,hl⟩ := upsert_ok clk s.db rec hv
    have hsn : (applyRecord clk s rec).seen = s.seen++[row.cardCode] := by
      unfold applyRecord
      rw [hu]
      cases action <;> rfl
    have hdb : (applyRecord clk s rec).db = db' := by
      unfold applyRecord
      rw [hu]
      cases action <;> rfl
    refine ⟨?_,?_,?_⟩
    · rw [hsn,hs,h.seen,hr]
    · rw [hdb,hs]
      intro o ho
      rw [mem_append,mem_singleton,not_or] at ho
      exact (hf o ho.2).trans (h.frame o ho.1)
    · rw [hdb]
      exact hl.trans h.lockers

theorem foldl_reached (list : List Record) (s : Applied) (h : Reached clk db done s) :
    Reached clk db (done++list) (list.foldl (applyRecord clk) s) := by
  induction list generalizing done s with
  | nil => simpa using h
  | cons rec rest ih =>
    have := ih (done++[rec]) (applyRecord clk s rec) (apply_record_reached clk db done s rec h)
    simpa using this

/-- The whole loop: the seen codes are those of the accepted records. -/
theorem apply_records_reached : Reached clk db list (applyRecords clk db list) :=
  foldl_reached clk db [] list _ ⟨rfl,fun _ _ => Iff.rfl,rfl⟩

theorem mem_missing_from {codes : List Text} (row : EmployeeRow)
    (hn : ∀ code ∈ codes, normalizeCode code = some code) :
    row ∈ missingFrom db codes ↔ row ∈ db.employees.rows ∧ row.cardCode ∉ codes := by
  have hc : codes.filterMap normalizeCode = codes := by
    rw [filterMap_congr (g := some) hn,filterMap_some]
  have ha : row ∈ all db ↔ row ∈ db.employees.rows := mem_insertionSort _
  unfold missingFrom
  dsimp only
  rw [hc]
  split_ifs with he
  · rw [ha,he]
    simp
  · rw [mem_filter,ha,decide_eq_true_iff]

/-- The rows a full list withdraws: the active ones whose stored code is not that
of an accepted record. -/
theorem mem_deactivated :
    row ∈ (sync clk db list true).changes.deactivated ↔
      row ∈ db.employees.rows ∧ row.active = true ∧ row.cardCode ∉ accepted clk list := by
  have h := apply_records_reached clk db list
  have hn : ∀ code ∈ (applyRecords clk db list).seen, normalizeCode code = some code := by
    rw [h.seen]
    exact accepted_normalized clk list
  change row ∈ (missingFrom _ _).filter _ ↔ _
  rw [mem_filter,mem_missing_from _ row hn,h.seen]
  constructor
  · rintro ⟨⟨hm,hc⟩,ha⟩
    exact ⟨(h.frame row hc).mp hm,ha,hc⟩
  · rintro ⟨hm,ha,hc⟩
    exact ⟨⟨(h.frame row hc).mpr hm,hc⟩,ha⟩

def Inactive (db : Db) (id : ℕ) : Prop :=
  ∃ row, EmployeeDb.findById db id = some row ∧ row.active = false

theorem set_active_get (o : ℕ) (active : Bool) :
    findById (setActive db id active) o =
      (findById db o).map (patchRow EmployeeRow.id id (withActive active)) :=
  get_modify _ id o _ (with_active_id _)

theorem deactivate_row_keeps (h : Inactive db id) : Inactive (deactivateRow db row) id := by
  obtain ⟨old,hold,ha⟩ := h
  unfold deactivateRow
  split_ifs
  · refine ⟨_,by rw [set_active_get,hold]; rfl,?_⟩
    unfold patchRow
    split_ifs
    · rfl
    · exact ha
  · exact ⟨old,hold,ha⟩

theorem deactivate_row_keeps_row (h : (findById db id).isSome) :
    (findById (deactivateRow db row) id).isSome := by
  unfold deactivateRow
  split_ifs
  · rw [set_active_get,isSome_map]
    exact h
  · exact h

theorem deactivate_row_inactive (ha : row.active = true)
    (h : (findById db row.id).isSome) : Inactive (deactivateRow db row) row.id := by
  obtain ⟨old,hold⟩ := isSome_iff_exists.mp h
  have hid : old.id = row.id := ((get_some _ _ old).mp hold).2
  rw [deactivateRow,if_pos ha]
  exact ⟨withActive false old,by rw [set_active_get,hold,map_some,patchRow,if_pos hid],rfl⟩

theorem deactivate_rows_inactive (rows : List EmployeeRow) (db : Db) (row : EmployeeRow)
    (hm : row ∈ rows) (ha : row.active = true) (h : (findById db row.id).isSome) :
    Inactive (rows.foldl deactivateRow db) row.id := by
  induction rows generalizing db with
  | nil => exact absurd hm not_mem_nil
  | cons first rest ih =>
    rw [foldl_cons]
    rcases mem_cons.mp hm with rfl | hr
    · exact List.foldlRecOn rest deactivateRow (deactivate_row_inactive db row ha h)
        (fun db' hdb other _ => deactivate_row_keeps db' other row.id hdb)
    · exact ih _ hr (deactivate_row_keeps_row db first _ h)

variable {row}

theorem sync_inactive (h : row ∈ (sync clk db list true).changes.deactivated) :
    Inactive (sync clk db list true).db row.id := by
  have hr := apply_records_reached clk db list
  obtain ⟨hm,ha,hc⟩ := (mem_deactivated clk db list row).mp h
  have hn : ∀ code ∈ (applyRecords clk db list).seen, normalizeCode code = some code := by
    rw [hr.seen]
    exact accepted_normalized clk list
  have hm' := (hr.frame row hc).mpr hm
  apply deactivate_rows_inactive
  · rw [if_pos rfl,mem_missing_from _ row hn,hr.seen]
    exact ⟨hm',hc⟩
  · exact ha
  · exact isSome_iff_exists.mpr ⟨row,get_key _ row hm'⟩

end EMaster.Employee
