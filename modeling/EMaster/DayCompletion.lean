import EMaster.OverrideFrame
import EMaster.Runs

/-!
# The gesture that finishes a contractor's day

A contractor presents one card several times in a row. A presentation is counted only
if it reaches the open: outside the override, within the gates, and with the door of
the locker at rest. What the day's record shows at the end is decided by the last
presentation that was counted.
-/

set_option autoImplicit false

namespace EMaster.DayCompletion
open KeyedTable LockerTime LockerConfig Database List EmployeeDb LockerDb Locker
open Modbus ContractorUsage AdminAccess Access
open OverrideFrame Runs

structure Presentation where
  clock : Clock
  answers : Answers
  doors : Locker.Runtime → Locker.Runtime
  blockId : Option ℕ

def present (config : Config) (cardCode : Text) (s : Access.State) (p : Presentation) :
    Access.State :=
  (onCard config p.clock p.answers { s with runtime := p.doors s.runtime } cardCode p.blockId).state

def counted (config : Config) (cardCode : Text) (employee : EmployeeRow) (locker : LockerRow)
    (s : Access.State) (p : Presentation) : Bool :=
  !isAdminCard config cardCode && !isOverrideActive s.admin &&
    (checkDailyUsage config p.clock s.db employee).isOk &&
    (misplaced config employee (presentedBlock config p.blockId) locker).isNone &&
    !Locker.busy (p.doors s.runtime) locker.id

structure Working (db : Db) (cardCode : Text) (employee : EmployeeRow) (locker : LockerRow) :
    Prop where
  known : EmployeeDb.findByCard db cardCode = some employee
  contractor : isContractor employee = true
  active : employee.active = true
  holds : LockerDb.getByCard db employee.cardCode = some locker
  wired : LockerDb.canUnlock locker = true

/-- On this day, within the period of the card, and the controller drives the output. -/
structure Usable (config : Config) (employee : EmployeeRow) (locker : LockerRow) (day : Text)
    (p : Presentation) : Prop where
  day : date p.clock p.clock.now = day
  unexpired : Employee.isExpired config p.clock employee = false
  driven : ∀ register bit, locker.outputRegister = some register → locker.outputBit = some bit →
    (triggerBit config.plc p.answers register bit).result = .ok ()

def CompletedOn (day : Text) (db : Db) (cardCode : Text) : Prop :=
  ∃ row, EmployeeDb.findByCard db cardCode = some row ∧ row.usageStatus = .COMPLETED ∧
    row.usageDate = some day

def countedTimes (config : Config) (cardCode : Text) (employee : EmployeeRow)
    (locker : LockerRow) : Access.State → List Presentation → List ℤ
  | _, [] => []
  | s, p::ps =>
    if counted config cardCode employee locker s p then
      p.clock.now::countedTimes config cardCode employee locker (present config cardCode s p) ps
    else countedTimes config cardCode employee locker (present config cardCode s p) ps

def lastScan (config : Config) (code : Text) : Sequence → List ℤ → Option Bool
  | _, [] => none
  | sequence, now::rest =>
    let noted := noteScan config now sequence code
    (lastScan config code noted.1 rest).or (some noted.2)

def withoutUsage (row : EmployeeRow) : EmployeeRow :=
  { row with
    usageDate := none
    usageStartedAt := none
    usageLastOpenAt := none
    usageCompletedAt := none
    usageStatus := .NOT_STARTED }

/-- The state between two presentations outside the override: the same card and doors,
whatever the day's record says. -/
structure Serving (db : Db) (cardCode : Text) (employee : EmployeeRow) (s : Access.State)
    (row : EmployeeRow) : Prop where
  known : EmployeeDb.findByCard s.db cardCode = some row
  same : withoutUsage row = withoutUsage employee
  lockers : s.db.lockers = db.lockers
  settings : s.db.metaGet = db.metaGet
  ordinary : isOverrideActive s.admin = false

variable {row : EmployeeRow} {db : Db}

theorem check_daily_usage_same (cfg : Config) (clk : Clock) {db' : Db} {employee : EmployeeRow}
    (hs : withoutUsage row = withoutUsage employee) (hm : db'.metaGet = db.metaGet) :
    checkDailyUsage cfg clk db' row = checkDailyUsage cfg clk db employee := by
  have hr : checkDailyUsage cfg clk db' (withoutUsage row) =
      checkDailyUsage cfg clk db (withoutUsage employee) := by
    rw [hs]
    unfold checkDailyUsage window boundaries overtime
    rw [hm]
  exact hr

variable {emp : EmployeeRow}

theorem misplaced_same (cfg : Config) (block : Option Block) (locker : LockerRow)
    (hs : withoutUsage row = withoutUsage emp) :
    misplaced cfg row block locker = misplaced cfg emp block locker := by
  have hr : misplaced cfg (withoutUsage row) block locker =
      misplaced cfg (withoutUsage emp) block locker := by rw [hs]
  exact hr

variable {locker : LockerRow} {day : Text} {p : Presentation}

theorem unlock_driven {cfg : Config} (rt : Locker.Runtime) (card : Text)
    (hg : get db locker.id = some locker) (hw : canUnlock locker = true)
    (hu : Usable cfg emp locker day p) :
    (unlock cfg p.clock p.answers db rt locker.id card).db = db ∧
      (unlock cfg p.clock p.answers db rt locker.id card).result = .ok () := by
  simp only [canUnlock,Bool.and_eq_true,Option.isSome_iff_exists] at hw
  obtain ⟨⟨reg,hr⟩,bit,hb⟩ := hw
  have hd := hu.driven reg bit hr hb
  simp [unlock,hg,hr,hb,hd]

/-- What a state is left with by a presentation: the tables and the count. -/
structure Leaves (s' : Access.State) (db : Db) (sequence : Sequence) : Prop where
  db : s'.db = db
  sequence : s'.sequence = sequence
  ordinary : isOverrideActive s'.admin = false

variable {s : Access.State}

/-- Opening the locker of the card: ignored while the door is in flight, recorded
otherwise. -/
theorem open_locker_leaves {cfg : Config} (hg : get s.db locker.id = some locker)
    (hw : canUnlock locker = true) (hc : isContractor row = true)
    (ho : isOverrideActive s.admin = false) (hu : Usable cfg emp locker day p) :
    Leaves (openLocker cfg p.clock p.answers s row locker).state
      (if busy s.runtime locker.id then s.db else (onLockerOpen cfg p.clock s.db s.sequence row).db)
      (if busy s.runtime locker.id then s.sequence
        else (onLockerOpen cfg p.clock s.db s.sequence row).sequence) := by
  obtain ⟨hdb,hr⟩ := unlock_driven s.runtime _ hg hw hu
  unfold openLocker
  cases hb : busy s.runtime locker.id with
  | true => exact ⟨rfl,rfl,ho⟩
  | false =>
    simp only [Bool.false_eq_true,if_false]
    rw [hr]
    dsimp only
    unfold recordOpen
    rw [if_pos hc]
    dsimp only
    rw [hdb]
    exact ⟨rfl,rfl,ho⟩

variable {card : Text}

theorem serving_working (hw : Working db card emp locker) (hs : Serving db card emp s row) : Working s.db card row locker := by
  refine ⟨hs.known,?_,?_,?_,hw.wired⟩
  · change isContractor (withoutUsage row) = true
    rw [hs.same]
    exact hw.contractor
  · change (withoutUsage row).active = true
    rw [hs.same]
    exact hw.active
  · change getByCard s.db (withoutUsage row).cardCode = some locker
    unfold getByCard
    rw [hs.lockers,hs.same]
    exact hw.holds

theorem present_ordinary {cfg : Config} (hw : Working db card emp locker)
    (hs : Serving db card emp s row) (ha : isAdminCard cfg card = false)
    (hu : Usable cfg emp locker day p) :
    Leaves (present cfg card s p)
      (if counted cfg card emp locker s p then
        (onLockerOpen cfg p.clock s.db s.sequence row).db else s.db)
      (if counted cfg card emp locker s p then
        (onLockerOpen cfg p.clock s.db s.sequence row).sequence else s.sequence) := by
  have hr := serving_working hw hs
  have hne : card ≠ [] := by
    rintro rfl
    exact nomatch (find_by_card_some s.db [] row hs.known).1
  have he : Employee.isExpired cfg p.clock row = false := by
    change Employee.isExpired cfg p.clock (withoutUsage row) = false
    rw [hs.same]
    exact hu.unexpired
  have hg := (get_by_card_some s.db row.cardCode locker hr.holds).1
  have ho := note_other_card_ordinary hs.ordinary
  have hus := check_daily_usage_same cfg p.clock hs.same (rfl : s.db.metaGet = s.db.metaGet)
  unfold present onCard
  rw [if_neg hne, if_neg (by simp [ha]), if_neg (by simp [hs.ordinary])]
  unfold serveCard
  dsimp only
  rw [hs.known]
  dsimp only
  rw [if_neg (by simp [Employee.isActive,hr.active]), if_neg (by simp [he]), hus]
  unfold counted
  cases hc : checkDailyUsage cfg p.clock s.db emp with
  | error ref =>
    simp only [Except.isOk,Except.toBool,Bool.and_false,Bool.false_and,Bool.false_eq_true,if_false]
    exact ⟨rfl,rfl,ho⟩
  | ok _ =>
    dsimp only
    unfold serveEmployee locate
    dsimp only
    rw [hr.holds]
    dsimp only
    rw [misplaced_same cfg _ locker hs.same]
    cases hp : misplaced cfg emp (presentedBlock cfg p.blockId) locker with
    | some why =>
      simp only [Option.isNone_some,Bool.and_false,Bool.false_and,Bool.false_eq_true,if_false]
      exact ⟨rfl,rfl,ho⟩
    | none =>
      have hop := open_locker_leaves (s := ⟨s.db,p.doors s.runtime,s.sequence,noteOtherCard s.admin⟩)
        hg hr.wired hr.contractor ho hu
      cases hb : busy (p.doors s.runtime) locker.id with
      | true =>
        simp only [hb,if_true] at hop
        simpa [ha,hs.ordinary] using hop
      | false =>
        simp only [hb,Bool.false_eq_true,if_false] at hop
        simpa [ha,hs.ordinary,Except.isOk,Except.toBool] using hop

theorem write_known (patch : UsagePatch) (changed : Bool)
    (h : findByCard db card = some row) :
    findByCard (write db row patch changed).db card = some (patch.apply row) := by
  obtain ⟨code,hn,ho⟩ := Option.bind_eq_some_iff.mp h
  refine Option.bind_eq_some_iff.mpr ⟨code,hn,?_⟩
  refine (one_modify_map _ _ (usage_patch_id patch) (fun _ => rfl)).trans ?_
  unfold findByCode at ho
  rw [ho,Option.map_some,patchRow,if_pos rfl]

theorem on_locker_open_settings (cfg : Config) (clk : Clock) (db : Db) (sq : Sequence)
    (emp : EmployeeRow) :
    (onLockerOpen cfg clk db sq emp).db.metaGet = db.metaGet := by
  unfold onLockerOpen markCompleted markUsed
  dsimp only
  split_ifs <;> rfl

theorem on_locker_open_row (cfg : Config) (clk : Clock) (sq : Sequence)
    (h : findByCard db card = some row) :
    ∃ row', findByCard (onLockerOpen cfg clk db sq row).db card =
        some row' ∧ withoutUsage row' = withoutUsage row ∧
      row'.usageDate = some (date clk clk.now) ∧
      row'.usageStatus = (if (noteScan cfg clk.now sq row.cardCode).2 then .COMPLETED
        else .USING) := by
  unfold onLockerOpen
  dsimp only
  split_ifs with hf
  · unfold markCompleted
    dsimp only
    split_ifs with hd
    · refine ⟨_,write_known _ _ h,rfl,?_,?_⟩
      · exact hd.1
      · exact hd.2
    · exact ⟨_,write_known _ _ h,rfl,rfl,rfl⟩
    · exact ⟨_,write_known _ _ h,rfl,rfl,rfl⟩
  · unfold markUsed
    dsimp only
    split_ifs with ht hu
    · exact ⟨_,write_known _ _ h,rfl,ht,hu⟩
    · exact ⟨_,write_known _ _ h,rfl,ht,rfl⟩
    · exact ⟨_,write_known _ _ h,rfl,ht,rfl⟩
    · exact ⟨_,write_known _ _ h,rfl,rfl,rfl⟩

theorem serving_present {cfg : Config} (hw : Working db card emp locker)
    (hs : Serving db card emp s row) (ha : isAdminCard cfg card = false)
    (hu : Usable cfg emp locker day p) :
    ∃ row', Serving db card emp (present cfg card s p) row' ∧
      if counted cfg card emp locker s p then
        (present cfg card s p).sequence =
            (noteScan cfg p.clock.now s.sequence emp.cardCode).1 ∧
          row'.usageDate = some day ∧
          row'.usageStatus = (if (noteScan cfg p.clock.now s.sequence emp.cardCode).2 then
            .COMPLETED else .USING)
      else (present cfg card s p).sequence = s.sequence ∧ row' = row := by
  have hl := present_ordinary hw hs ha hu
  have hcd : row.cardCode = emp.cardCode := by
    change (withoutUsage row).cardCode = (withoutUsage emp).cardCode
    rw [hs.same]
  cases hc : counted cfg card emp locker s p with
  | false =>
    simp only [hc,Bool.false_eq_true,if_false] at hl
    refine ⟨row,⟨?_,hs.same,?_,?_,hl.ordinary⟩,hl.sequence,rfl⟩
    · rw [hl.db]
      exact hs.known
    · rw [hl.db]
      exact hs.lockers
    · rw [hl.db]
      exact hs.settings
  | true =>
    simp only [hc,if_true] at hl
    obtain ⟨row',hk,hsm,hd,hst⟩ := on_locker_open_row cfg p.clock s.sequence hs.known
    rw [hcd] at hst
    rw [hu.day] at hd
    refine ⟨row',⟨?_,hsm.trans hs.same,?_,?_,hl.ordinary⟩,?_,hd,hst⟩
    · rw [hl.db]
      exact hk
    · rw [hl.db,on_locker_open_lockers]
      exact hs.lockers
    · rw [hl.db,on_locker_open_settings]
      exact hs.settings
    · rw [hl.sequence,← hcd]
      rfl

variable {ps : List Presentation}

/-- Presentations outside the override, one after the other: the last one counted
decides what the row shows. -/
theorem serving_run {cfg : Config} (hw : Working db card emp locker)
    (ha : isAdminCard cfg card = false) (hu : ∀ p ∈ ps, Usable cfg emp locker day p)
    (hs : Serving db card emp s row) :
    ∃ row', Serving db card emp (run (present cfg card) s ps) row' ∧
      match lastScan cfg emp.cardCode s.sequence (countedTimes cfg card emp locker s ps) with
      | none => row' = row
      | some finished => row'.usageDate = some day ∧
          row'.usageStatus = (if finished then .COMPLETED else .USING) := by
  induction ps generalizing s row with
  | nil => exact ⟨row,hs,rfl⟩
  | cons p ps ih =>
    obtain ⟨middle,hm,hst⟩ := serving_present hw hs ha (hu p mem_cons_self)
    obtain ⟨row',hrw,hl⟩ := ih (fun q hq => hu q (mem_cons_of_mem p hq)) hm
    refine ⟨row',hrw,?_⟩
    unfold countedTimes
    cases hc : counted cfg card emp locker s p with
    | false =>
      simp only [hc,Bool.false_eq_true,if_false] at hst ⊢
      rwa [hst.1,hst.2] at hl
    | true =>
      simp only [hc,if_true] at hst ⊢
      rw [hst.1] at hl
      unfold lastScan
      dsimp only
      cases hr : lastScan cfg emp.cardCode
          (noteScan cfg p.clock.now s.sequence emp.cardCode).1
          (countedTimes cfg card emp locker (present cfg card s p) ps) with
      | none =>
        rw [hr] at hl
        dsimp only at hl
        rw [hl]
        exact hst.2
      | some finished =>
        rw [hr] at hl
        exact hl

/-- An admin card, or any card inside the override, leaves the card rows alone, and
the next presentation finds the same situation. -/
theorem present_override {cfg : Config} (p : Presentation)
    (h : isAdminCard cfg card = true ∨ isOverrideActive s.admin = true) :
    (present cfg card s p).db.employees = s.db.employees ∧
      (isAdminCard cfg card = true ∨ isOverrideActive (present cfg card s p).admin = true) := by
  unfold present onCard
  split_ifs with he had ha
  · exact ⟨rfl,h⟩
  · exact ⟨faulted_employees (admin_scan_faulted cfg p.clock p.answers s.db _ s.admin card),
      .inl had⟩
  · have ht := process_user_card_tried cfg p.clock p.answers s.db (p.doors s.runtime) s.admin card
    obtain ⟨opened,ho⟩ := ht.admin
    refine ⟨faulted_employees ht.faulted,.inr ?_⟩
    simp only [ofAdmin]
    rw [ho]
    exact ha
  · exact absurd h (by simp [had,ha])

theorem override_run {cfg : Config} (emp : EmployeeRow) (lk : LockerRow)
    (ps : List Presentation) (h : isAdminCard cfg card = true ∨ isOverrideActive s.admin = true) :
    (run (present cfg card) s ps).db.employees = s.db.employees ∧
      countedTimes cfg card emp lk s ps = [] := by
  induction ps generalizing s with
  | nil => exact ⟨rfl,rfl⟩
  | cons p ps ih =>
    obtain ⟨he,hn⟩ := present_override p h
    obtain ⟨hr,ht⟩ := ih hn
    have hc : counted cfg card emp lk s p = false := by
      rcases h with h | h <;> simp [counted,h]
    refine ⟨hr.trans he,?_⟩
    simp [countedTimes,hc,ht]

theorem last_scan_none (cfg : Config) (code : Text) (sq : Sequence) (times : List ℤ) :
    lastScan cfg code sq times = none ↔ times = [] := by
  cases times with
  | nil => simp [lastScan]
  | cons now rest => simp [lastScan]

theorem completed_on_iff (h : findByCard db card = some row) :
    CompletedOn day db card ↔ row.usageStatus = .COMPLETED ∧ row.usageDate = some day := by
  simp [CompletedOn,h]

/-- The day is recorded as finished exactly if the last counted presentation finished
it, or none was counted and it was finished before. -/
theorem run_completed_iff {cfg : Config} {cardCode : Text} (hw : Working s.db cardCode emp locker)
    (hu : ∀ p ∈ ps, Usable cfg emp locker day p) :
    CompletedOn day (run (present cfg cardCode) s ps).db cardCode ↔
      lastScan cfg emp.cardCode s.sequence
          (countedTimes cfg cardCode emp locker s ps) = some true ∨
        (countedTimes cfg cardCode emp locker s ps = [] ∧ CompletedOn day s.db cardCode) := by
  by_cases h : isAdminCard cfg cardCode = true ∨ isOverrideActive s.admin = true
  · obtain ⟨he,ht⟩ := override_run emp locker ps h
    have hf : findByCard (run (present cfg cardCode) s ps).db cardCode =
        findByCard s.db cardCode := by
      unfold findByCard findByCode
      rw [he]
    simp [CompletedOn,hf,ht,lastScan]
  · simp only [not_or,Bool.not_eq_true] at h
    obtain ⟨row,hr,hl⟩ := serving_run hw h.1 hu ⟨hw.known,rfl,rfl,rfl,h.2⟩
    rw [completed_on_iff hr.known,completed_on_iff hw.known,← last_scan_none cfg _ _]
    cases hs : lastScan cfg emp.cardCode s.sequence (countedTimes cfg cardCode emp locker s ps) with
    | none =>
      rw [hs] at hl
      dsimp only at hl
      simp [hl]
    | some finished =>
      rw [hs] at hl
      cases finished <;> simp [hl.1,hl.2]

section Counting
variable {cfg : Config} {code : Text}

def Within (config : Config) (previous next : ℤ) : Prop :=
  completeTimeout config = 0 ∨ next-previous ≤ completeTimeout config

instance (config : Config) (previous next : ℤ) : Decidable (Within config previous next) :=
  inferInstanceAs (Decidable (_ ∨ _))

theorem continues_within {last now : ℤ} {count : ℕ} (h : Within cfg last now) :
    continues cfg now ⟨some code,count,some last⟩ code = true := by
  simp only [continues,decide_true,Bool.true_and,decide_eq_true_eq]
  exact h

/-- With this many scans left to come, each in time, the last one finishes the day. -/
theorem last_scan_finishes (sq : Sequence) (now : ℤ) (rest : List ℤ) (count : ℕ)
    (hc : (if continues cfg now sq code then sq.count+1 else 1) = count)
    (hp : 0 < completeTarget cfg) (ht : count+rest.length = completeTarget cfg)
    (hg : List.IsChain (Within cfg) (now::rest)) :
    lastScan cfg code sq (now::rest) = some true := by
  induction rest generalizing sq now count with
  | nil => simp_all [lastScan,noteScan]
  | cons next rest ih =>
    have hgp : Within cfg now next := (isChain_cons_cons.mp hg).1
    rw [length_cons] at ht
    have hn : noteScan cfg now sq code = (⟨some code,count,some now⟩,false) := by
      unfold noteScan
      dsimp only
      rw [hc,if_neg (by omega)]
    have hr := ih ⟨some code,count,some now⟩ next (count+1)
      (by rw [continues_within hgp]; rfl) (by omega) (isChain_cons_cons.mp hg).2
    rw [lastScan]
    simp [hn,hr]

theorem last_scan_short (sq : Sequence) (now : ℤ) (rest : List ℤ) (count : ℕ)
    (hc : (if continues cfg now sq code then sq.count+1 else 1) ≤ count)
    (ht : count+rest.length < completeTarget cfg) :
    lastScan cfg code sq (now::rest) = some false := by
  induction rest generalizing sq now count with
  | nil =>
    rw [length_nil] at ht
    have hs : ¬completeTarget cfg ≤
        (if continues cfg now sq code then sq.count+1 else 1) := by omega
    simp [lastScan,noteScan,hs]
  | cons next rest ih =>
    rw [length_cons] at ht
    have hn : noteScan cfg now sq code =
        (⟨some code,if continues cfg now sq code then sq.count+1 else 1,some now⟩,false) := by
      unfold noteScan
      dsimp only
      rw [if_neg (by omega)]
    have hnx : (noteScan cfg now sq code).1.count ≤ count := by
      rw [hn]
      exact hc
    have hr := ih (noteScan cfg now sq code).1 next (count+1) (by split_ifs <;> omega) (by omega)
    rw [lastScan]
    simp [hr]

end Counting

theorem counted_times_all (cfg : Config) (card : Text) (emp : EmployeeRow)
    (lk : LockerRow) (s : Access.State) (ps : List Presentation)
    (h : Meets (present cfg card) (fun s p => counted cfg card emp lk s p = true) s ps) :
    countedTimes cfg card emp lk s ps = ps.map (fun p => p.clock.now) := by
  induction ps generalizing s with
  | nil => rfl
  | cons p ps ih => simp [countedTimes,h.1,ih _ h.2]

theorem counted_times_sublist (cfg : Config) (card : Text) (emp : EmployeeRow)
    (lk : LockerRow) (s : Access.State) (ps : List Presentation) :
    (countedTimes cfg card emp lk s ps).Sublist (ps.map (fun p => p.clock.now)) := by
  induction ps generalizing s with
  | nil => exact List.Sublist.refl _
  | cons p ps ih =>
    unfold countedTimes
    split_ifs
    · exact (ih _).cons_cons _
    · exact (ih _).cons _

theorem counted_times_short (cfg : Config) (card : Text) (emp : EmployeeRow)
    (lk : LockerRow) (s : Access.State) (ps : List Presentation)
    (h : ¬Meets (present cfg card) (fun s p => counted cfg card emp lk s p = true) s ps) :
    (countedTimes cfg card emp lk s ps).length < ps.length := by
  induction ps generalizing s with
  | nil => exact absurd trivial h
  | cons p ps ih =>
    have hr := (counted_times_sublist cfg card emp lk (present cfg card s p) ps).length_le
    rw [length_map] at hr
    unfold countedTimes
    split_ifs with hc
    · have := ih (present cfg card s p) (fun hm => h ⟨hc,hm⟩)
      simpa using this
    · simpa using Nat.lt_succ_of_le hr

/-- A gesture that starts its own count finishes the day exactly if every one of its
presentations is counted. -/
theorem last_scan_iff {cfg : Config} (lk : LockerRow) (hln : ps.length = completeTarget cfg)
    (hg : List.IsChain (fun p q => Within cfg p.clock.now q.clock.now) ps)
    (hps : 0 < completeTarget cfg)
    (hf : ∀ p ∈ ps, continues cfg p.clock.now s.sequence emp.cardCode = false) :
    lastScan cfg emp.cardCode s.sequence
        (countedTimes cfg card emp lk s ps) = some true ↔
      Meets (present cfg card) (fun s p => counted cfg card emp lk s p = true) s ps := by
  constructor
  · intro hl
    by_contra hm
    have hs := counted_times_short cfg card emp lk s ps hm
    have hsb := counted_times_sublist cfg card emp lk s ps
    cases ht : countedTimes cfg card emp lk s ps with
    | nil =>
      rw [ht] at hl
      exact nomatch hl
    | cons now rest =>
      rw [ht] at hl hs hsb
      obtain ⟨p,hp,rfl⟩ := mem_map.mp (hsb.subset mem_cons_self)
      rw [length_cons] at hs
      rw [last_scan_short _ _ rest 1 (by simp [hf p hp]) (by omega)] at hl
      exact nomatch hl
  · intro hm
    rw [counted_times_all cfg card emp lk s ps hm]
    cases ps with
    | nil => simp_all
    | cons p ps =>
      rw [map_cons]
      refine last_scan_finishes s.sequence _ _ 1 (by simp [hf p mem_cons_self]) hps
        ?_ ?_
      · rw [length_map,Nat.add_comm]
        exact hln
      · exact (isChain_map (fun p : Presentation => p.clock.now)).mpr hg

/-- As many presentations as the gesture asks for, each in time after the one before.
The last one that was counted decides the day's record; where the gesture starts its
own count on a day not finished yet, the day is finished exactly if every presentation
was counted. -/
theorem day_completed_iff (config : Config) (cardCode day : Text) (employee : EmployeeRow)
    (locker : LockerRow) (s : Access.State) (ps : List Presentation)
    (hw : Working s.db cardCode employee locker)
    (hu : ∀ p ∈ ps, Usable config employee locker day p)
    (hlength : ps.length = completeTarget config)
    (hgaps : List.IsChain (fun p q => Within config p.clock.now q.clock.now) ps) :
    (CompletedOn day (run (present config cardCode) s ps).db cardCode ↔
      lastScan config employee.cardCode s.sequence
          (countedTimes config cardCode employee locker s ps) = some true ∨
        (countedTimes config cardCode employee locker s ps = [] ∧ CompletedOn day s.db cardCode)) ∧
    (0 < completeTarget config →
      (∀ p ∈ ps, continues config p.clock.now s.sequence employee.cardCode = false) →
      ¬CompletedOn day s.db cardCode →
      (CompletedOn day (run (present config cardCode) s ps).db cardCode ↔
        Meets (present config cardCode)
          (fun s p => counted config cardCode employee locker s p = true) s ps)) := by
  refine ⟨run_completed_iff hw hu,?_⟩
  intro hp hf ho
  rw [run_completed_iff hw hu,← last_scan_iff _ hlength hgaps hp hf]
  simp [ho]

def contractorConfig : Config := { cabinetConfig with blocks := [⟨1,"contractor"⟩] }

def contractorEmployee : EmployeeRow := { cabinetEmployee with role := "contractor" }

def contractorLocker : LockerRow := { cabinetLocker with lockerType := "contractor" }

def contractorState : Access.State where
  db := ⟨⟨[contractorEmployee],1,by decide,by decide⟩,⟨[contractorLocker],1,by decide,by decide⟩,
    fun _ => none⟩
  runtime := fun _ => none
  sequence := resetSequence
  admin := toNormal

def gesture (doors : Locker.Runtime → Locker.Runtime) : List Presentation :=
  [⟨cabinetClock,plcAnswers true true,doors,none⟩,
    ⟨{ cabinetClock with now := cabinetClock.now+5 },plcAnswers true true,doors,none⟩,
    ⟨{ cabinetClock with now := cabinetClock.now+10 },plcAnswers true true,doors,none⟩]

theorem contractor_working : Working contractorState.db "ab12" contractorEmployee
    contractorLocker :=
  ⟨by decide,by decide,by decide,by decide,by decide⟩

theorem gesture_usable {doors : Locker.Runtime → Locker.Runtime} :
    ∀ p ∈ gesture doors, Usable contractorConfig contractorEmployee contractorLocker
      (date cabinetClock cabinetClock.now) p := by
  have hd : ∀ reg bit, contractorLocker.outputRegister = some reg →
      contractorLocker.outputBit = some bit →
      (triggerBit contractorConfig.plc (plcAnswers true true) reg bit).result = .ok () := by
    intro reg bit hr hb
    obtain rfl := Option.some.inj hr
    obtain rfl := Option.some.inj hb
    decide
  intro p hp
  simp only [gesture,mem_cons,not_mem_nil,or_false] at hp
  rcases hp with rfl | rfl | rfl
  · exact ⟨rfl,rfl,hd⟩
  · exact ⟨rfl,rfl,hd⟩
  · exact ⟨rfl,rfl,hd⟩

theorem gesture_gaps (doors : Locker.Runtime → Locker.Runtime) :
    List.IsChain (fun p q => Within contractorConfig p.clock.now q.clock.now) (gesture doors) := by
  have hg : Within contractorConfig 0 5 ∧ Within contractorConfig 5 10 := by decide
  exact .cons_cons hg.1 (.cons_cons hg.2 (.singleton _))

theorem contractor_not_completed : ¬CompletedOn (date cabinetClock cabinetClock.now)
    contractorState.db "ab12" := by
  rw [completed_on_iff contractor_working.known]
  decide

/-- With the door at rest before each presentation the gesture finishes the day. -/
theorem day_completed_at_rest :
    Working contractorState.db "ab12" contractorEmployee contractorLocker ∧
      (∀ p ∈ gesture (fun _ _ => none), Usable contractorConfig contractorEmployee
        contractorLocker (date cabinetClock cabinetClock.now) p) ∧
      (gesture (fun _ _ => none)).length = completeTarget contractorConfig ∧
      List.IsChain (fun p q => Within contractorConfig p.clock.now q.clock.now)
        (gesture (fun _ _ => none)) ∧
      CompletedOn (date cabinetClock cabinetClock.now)
        (run (present contractorConfig "ab12") contractorState
          (gesture (fun _ _ => none))).db "ab12" :=
  ⟨contractor_working,gesture_usable,rfl,gesture_gaps _,
    ((day_completed_iff _ _ _ _ _
      _ _ contractor_working (gesture_usable) rfl
      (gesture_gaps _)).2 (by decide) (fun _ _ => rfl) contractor_not_completed).mpr
      ⟨by decide,by decide,by decide,trivial⟩⟩

/-- The first presentation opens the door; while it is still in flight the other two are
ignored, and the day stays in use. -/
theorem day_in_use_in_flight :
    Working contractorState.db "ab12" contractorEmployee contractorLocker ∧
      (∀ p ∈ gesture id, Usable contractorConfig contractorEmployee contractorLocker
        (date cabinetClock cabinetClock.now) p) ∧
      (gesture id).length = completeTarget contractorConfig ∧
      List.IsChain (fun p q => Within contractorConfig p.clock.now q.clock.now) (gesture id) ∧
      ¬CompletedOn (date cabinetClock cabinetClock.now)
        (run (present contractorConfig "ab12") contractorState (gesture id)).db
        "ab12" ∧
      (EmployeeDb.findByCard (run (present contractorConfig "ab12") contractorState
        (gesture id)).db "ab12").map EmployeeRow.usageStatus = some .USING := by
  have hs : (EmployeeDb.findByCard (run (present contractorConfig "ab12")
      contractorState (gesture id)).db "ab12").map EmployeeRow.usageStatus =
      some .USING := by decide
  refine ⟨contractor_working,gesture_usable,rfl,gesture_gaps _,?_,hs⟩
  rintro ⟨row,hf,hc,_⟩
  rw [hf,Option.map_some,hc] at hs
  exact nomatch hs

end EMaster.DayCompletion
