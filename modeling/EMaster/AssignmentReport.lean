import EMaster.AssignmentRepair

/-!
# What a run of the repair finds

The repair reports what it has found. Where every card has one employee at most and no card
of an employee is in two lockers, one run settles the relation and the next one finds nothing.
-/

set_option autoImplicit false

namespace EMaster.AssignmentReport
open Text LockerConfig Database List
open Employee Assignment TwoSided AssignmentLink AssignmentRepair

structure Report where
  (orphanLockers orphanEmployees mismatched wrongType : ℕ)

variable (cfg : Config)

def noteLocker (s : Db×Report) (locker : LockerRow) : Db×Report :=
  (relinkLocker s.1 locker,
    match locker.cardCode with
    | none => s.2
    | some cardCode =>
      match EmployeeDb.findByCard s.1 cardCode with
      | none => { s.2 with orphanLockers := s.2.orphanLockers+1 }
      | some employee =>
        if employee.lockerId ≠ some locker.id then { s.2 with mismatched := s.2.mismatched+1 }
        else if typeMatches cfg employee locker then s.2
        else { s.2 with wrongType := s.2.wrongType+1 })

def noteEmployee (s : Db×Report) (employee : EmployeeRow) : Db×Report :=
  (clearLink s.1 employee,
    match employee.lockerId with
    | none => s.2
    | some lockerId =>
      if linkHolds s.1 lockerId employee then s.2
      else { s.2 with orphanEmployees := s.2.orphanEmployees+1 })

/-- The repair with its report. -/
def reconcileRun (db : Db) : Db×Report :=
  let s := (LockerDb.all db).foldl (noteLocker cfg) (db,⟨0,0,0,0⟩)
  (EmployeeDb.all s.1).foldl noteEmployee s

/-- Nothing was relinked, cleared or released. -/
def Report.Quiet (r : Report) : Prop :=
  r.orphanLockers = 0 ∧ r.orphanEmployees = 0 ∧ r.mismatched = 0

variable {db : Db} {lk : LockerRow} {code : Text}

theorem reconcile_run_db : (reconcileRun cfg db).1 = reconcile db := by
  have hl (rows : List LockerRow) (s : Db×Report) :
      (rows.foldl (noteLocker cfg) s).1 = rows.foldl relinkLocker s.1 :=
    (foldl_hom Prod.fst fun _ _ => rfl).symm
  have he (rows : List EmployeeRow) (s : Db×Report) :
      (rows.foldl noteEmployee s).1 = rows.foldl clearLink s.1 :=
    (foldl_hom Prod.fst fun _ _ => rfl).symm
  rw [reconcileRun,he,hl]
  rfl

theorem row_paired (hp : Paired db) (ho : Owned db) (hm : lk ∈ LockerDb.all db)
    (hc : lk.cardCode = some code) :
    ∃ emp, EmployeeDb.findByCard db code = some emp ∧ emp.lockerId = some lk.id := by
  have hh : Held (sides db) code lk.id := by rw [Held,all_lockers_place db lk hm,hc]
  obtain ⟨emp,hf⟩ := ho _ code hh
  obtain ⟨hn,_⟩ := found_bears hf
  have hown := owner_of_mem db (EmployeeDb.find_by_card_some db code emp hf).2
  exact ⟨emp,hf,(hp.link _ _ _ hown lk.id).mpr
    ⟨emp.cardCode,normalize_code_idempotent hn,code,hh,hn⟩⟩

theorem quiet_run (hp : Paired db) (ho : Owned db) :
    (reconcileRun cfg db).1 = db ∧ (reconcileRun cfg db).2.Quiet := by
  have hl : ((LockerDb.all db).foldl (noteLocker cfg) (db,⟨0,0,0,0⟩)).1 = db ∧
      ((LockerDb.all db).foldl (noteLocker cfg) (db,⟨0,0,0,0⟩)).2.Quiet := by
    refine List.foldlRecOn (motive := fun s : Db×Report => s.1 = db ∧ s.2.Quiet) _ _
      ⟨rfl,rfl,rfl,rfl⟩ ?_
    rintro ⟨_,r⟩ ⟨rfl,hq⟩ lk hm
    unfold noteLocker relinkLocker
    cases hc : lk.cardCode with
    | none => exact ⟨rfl,hq⟩
    | some code =>
      obtain ⟨emp,hf,hl⟩ := row_paired hp ho hm hc
      simp only [hf,hl,ne_eq,not_true_eq_false,if_false,true_and]
      split_ifs
      · exact hq
      · exact hq
  unfold reconcileRun
  dsimp only
  refine List.foldlRecOn (motive := fun s : Db×Report => s.1 = db ∧ s.2.Quiet) _ _ hl ?_
  rintro ⟨d,r⟩ ⟨rfl,hq⟩ emp hm
  rw [hl.1] at hm
  unfold noteEmployee clearLink
  cases he : emp.lockerId with
  | none => exact ⟨rfl,hq⟩
  | some p =>
    have hown := owner_of_mem _ ((mem_all _ emp).mp hm)
    have hk : ∀ code, Held (sides d) code p → (normalizeCode code).isSome = true := by
      intro code hd
      obtain ⟨found,hf⟩ := ho p code hd
      rw [(found_bears hf).1]
      rfl
    have hh := (link_holds_iff_holds p emp hk).mpr ((hp.link _ _ _ hown p).mp he)
    simp only [hh,if_true]
    exact ⟨trivial,hq⟩

/-- One run of the repair makes rows and lockers name each other, and a second run finds nothing. -/
theorem repaired_once (db : Db) (h : Keyed db) :
    Paired (reconcileRun cfg db).1 ∧
      (reconcileRun cfg (reconcileRun cfg db).1).1 = (reconcileRun cfg db).1 ∧
      (reconcileRun cfg (reconcileRun cfg db).1).2.Quiet := by
  have hr := reconciled h
  rw [reconcile_run_db]
  exact ⟨hr.paired,quiet_run cfg hr.paired hr.owned⟩

theorem cabinet_repaired : Keyed cabinetDb ∧ Paired (reconcileRun cabinetConfig cabinetDb).1 := by
  have hc (id : ℕ) (code : Text) (h : Coded (sides cabinetDb) id code) : id = 1 := by
    obtain ⟨row,hm,rfl,rfl⟩ := (coded_iff _ _ _).mp h
    rw [mem_singleton.mp hm]
    rfl
  have hh (p : ℕ) (card : Text) (h : Holds cabinetDb p card) : p = 1 := by
    obtain ⟨code,hd,_⟩ := h
    obtain ⟨row,hm,rfl,_⟩ := (held_iff _ _ _).mp hd
    rw [mem_singleton.mp hm]
    rfl
  have hk : Keyed cabinetDb := by
    constructor
    · exact fun id id' code code' _ h h' _ _ => (hc id code h).trans (hc id' code' h').symm
    · exact fun _ _ card p q _ _ h h' => (hh p card h).trans (hh q card h').symm
  exact ⟨hk,(repaired_once cabinetConfig cabinetDb hk).1⟩

def doubledDb : Db :=
  { cabinetDb with
    lockers := ⟨[cabinetLocker,{ cabinetLocker with id := 2,lockerNumber := 2 }],2,
      by decide,by decide⟩ }

def twinDb : Db :=
  { cabinetDb with
    employees := ⟨[cabinetEmployee,{ cabinetEmployee with
      id := 2
      cardCode := "ab12"
      lockerId := none }],2,by decide,by decide⟩ }

/-- A card in two lockers stays in both, and the next run relinks its row to the one and back. Of
two rows with one card, spelled in two ways, one names no locker although its card is in one. -/
theorem doubled_stays :
    ¬Paired (reconcileRun cabinetConfig doubledDb).1 ∧
      (reconcileRun cabinetConfig (reconcileRun cabinetConfig doubledDb).1).2.mismatched = 2 ∧
      ¬Paired (reconcileRun cabinetConfig twinDb).1 := by
  refine ⟨fun h => ?_,by decide +kernel,fun h => ?_⟩
  · have hd : ∀ p, p = 1 ∨ p = 2 → Holds (reconcileRun cabinetConfig doubledDb).1 p "AB12" := by
      rintro p (rfl | rfl)
      · exact ⟨"AB12",by unfold Held; decide +kernel,by decide⟩
      · exact ⟨"AB12",by unfold Held; decide +kernel,by decide⟩
    exact absurd (h.single 1 2 _ (hd 1 (.inl rfl)) (hd 2 (.inr rfl))) (by decide)
  · have hl := (h.link 2 "ab12" none (by decide +kernel) 1).mpr
      ⟨"AB12",by decide,"AB12",by unfold Held; decide +kernel,by decide⟩
    cases hl

end EMaster.AssignmentReport
