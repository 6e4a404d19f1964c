import EMaster.OverrideFrame
import EMaster.Runs
import EMaster.SyncEvents

/-!
# The assignment over whole runs

Broker events, synchronisations, presented cards, sweeps and releases in any order.
Doors, scan sequence and admin state may be anything at each step. The relation stays
two-sided exactly as long as no card is released under a spelling other than the
stored one and no new card keeps the locker number its record carries.
-/

set_option autoImplicit false

namespace EMaster.AssignmentRuns
open KeyedTable LockerTime LockerConfig Database
open Employee Modbus ContractorUsage TwoSided
open AssignmentLink AssignmentRepair SyncEvents OverrideFrame

/-- A card row has a locker exactly if that locker exists and holds its code, and no
code stands on two lockers. -/
structure TwoSided (db : Db) : Prop where
  linked : ∀ employee ∈ db.employees.rows, ∀ lockerId, employee.lockerId = some lockerId ↔
    ∃ locker ∈ db.lockers.rows, locker.id = lockerId ∧ locker.cardCode = some employee.cardCode
  single : ∀ locker ∈ db.lockers.rows, ∀ other ∈ db.lockers.rows, ∀ code,
    locker.cardCode = some code → other.cardCode = some code → locker = other

/-- A database the repair finds nothing to do in: card codes are keys in their normal
form, the relation is two-sided and every held code is stored. -/
structure Consistent (db : Db) : Prop where
  normal : ∀ employee ∈ db.employees.rows, normalizeCode employee.cardCode = some employee.cardCode
  unique : ∀ employee ∈ db.employees.rows, ∀ other ∈ db.employees.rows,
    employee.cardCode = other.cardCode → employee = other
  owned : ∀ locker ∈ db.lockers.rows, ∀ code, locker.cardCode = some code →
    ∃ employee ∈ db.employees.rows, employee.cardCode = code
  twoSided : TwoSided db

variable {db : Db}

theorem consistent_sound (h : Consistent db) : Sound ∅ db := by
  refine ⟨⟨?_,?_,?_,?_⟩,?_⟩
  · intro id o code hid ho
    obtain ⟨row,hm,rfl,hc⟩ := (coded_iff db id code).mp hid
    obtain ⟨row',hm',rfl,hc'⟩ := (coded_iff db o code).mp ho
    rw [h.unique row hm row' hm' (hc.trans hc'.symm)]
  · intro p code hp
    obtain ⟨lk,hm,_,hc⟩ := (held_iff db code p).mp hp
    obtain ⟨row,hr,hcd⟩ := h.owned lk hm code hc
    exact ⟨row.id,(coded_iff db _ _).mpr ⟨row,hr,rfl,hcd⟩⟩
  · intro p p' code hp hp'
    obtain ⟨lk,hm,rfl,hc⟩ := (held_iff db code p).mp hp
    obtain ⟨o,hm',rfl,hc'⟩ := (held_iff db code p').mp hp'
    rw [h.twoSided.single lk hm o hm' code hc hc']
  · intro id code target _ how p
    obtain ⟨row,hr,hv⟩ := Option.map_eq_some_iff.mp how
    obtain ⟨hm,_⟩ := (get_some _ id row).mp hr
    obtain ⟨rfl,rfl⟩ := Prod.mk.inj hv
    rw [held_iff]
    exact h.twoSided.linked row hm p
  · intro id code hid
    obtain ⟨row,hm,_,rfl⟩ := (coded_iff db id code).mp hid
    exact h.normal row hm

theorem sound_two_sided (h : Sound ∅ db) : TwoSided db := by
  constructor
  · intro emp hm lid
    rw [← held_iff]
    exact h.agrees.sided emp.id _ _ (Set.notMem_empty _) (owner_of_mem db hm) lid
  · intro lk hm o hm' code hc hc'
    exact key_injective _ lk hm hm' (h.agrees.single _ _ code
      ((held_iff db _ _).mpr ⟨lk,hm,rfl,hc⟩) ((held_iff db _ _).mpr ⟨o,hm',rfl,hc'⟩))

theorem broken_two_sided (h : Broken db) : ¬TwoSided db := by
  intro hs
  obtain ⟨id,code,target,p,ho,hw⟩ := h
  obtain ⟨row,hr,hv⟩ := Option.map_eq_some_iff.mp ho
  obtain ⟨hm,_⟩ := (get_some _ id row).mp hr
  obtain ⟨rfl,rfl⟩ := Prod.mk.inj hv
  rw [held_iff] at hw
  exact hw (hs.linked row hm p)

theorem sides_faulted {db' : Db} (h : Faulted db db') : sides db' = sides db := by
  obtain rfl | ⟨lid,reason,rfl⟩ := h
  · rfl
  · exact sides_set_status db _ _ _

theorem sides_write_usage (db : Db) (emp : EmployeeRow) (patch : UsagePatch) (changed : Bool) :
    sides (write db emp patch changed).db = sides db :=
  sides_update_employee db _ (usage_patch_id patch) (fun _ => ⟨rfl,rfl⟩)

theorem sides_on_locker_open (cfg : Config) (clk : Clock) (db : Db) (sq : Sequence)
    (emp : EmployeeRow) :
    sides (onLockerOpen cfg clk db sq emp).db = sides db := by
  unfold onLockerOpen markCompleted markUsed
  dsimp only
  split_ifs
  all_goals exact sides_write_usage db emp _ _

section Swipe
open Access
variable (cfg : Config) (clk : Clock) (answers : Answers)

theorem sides_open_locker (s : Access.State) (emp : EmployeeRow) (lk : LockerRow) :
    sides (openLocker cfg clk answers s emp lk).state.db = sides s.db := by
  have hu := sides_faulted (unlock_faulted cfg clk answers s.db s.runtime lk.id emp.cardCode)
  unfold openLocker
  dsimp only
  split_ifs
  · rfl
  · cases (Locker.unlock cfg clk answers s.db _ lk.id emp.cardCode).result with
    | error why => exact hu
    | ok _ =>
      dsimp only
      unfold recordOpen
      split_ifs
      · exact (sides_on_locker_open cfg clk _ _ emp).trans hu
      · exact hu

variable {off : Set ℕ} {s : Access.State}

theorem sound_serve_employee {emp : EmployeeRow} (block : Option Block) (h : Sound off s.db)
    (hc : Coded (sides s.db) emp.id emp.cardCode) :
    Sound off (serveEmployee cfg clk answers s emp block).state.db := by
  have hl : Sound off (locate cfg clk s.db emp block).db := by
    unfold locate
    cases LockerDb.getByCard s.db emp.cardCode with
    | some lk => exact h
    | none =>
      dsimp only
      split_ifs
      · exact sound_assign cfg clk emp _ h hc
      · exact h
  unfold serveEmployee
  dsimp only
  cases (locate cfg clk s.db emp block).locker with
  | none => exact hl
  | some lk =>
    dsimp only
    cases misplaced cfg emp block lk with
    | some why => exact hl
    | none => exact sound_of_sides hl (sides_open_locker cfg clk answers _ emp lk)

theorem sides_expire_held (db : Db) (emp : EmployeeRow) : sides (expireHeld db emp) = sides db := by
  unfold expireHeld
  cases LockerDb.getByCard db emp.cardCode with
  | none => rfl
  | some held =>
    dsimp only
    split_ifs
    · rfl
    · exact sides_set_status db _ _ none

theorem sound_on_card (card : Text) (bid : Option ℕ) (h : Sound off s.db) :
    Sound off (onCard cfg clk answers s card bid).state.db := by
  unfold onCard
  split_ifs
  · exact h
  · exact sound_of_sides h (sides_faulted
      (admin_scan_faulted cfg clk answers s.db s.runtime s.admin card))
  · exact sound_of_sides h (sides_faulted
      (process_user_card_tried cfg clk answers s.db s.runtime s.admin card).faulted)
  · unfold serveCard
    dsimp only
    cases hf : EmployeeDb.findByCard s.db card with
    | none => exact h
    | some emp =>
      dsimp only
      split_ifs
      · exact h
      · exact sound_of_sides h (sides_expire_held s.db emp)
      · cases checkDailyUsage cfg clk s.db emp with
        | error ref => exact h
        | ok _ =>
          exact sound_serve_employee cfg clk _ _ h (find_by_card_coded s.db card hf)

end Swipe

inductive Action where
  | event (clock : Clock) (name : Text) (data : Option Record)
  | synchronise (clock : Clock) (runtime : Locker.Runtime) (fetched : Except Text (List Record))
  | card (clock : Clock) (answers : Answers) (runtime : Locker.Runtime) (sequence : Sequence)
      (admin : AdminAccess.State) (cardCode : Text) (blockId : Option ℕ)
  | reclaim (clock : Clock) (runtime : Locker.Runtime)
  | release (cardCode : Text)

def step (config : Config) (events : EventNames) (db : Db) : Action → Db
  | .event clock name data => (onEvent config events clock db name data).db
  | .synchronise clock runtime fetched => (Sync.run config clock runtime db fetched).db
  | .card clock answers runtime sequence admin cardCode blockId =>
    (Access.onCard config clock answers ⟨db,runtime,sequence,admin⟩ cardCode blockId).state.db
  | .reclaim clock runtime => (Assignment.reclaim config clock runtime db).db
  | .release cardCode => (Assignment.release db cardCode).db

/-- Only an event or a release can take the two sides apart. -/
def Keeps (config : Config) (events : EventNames) (db : Db) : Action → Prop
  | .event clock name data => KeepsLink config events clock db name data
  | .release cardCode => ¬Misspelt db cardCode
  | _ => True

theorem sound_step (cfg : Config) (events : EventNames) (action : Action) (h : Sound ∅ db)
    (hk : Keeps cfg events db action) : Sound ∅ (step cfg events db action) := by
  cases action with
  | event clk name data => exact sound_on_event h hk
  | synchronise clk runtime fetched => exact sound_run cfg clk runtime fetched h
  | card clk answers runtime sequence admin cardCode blockId =>
    exact sound_on_card cfg clk _ _ _ h
  | reclaim clk runtime => exact sound_reclaim cfg clk runtime h
  | release cardCode => exact sound_release_spelt h hk

theorem step_broken {cfg : Config} {events : EventNames} {action : Action} (h : Sound ∅ db)
    (hk : ¬Keeps cfg events db action) : Broken (step cfg events db action) := by
  cases action with
  | event clk name data => exact on_event_broken h hk
  | synchronise clk runtime fetched => exact absurd trivial hk
  | card clk answers runtime sequence admin cardCode blockId => exact absurd trivial hk
  | reclaim clk runtime => exact absurd trivial hk
  | release cardCode => exact release_misspelt h (not_not.mp hk)

/-- From a consistent database the relation is two-sided in every state of a run exactly
if no release misspells a held code and no event leaves a new card with the locker
number of its record. -/
theorem two_sided_iff (config : Config) (events : EventNames) (db : Db) (actions : List Action)
    (h : Consistent db) :
    (∀ before after, actions = before++after →
      TwoSided (Runs.run (step config events) db before)) ↔
      Runs.Meets (step config events) (Keeps config events) db actions :=
  Runs.always_iff_meets _ _ (Sound ∅) TwoSided
    (fun _ action => sound_step config events action) (fun _ => sound_two_sided)
    (fun _ _ hs hk => broken_two_sided (step_broken hs hk)) db actions
    (consistent_sound h)

theorem cabinet_consistent : Consistent cabinetDb := by
  have he : cabinetDb.employees.rows = [cabinetEmployee] := rfl
  have hlc : cabinetDb.lockers.rows = [cabinetLocker] := rfl
  refine ⟨?_,?_,?_,?_,?_⟩
  · simp only [he,List.mem_singleton,forall_eq]
    decide
  · simp [he]
  · simp only [hlc,he,List.mem_singleton,forall_eq,exists_eq_left]
    intro code hc
    exact Option.some.inj hc
  · simp only [hlc,he,List.mem_singleton,forall_eq,exists_eq_left]
    intro lid
    constructor
    · intro hl
      exact ⟨Option.some.inj hl,rfl⟩
    · rintro ⟨rfl,_⟩
      rfl
  · simp [hlc]

def builtinEvents : EventNames := ⟨none,none,none⟩

theorem two_sided_release :
    Consistent cabinetDb ∧ ∀ before after, [Action.release "ab12"] = before++after →
      TwoSided (Runs.run (step cabinetConfig builtinEvents) cabinetDb before) := by
  refine ⟨cabinet_consistent,(two_sided_iff _ _ _ _ cabinet_consistent).mpr ⟨?_,trivial⟩⟩
  rintro ⟨code,hn,hu,_⟩
  exact hu (Option.some.inj hn)

def strayRecord (cardCode : String) : Record :=
  ⟨some "Binh",some cardCode.toList,some "employee",none,none,none,true,some 1⟩

/-- A new card whose record names the only locker, taken by somebody else, is left with
that number. A card revoked with a blank in its code loses its link but not its locker. -/
theorem two_sided_lost :
    Consistent cabinetDb ∧
      ¬TwoSided (Runs.run (step cabinetConfig builtinEvents) cabinetDb
        [.event cabinetClock "employee.card.created".toList (some (strayRecord "cd34"))]) ∧
      ¬TwoSided (Runs.run (step cabinetConfig builtinEvents) cabinetDb
        [.event cabinetClock "employee.card.revoked".toList (some (strayRecord "ab 12"))]) := by
  refine ⟨cabinet_consistent,?_,?_⟩
  · intro h
    have hr : ∃ row ∈ (Runs.run (step cabinetConfig builtinEvents) cabinetDb
        [.event cabinetClock "employee.card.created".toList
          (some (strayRecord "cd34"))]).employees.rows,
        row.cardCode = "CD34".toList ∧ row.lockerId = some 1 := by decide
    obtain ⟨row,hm,hc,hl⟩ := hr
    have hlc := (h.linked row hm 1).mp hl
    rw [hc] at hlc
    revert hlc
    decide
  · intro h
    have hr : ∃ row ∈ (Runs.run (step cabinetConfig builtinEvents) cabinetDb
        [.event cabinetClock "employee.card.revoked".toList
          (some (strayRecord "ab 12"))]).employees.rows,
        row.cardCode = "AB12".toList ∧ row.lockerId = none := by decide
    obtain ⟨row,hm,hc,hl⟩ := hr
    have hlc : ∃ locker ∈ (Runs.run (step cabinetConfig builtinEvents) cabinetDb
        [.event cabinetClock "employee.card.revoked".toList
          (some (strayRecord "ab 12"))]).lockers.rows,
        locker.id = 1 ∧ locker.cardCode = some "AB12".toList := by decide
    rw [← hc,← h.linked row hm 1,hl] at hlc
    exact nomatch hlc

end EMaster.AssignmentRuns
