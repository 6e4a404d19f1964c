import EMaster.AssignmentFrame

/-!
# The daily synchronisation

One run takes the active-card list of the server, reconciles the card table with
it, applies the locker side of the changes, refreshes the expiry states, repairs
the relation and sweeps. An empty list deactivates nobody unless it is allowed.
-/

set_option autoImplicit false

namespace EMaster.Sync
open KeyedTable Text LockerTime LockerConfig Database List
open Employee Assignment AssignmentFrame

structure Stats where
  (added updated deactivated assigned released errors : ℕ)
  deriving DecidableEq, Repr

structure Ran where
  db : Db
  result : Except Text Stats

variable (config : Config)

def fullList (list : List Record) : Bool := !(list.isEmpty && !config.sync.allowEmptyList)

def synced (clock : Clock) (db : Db) (list : List Record) : Synced :=
  sync clock db list (fullList config list)

def settled (clock : Clock) (runtime : Locker.Runtime) (db : Db) : Db :=
  (reclaim config clock runtime (reconcile (Locker.refreshExpiry config clock db))).db

def applied (clock : Clock) (db : Db) (list : List Record) : AppliedChanges :=
  let s := synced config clock db list
  applyChanges config clock s.db s.changes

def run (clock : Clock) (runtime : Locker.Runtime) (db : Db)
    (fetched : Except Text (List Record)) : Ran :=
  match fetched with
  | .error reason => ⟨db,.error reason⟩
  | .ok list =>
    let s := synced config clock db list
    let applied := applied config clock db list
    ⟨settled config clock runtime applied.db,
      .ok ⟨s.changes.added.length,s.changes.updated.length,s.changes.deactivated.length,
        applied.assigned,applied.released,s.invalid+applied.failed⟩⟩

def Mentioned (list : List Record) (row : EmployeeRow) : Prop :=
  ∃ code ∈ mentioned list, normalizeCode row.cardCode = some code

variable (cfg : Config) (clk : Clock)
  (rt : Locker.Runtime) (db : Db) (list : List Record) (row : EmployeeRow)

theorem synced_full (h : list ≠ []) : synced cfg clk db list = sync clk db list true := by
  have he : list.isEmpty = false := by simpa using h
  rw [synced,fullList,he]
  rfl

theorem settles_settled : Settles db (settled cfg clk rt db) :=
  Settles.trans _ _ _ (settles_refresh_expiry cfg clk db)
    (Settles.trans _ _ _ (settles_reconcile _) (settles_reclaim cfg clk rt _))

theorem run_inactive (hl : list ≠ [])
    (h : row ∈ (synced cfg clk db list).changes.deactivated) :
    Inactive (run cfg clk rt db (.ok list)).db row.id := by
  rw [synced_full cfg clk db list hl] at h
  obtain ⟨old,hold,ha⟩ := sync_inactive clk db list h
  have hk : KeepsActive (sync clk db list true).db
      (run cfg clk rt db (.ok list)).db := by
    unfold run applied
    dsimp only
    rw [synced_full cfg clk db list hl]
    exact KeepsActive.trans _ _ _ (keeps_active_apply_changes cfg clk _ _)
      (settles_settled cfg clk rt _).active
  obtain ⟨row',hr,ha'⟩ := hk row.id old hold
  exact ⟨row',hr,ha'.trans ha⟩

variable {clk cfg db list row}

end EMaster.Sync
