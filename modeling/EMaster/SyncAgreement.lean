import EMaster.AssignmentRuns
import EMaster.CardOutcome

/-!
# The broker event against the full list

The same record of a stored card reaches the tables as an event or as the only change
of a full list. Both merge the row alike. The event then reassigns a locker of the
wrong type and releases an inactive card; the list does neither, skips a record that
changes nothing, and ends with the sweep.
-/

set_option autoImplicit false

namespace EMaster.SyncAgreement
open KeyedTable Text LockerTime LockerConfig Database EmployeeDb Locker Sync Except
open List hiding merge
open Employee Assignment TwoSided
open AssignmentLink AssignmentRepair SyncEvents CardOutcome
open AssignmentRuns

def picked (config : Config) (db : Db) (row : EmployeeRow) : Option ℕ :=
  (findAvailable config db row.role row.gender none).toOption.map LockerRow.id

variable {off : Set ℕ} {db : Db} (cfg : Config) (clk : Clock) {row : EmployeeRow}

theorem pick_locker_of (cfg : Config) (clk : Clock) (h : Sound off db)
    (hc : Coded (sides db) row.id row.cardCode) (hn : ∀ p, ¬Held (sides db) row.cardCode p) :
    lockerOf (pickLocker cfg clk db row none).db row.cardCode = picked cfg db row := by
  have hu := sound_upper h hc
  have hs := sound_pick cfg clk none h hc hn
  unfold picked
  unfold pickLocker lockerTypeFor at hs ⊢
  cases hf : findAvailable cfg db row.role row.gender none with
  | error why => exact (locker_of_none h hu).mpr hn
  | ok lk =>
    rw [hf] at hs
    refine (locker_of_some hs hu lk.id).mpr ?_
    dsimp only
    rw [give_locker_db,sides_set_locker,sides_assign_row]
    exact occupy_same _ (find_available_place hf)

variable {code : Text}

theorem picked_none_iff : picked cfg db row = none ↔ LockerDb.available db row.role none = [] := by
  unfold picked findAvailable
  cases LockerDb.available db row.role none with
  | nil => simp [Except.toOption]
  | cons first rest =>
    dsimp only
    split_ifs <;> simp [Except.toOption]

theorem find_available_lockers {a b : Db} (h : a.lockers = b.lockers) (lockerType : Text)
    (gender : Option Text) (blockId : Option ℕ) :
    findAvailable cfg a lockerType gender blockId = findAvailable cfg b lockerType gender blockId := by
  rw [findAvailable,findAvailable,LockerDb.available,LockerDb.available,LockerDb.all,LockerDb.all,h]

/-- The row of the locker that was picked. -/
theorem picked_row {free : LockerRow} (cfg : Config) (clk : Clock) (h : Sound off db)
    (hc : Coded (sides db) row.id row.cardCode) (hn : ∀ p, ¬Held (sides db) row.cardCode p)
    (hf : findAvailable cfg db row.role row.gender none = .ok free) :
    LockerDb.getByCard (pickLocker cfg clk db row none).db row.cardCode =
      some (LockerDb.heldBy row (stamp clk clk.now) free) := by
  have hl := pick_locker_of cfg clk h hc hn
  have hp : picked cfg db row = some free.id := by simp [picked,hf,Except.toOption]
  rw [hp] at hl
  obtain ⟨lk,hg,hid⟩ := Option.map_eq_some_iff.mp hl
  obtain ⟨hrow,_⟩ := LockerDb.get_by_card_some _ _ lk hg
  obtain ⟨hm,_⟩ := AssignmentFrame.find_available_free cfg db hf
  have hold : LockerDb.get db free.id = some free := get_key _ free hm
  have hdb : (pickLocker cfg clk db row none).db = (giveLocker clk db row free).db := by
    unfold pickLocker lockerTypeFor
    rw [hf]
  rw [hg,← hrow,hid,LockerDb.get,hdb,AssignmentFrame.give_locker_lockers]
  change LockerDb.get (LockerDb.assign db free.id row _) free.id = _
  rw [LockerDb.assign,LockerDb.get_update,hold,Option.map_some,patchRow,if_pos rfl]

theorem release_unheld (h : Sound off db) (hu : upper code = code) (p : ℕ) :
    ¬Held (sides (release db code).db) code p := by
  unfold release
  cases hg : LockerDb.getByCard db code with
  | some lk =>
    have hh := get_by_card_held db code hg
    rw [hu] at hh
    exact (sound_release_held h hh).2 p
  | none =>
    have hn := get_by_card_none db code hg p
    rw [hu] at hn
    dsimp only
    cases findByCard db code with
    | none => exact hn
    | some emp =>
      dsimp only
      split_ifs
      · rw [sides_set_locker]
        exact hn
      · exact hn

def eventLocker (config : Config) (clock : Clock) (db : Db) (row : EmployeeRow) : Option ℕ :=
  if wanted config clock row then
    match LockerDb.getByCard db row.cardCode with
    | none => picked config db row
    | some locker =>
      if typeMatches config row locker then some locker.id
      else picked config (releaseLocker db locker.id).db row
  else if !row.active && releases config then none
  else lockerOf db row.cardCode

theorem placed_locker_of (cfg : Config) (clk : Clock) (h : Sound off db)
    (hc : Coded (sides db) row.id row.cardCode) :
    lockerOf (placed cfg clk db row) row.cardCode = eventLocker cfg clk db row := by
  have hu := sound_upper h hc
  have hr (db' : Db) (hs : Sound off db') :
      lockerOf (refreshExpiry cfg clk db') row.cardCode = lockerOf db' row.cardCode :=
    locker_of_sides hs hu (sides_refresh_expiry cfg clk db')
  unfold placed eventLocker
  dsimp only
  cases hw : wanted cfg clk row with
  | true =>
    have ha : row.active = true := by
      simp only [wanted,Bool.and_eq_true] at hw
      exact hw.1.1
    have has := sound_assign cfg clk row none h hc
    simp only [ha,Bool.not_true,Bool.false_and,Bool.false_eq_true,if_true,if_false]
    rw [hr _ has]
    unfold assign
    rw [if_neg (by simp [ha])]
    cases hg : LockerDb.getByCard db row.cardCode with
    | none =>
      have hn := get_by_card_none db _ hg
      rw [hu] at hn
      exact pick_locker_of cfg clk h hc hn
    | some lk =>
      dsimp only
      split_ifs
      · simp [lockerOf,hg]
      · have hh := get_by_card_held db _ hg
        rw [hu] at hh
        obtain ⟨hf,hn⟩ := sound_release_held h hh
        exact pick_locker_of cfg clk hf (coded_release_locker db _ hc) hn
  | false =>
    simp only [Bool.false_eq_true,if_false]
    split_ifs with hre
    · have hrl := sound_release_spelt h (stored_spelt h hc)
      rw [hr _ hrl]
      exact (locker_of_none hrl hu).mpr (release_unheld h hu)
    · exact hr db h

/-- The changes that a list reports whose only news is this record of a stored card. -/
def onlyChange (u : Upserted) : Changes := ⟨[],if u.action = .updated then [u.row] else [],[]⟩

def listLocker (config : Config) (clock : Clock) (u : Upserted) : Option ℕ :=
  if wanted config clock u.row && decide (u.action = .updated) &&
      (LockerDb.getByCard u.db u.row.cardCode).isNone then picked config u.db u.row
  else lockerOf u.db u.row.cardCode

theorem apply_only_change (u : Upserted) :
    (applyChanges cfg clk u.db (onlyChange u)).db =
      if cfg.sync.assignOnSync && decide (u.action = .updated) then
        (assignIfWanted cfg clk ⟨u.db,0,0⟩ u.row).db else u.db := by
  unfold applyChanges assignWanted onlyChange
  cases cfg.sync.assignOnSync with
  | false => simp
  | true =>
    by_cases hu : u.action = .updated
    · simp [hu]
    · simp [hu]

theorem assign_if_wanted_db (db : Db) (row : EmployeeRow)
    (hs : cfg.sync.assignOnSync = true) :
    (assignIfWanted cfg clk ⟨db,0,0⟩ row).db =
      if wanted cfg clk row && (LockerDb.getByCard db row.cardCode).isNone then
        (pickLocker cfg clk db row none).db else db := by
  unfold assignIfWanted wanted assign
  dsimp only
  cases row.active with
  | false => simp
  | true =>
    cases Employee.isExpired cfg clk row with
    | true => simp
    | false =>
      cases LockerDb.getByCard db row.cardCode with
      | some lk => simp
      | none =>
        simp only [hs,Bool.not_false,Bool.and_self,Option.isNone_none,if_true,
          Bool.false_eq_true,if_false,Option.isSome_none,Bool.true_eq_false]
        cases (pickLocker cfg clk db row none).locker <;> rfl

theorem apply_only_change_db (u : Upserted) :
    (applyChanges cfg clk u.db (onlyChange u)).db =
      if wanted cfg clk u.row && decide (u.action = .updated) &&
          (LockerDb.getByCard u.db u.row.cardCode).isNone then
        (pickLocker cfg clk u.db u.row none).db else u.db := by
  rw [apply_only_change]
  cases hs : cfg.sync.assignOnSync with
  | false => simp [wanted,hs]
  | true =>
    rw [assign_if_wanted_db cfg clk u.db u.row hs]
    by_cases hu : u.action = .updated
    · simp [hu]
    · simp [hu]

variable {u : Upserted}

theorem list_outcome (cfg : Config) (clk : Clock) (h : Sound off u.db)
    (hc : Coded (sides u.db) u.row.id u.row.cardCode) :
    Sound off (applyChanges cfg clk u.db (onlyChange u)).db ∧
      cards (applyChanges cfg clk u.db (onlyChange u)).db = cards u.db ∧
      lockerOf (applyChanges cfg clk u.db (onlyChange u)).db u.row.cardCode =
        listLocker cfg clk u := by
  rw [apply_only_change_db]
  unfold listLocker
  split_ifs with hp
  · have hn : ∀ p, ¬Held (sides u.db) u.row.cardCode p := by
      simp only [Bool.and_eq_true,Option.isNone_iff_eq_none] at hp
      have hnn := get_by_card_none u.db _ hp.2
      rwa [sound_upper h hc] at hnn
    exact ⟨sound_pick cfg clk none h hc hn,cards_pick cfg clk u.db u.row none,
      pick_locker_of cfg clk h hc hn⟩
  · exact ⟨h,rfl,rfl⟩

/-- The sweep takes back the locker that these tables show for the card. -/
def sweepTakes (config : Config) (clock : Clock) (runtime : Locker.Runtime) (db : Db)
    (row : EmployeeRow) : Bool :=
  match LockerDb.getByCard db row.cardCode with
  | none => false
  | some held => taken config clock runtime row held

/-- The sweep does not look at what the refresh writes. -/
theorem taken_refresh {held held' : LockerRow} (rt : Locker.Runtime) (db : Db)
    (row : EmployeeRow) (h : LockerDb.get db held.id = some held)
    (h' : LockerDb.get (refreshExpiry cfg clk db) held.id = some held') :
    taken cfg clk rt row held' = taken cfg clk rt row held := by
  have hst : ∃ status reason, LockerDb.get (refreshExpiry cfg clk db) held.id =
      some { held with status := status, lastError := reason } := by
    refine List.foldlRecOn (motive := fun db' : Db => ∃ status reason,
      LockerDb.get db' held.id = some { held with status := status, lastError := reason }) _ _
      ⟨held.status,held.lastError,h⟩ ?_
    rintro db' ⟨status,reason,hg⟩ lk _
    unfold refreshRow
    dsimp only
    split_ifs
    · exact ⟨status,reason,hg⟩
    · rw [LockerDb.setStatus,LockerDb.get_update,hg,Option.map_some,patchRow]
      split_ifs
      · exact ⟨_,_,rfl⟩
      · exact ⟨status,reason,rfl⟩
    · exact ⟨status,reason,hg⟩
  obtain ⟨status,reason,hg⟩ := hst
  rw [Option.some.inj (h'.symm.trans hg)]
  rfl

/-- After the refresh the sweep takes the locker that the card held before it. -/
theorem sweep_takes_refresh {held : LockerRow} (rt : Locker.Runtime) (h : Sound off db)
    (hc : Coded (sides db) row.id row.cardCode)
    (hg : LockerDb.getByCard db row.cardCode = some held) :
    sweepTakes cfg clk rt (refreshExpiry cfg clk db) row = taken cfg clk rt row held := by
  have hl := locker_of_sides h (sound_upper h hc) (sides_refresh_expiry cfg clk db)
  rw [lockerOf,lockerOf,hg,Option.map_some] at hl
  obtain ⟨held',hg',hid⟩ := Option.map_eq_some_iff.mp hl
  unfold sweepTakes
  rw [hg']
  obtain ⟨hrow,_⟩ := LockerDb.get_by_card_some db _ held hg
  obtain ⟨hrow',_⟩ := LockerDb.get_by_card_some _ _ held' hg'
  rw [hid] at hrow'
  exact taken_refresh cfg clk rt db row hrow hrow'

theorem refresh_employees (db : Db) : (refreshExpiry cfg clk db).employees = db.employees := by
  refine List.foldlRecOn (motive := fun db' : Db => db'.employees = db.employees) _ _ rfl ?_
  intro db' h lk _
  unfold refreshRow
  dsimp only
  split_ifs
  · exact h
  · exact h
  · exact h

/-- What the end of a run leaves of a card: the sweep may take its locker back. -/
theorem settled_outcome (cfg : Config) (clk : Clock) (rt : Locker.Runtime)
    (h : Sound ∅ db) (hm : row ∈ db.employees.rows) :
    Sound ∅ (settled cfg clk rt db) ∧
      cards (settled cfg clk rt db) = cards db ∧
      lockerOf (settled cfg clk rt db) row.cardCode =
        if sweepTakes cfg clk rt (refreshExpiry cfg clk db) row then none
        else lockerOf db row.cardCode := by
  have hs := sides_refresh_expiry cfg clk db
  have hc := cards_refresh_expiry cfg clk db
  have hr := sound_of_sides h hs
  have hm' : row ∈ (refreshExpiry cfg clk db).employees.rows := by
    rw [refresh_employees]
    exact hm
  have hu := sound_upper h ⟨_,owner_of_mem db hm⟩
  have hl := locker_of_sides h hu hs
  unfold settled
  rw [reconcile_sound hr]
  refine ⟨sound_reclaim cfg clk rt hr,(cards_reclaim cfg clk rt _).trans hc,?_⟩
  rw [← hl]
  unfold sweepTakes
  cases hg : LockerDb.getByCard (refreshExpiry cfg clk db) row.cardCode with
  | none =>
    have hn : lockerOf (refreshExpiry cfg clk db) row.cardCode = none := by
      simp [lockerOf,hg]
    have hgn := gone_reclaim rt cfg clk hr ((locker_of_none hr hu).mp hn)
    rw [hn,(locker_of_none hgn.sound hu).mpr hgn.unheld]
    simp
  | some held =>
    rw [reclaim_locker_of cfg clk rt hr hm' hg]
    simp [lockerOf,hg]

variable {rec : Record}

theorem upsert_unchanged {clk : Clock} {db : Db} {row : EmployeeRow}
    (h : upsert clk db rec = .ok ⟨db,row,.unchanged⟩) :
    ∃ validated, validate clk rec = .ok validated ∧
      findByCard db validated.cardCode = some row ∧
      (changesOf row validated).isEmpty = true := by
  unfold upsert at h
  cases hv : validate clk rec with
  | error why =>
    rw [hv] at h
    cases h
  | ok validated =>
    rw [hv] at h
    dsimp only at h
    refine ⟨validated,rfl,?_⟩
    cases hf : findByCard db validated.cardCode with
    | none =>
      rw [hf] at h
      cases congrArg Upserted.action (ok.inj h)
    | some old =>
      rw [hf] at h
      dsimp only at h
      split_ifs at h with he
      · obtain rfl : old = row := congrArg Upserted.row (ok.inj h)
        exact ⟨rfl,he⟩
      · cases congrArg Upserted.action (ok.inj h)

variable {old : EmployeeRow} {card : Text}

/-- The stored row with what the record changes in it. -/
def merged (existing : EmployeeRow) (validated : Validated) : EmployeeRow :=
  (changesOf existing validated).apply existing

theorem upsert_stored {clk : Clock} {db : Db} {val : Validated} (hv : validate clk rec = .ok val)
    (hf : findByCard db val.cardCode = some old) :
    ∃ u, upsert clk db rec = .ok u ∧ u.row = merged old val ∧ u.db.lockers = db.lockers ∧
      (u.action = .updated ↔ (changesOf old val).isEmpty = false) := by
  unfold upsert
  rw [hv]
  dsimp only
  rw [hf]
  dsimp only
  split_ifs with he
  · refine ⟨_,rfl,?_,rfl,by simp [he]⟩
    rw [merged,of_decide_eq_true he]
    rfl
  · exact ⟨_,rfl,rfl,rfl,by simpa using he⟩

theorem find_by_card_upsert {clk : Clock} {db : Db} {row : EmployeeRow}
    (h : upsert clk db rec = .ok u) (hs : findByCard db u.row.cardCode = some old)
    (hf : findByCard db card = some row) (hne : row.cardCode ≠ u.row.cardCode) :
    findByCard u.db card = some row := by
  unfold upsert at h
  cases hv : validate clk rec with
  | error why =>
    rw [hv] at h
    exact nomatch h
  | ok val =>
    rw [hv] at h
    dsimp only at h
    cases hc : findByCard db val.cardCode with
    | none =>
      rw [hc] at h
      obtain rfl := ok.inj h
      exact nomatch hc.symm.trans hs
    | some found =>
      rw [hc] at h
      dsimp only at h
      split_ifs at h
      · obtain rfl := ok.inj h
        exact hf
      · obtain rfl := ok.inj h
        obtain ⟨code,hn,ho⟩ := Option.bind_eq_some_iff.mp hf
        refine Option.bind_eq_some_iff.mpr ⟨code,hn,?_⟩
        refine one_modify _ _ (patch_apply_id _) ho ?_ (fun _ _ hp => hp)
        intro hid
        have hfn := (find_by_card_some db _ found hc).2
        have hr := (find_by_card_some db _ row hf).2
        rw [key_injective _ row hr hfn hid] at hne
        exact hne rfl

theorem upsert_still_unchanged {clk : Clock} {db : Db} {o : Record} {row : EmployeeRow}
    (h : upsert clk db rec = .ok u) (hs : findByCard db u.row.cardCode = some old)
    (ho : upsert clk db o = .ok ⟨db,row,.unchanged⟩) (hne : row.cardCode ≠ u.row.cardCode) :
    upsert clk u.db o = .ok ⟨u.db,row,.unchanged⟩ := by
  obtain ⟨val,hv,hf,he⟩ := upsert_unchanged ho
  have hf' := find_by_card_upsert h hs hf hne
  simp [upsert,hv,hf',he]

theorem unchanged_fold (recs : List Record) (s : Applied)
    (h : ∀ other ∈ recs, ∃ row, upsert clk s.db other = .ok ⟨s.db,row,.unchanged⟩) :
    (recs.foldl (applyRecord clk) s).db = s.db ∧
      (recs.foldl (applyRecord clk) s).added = s.added ∧
      (recs.foldl (applyRecord clk) s).updated = s.updated := by
  induction recs generalizing s with
  | nil => exact ⟨rfl,rfl,rfl⟩
  | cons rec rest ih =>
    obtain ⟨row,hr⟩ := h rec mem_cons_self
    have hs : applyRecord clk s rec =
        { s with seen := s.seen++[row.cardCode], unchanged := s.unchanged+1 } := by
      simp [applyRecord,hr]
    rw [foldl_cons,hs]
    exact ih _ (fun other hm => h other (mem_cons_of_mem rec hm))

variable {list : List Record}

/-- A list that withdraws nobody leaves the card table as its records made it. -/
theorem sync_nobody_removed {db : Db} (h : (sync clk db list true).changes.deactivated = []) :
    (sync clk db list true).db = (applyRecords clk db list).db := by
  unfold sync at h ⊢
  dsimp only at h ⊢
  refine List.foldlRecOn (motive := fun db' => db' = (applyRecords clk db list).db) _ _ rfl ?_
  rintro _ rfl row hm
  unfold deactivateRow
  rw [if_neg]
  intro ha
  have hr : row ∈ List.filter (fun row : EmployeeRow => row.active)
      (if true = true then missingFrom (applyRecords clk db list).db
        (applyRecords clk db list).seen else []) := mem_filter.mpr ⟨hm,ha⟩
  rw [h] at hr
  exact absurd hr not_mem_nil

/-- A full list with one piece of news: the record. Every other record is of another
card and changes nothing, and no other active card is missing. -/
def OnlyNews (clock : Clock) (db : Db) (record : Record) (code : Text) (list : List Record) : Prop :=
  ∃ before after, list = before++record::after ∧
    (∀ other ∈ before++after, ∃ row, upsert clock db other = .ok ⟨db,row,.unchanged⟩ ∧
      row.cardCode ≠ code) ∧
    ∀ row ∈ db.employees.rows, row.active = true → row.cardCode ≠ code →
      row.cardCode ∈ accepted clock (before++after)

theorem accepted_insert (rec : Record) (before after : List Record) (code : Text) :
    code ∈ accepted clk (before++rec::after) ↔
      acceptedCode clk rec = some code ∨ code ∈ accepted clk (before++after) := by
  simp only [accepted,mem_filterMap,mem_append,mem_cons]
  constructor
  · rintro ⟨o,hm,hc⟩
    rcases hm with hb | rfl | ha
    · exact .inr ⟨o,.inl hb,hc⟩
    · exact .inl hc
    · exact .inr ⟨o,.inr ha,hc⟩
  · rintro (hc | ⟨o,hb | ha,hc⟩)
    · exact ⟨rec,.inr (.inl rfl),hc⟩
    · exact ⟨o,.inl hb,hc⟩
    · exact ⟨o,.inr (.inr ha),hc⟩

theorem upsert_accepted {clk : Clock} {db : Db} (h : upsert clk db rec = .ok u) : acceptedCode clk rec = some u.row.cardCode := by
  cases hv : validate clk rec with
  | error reason =>
    have he : upsert clk db rec = .error reason := by simp [upsert,hv]
    cases he.symm.trans h
  | ok val =>
    obtain ⟨u',hu',hm⟩ := upsert_ok clk db rec hv
    obtain rfl := ok.inj (hu'.symm.trans h)
    simp [acceptedCode,hv,hm.rowCode]

theorem apply_record_stored {clk : Clock} {s : Applied} (hu : upsert clk s.db rec = .ok u)
    (hs : findByCard s.db u.row.cardCode = some old) :
    (applyRecord clk s rec).db = u.db ∧ (applyRecord clk s rec).added = s.added ∧
      (applyRecord clk s rec).updated = s.updated++(onlyChange u).updated := by
  obtain ⟨db,row,action⟩ := u
  cases action with
  | added =>
    obtain ⟨_,⟨_,ha⟩ | ⟨val,_,hf,heq⟩⟩ := upsert_cases hu
    · exact absurd rfl ha
    · rw [heq] at hs
      exact nomatch hf.symm.trans hs
  | updated => simp [applyRecord,hu,onlyChange]
  | unchanged => simp [applyRecord,hu,onlyChange]

/-- A list in which one record alone has an effect, and which no active card is missing
from, has that effect. -/
theorem news_sync {clk : Clock} {db db' : Db} {before after : List Record}
    {updated : List EmployeeRow}
    (hb : ∀ other ∈ before, ∃ row, upsert clk db other = .ok ⟨db,row,.unchanged⟩)
    (hr : ∀ s : Applied, s.db = db → (applyRecord clk s rec).db = db' ∧ (applyRecord clk s rec).added = s.added ∧ (applyRecord clk s rec).updated = s.updated++updated)
    (haf : ∀ other ∈ after, ∃ row, upsert clk db' other = .ok ⟨db',row,.unchanged⟩)
    (hk : ∀ row ∈ db.employees.rows, row.active = true → row.cardCode ∈ accepted clk (before++rec::after)) :
    (sync clk db (before++rec::after) true).db = db' ∧
      (sync clk db (before++rec::after) true).changes = ⟨[],updated,[]⟩ := by
  have hn : (sync clk db (before++rec::after) true).changes.deactivated = [] := by
    rw [eq_nil_iff_forall_not_mem]
    intro row hrw
    obtain ⟨hm,ha,ho⟩ := (mem_deactivated clk db _ row).mp hrw
    exact ho (hk row hm ha)
  obtain ⟨hdb,had,hu⟩ := unchanged_fold clk before ⟨db,[],[],[],0,0⟩ hb
  have hs : applyRecords clk db (before++rec::after) =
      after.foldl (applyRecord clk)
        (applyRecord clk (before.foldl (applyRecord clk) ⟨db,[],[],[],0,0⟩) rec) := by
    rw [applyRecords,foldl_append,foldl_cons]
  generalize before.foldl (applyRecord clk) ⟨db,[],[],[],0,0⟩ = s at hdb had hu hs
  obtain ⟨hd,hadded',hud⟩ := hr s hdb
  obtain ⟨hdb'',hadded'',hup⟩ := unchanged_fold clk after _ (by rw [hd]; exact haf)
  have hal : (applyRecords clk db (before++rec::after)).added = [] ∧
      (applyRecords clk db (before++rec::after)).updated = updated := by
    rw [hs,hadded'',hadded',had,hup,hud,hu]
    exact ⟨rfl,rfl⟩
  constructor
  · rw [sync_nobody_removed clk hn,hs,hdb'',hd]
  · calc
      (sync clk db (before++rec::after) true).changes =
          ⟨(applyRecords clk db (before++rec::after)).added,
            (applyRecords clk db (before++rec::after)).updated,
            (sync clk db (before++rec::after) true).changes.deactivated⟩ := rfl
      _ = ⟨[],updated,[]⟩ := by rw [hal.1,hal.2,hn]

theorem only_news_sync {clk : Clock} {db : Db} (hu : upsert clk db rec = .ok u)
    (hs : findByCard db u.row.cardCode = some old)
    (h : OnlyNews clk db rec u.row.cardCode list) :
    (sync clk db list true).db = u.db ∧ (sync clk db list true).changes = onlyChange u := by
  obtain ⟨before,after,rfl,ho,hl⟩ := h
  refine news_sync ?_ ?_ ?_ ?_
  · intro o hm
    obtain ⟨row,hr,_⟩ := ho o (mem_append_left _ hm)
    exact ⟨row,hr⟩
  · rintro s rfl
    exact apply_record_stored hu hs
  · intro o hm
    obtain ⟨row,hr,hne⟩ := ho o (mem_append_right _ hm)
    exact ⟨row,upsert_still_unchanged hu hs hr hne⟩
  · intro row hm ha
    rw [accepted_insert]
    by_cases hc : row.cardCode = u.row.cardCode
    · rw [hc]
      exact .inl (upsert_accepted hu)
    · exact .inr (hl row hm ha hc)

variable {reason : Text}

/-- A record that cannot be read brings no news of its card. -/
theorem unread_sync {clk : Clock} {db : Db} (hu : upsert clk db rec = .error reason)
    (h : OnlyNews clk db rec code list)
    (hi : ∀ row ∈ db.employees.rows, row.cardCode = code → row.active = false) :
    (sync clk db list true).db = db ∧ (sync clk db list true).changes = ⟨[],[],[]⟩ := by
  obtain ⟨before,after,rfl,ho,hl⟩ := h
  have hun : ∀ o ∈ before++after,
      ∃ row, upsert clk db o = .ok ⟨db,row,.unchanged⟩ := by
    intro o hm
    obtain ⟨row,hr,_⟩ := ho o hm
    exact ⟨row,hr⟩
  refine news_sync (fun o hm => hun o (mem_append_left _ hm)) ?_
    (fun o hm => hun o (mem_append_right _ hm)) ?_
  · rintro s rfl
    simp [applyRecord,hu]
  · intro row hm ha
    rw [accepted_insert]
    by_cases hc : row.cardCode = code
    · rw [hi row hm hc] at ha
      cases ha
    · exact .inr (hl row hm ha hc)

variable {lk : LockerRow}

theorem get_release_type {db : Db} (h : LockerDb.get db lk.id = some lk) {freed : LockerRow}
    (hf : LockerDb.get (releaseLocker db lk.id).db lk.id = some freed) :
    freed.lockerType = lk.lockerType := by
  unfold releaseLocker at hf
  rw [h] at hf
  dsimp only at hf
  cases hc : lk.cardCode with
  | none =>
    rw [hc] at hf
    rw [Option.some.inj (h.symm.trans hf)]
  | some code =>
    rw [hc] at hf
    dsimp only at hf
    unfold LockerDb.get at hf
    rw [AssignmentFrame.detach_lockers] at hf
    change LockerDb.get (LockerDb.release db lk.id) lk.id = some freed at hf
    rw [AssignmentFrame.get_release,h,Option.map_some,patchRow,if_pos rfl] at hf
    rw [← Option.some.inj hf]
    rfl

/-- A locker of the wrong type is not handed out again to the card it was taken from. -/
theorem picked_other {cfg : Config} (h : LockerDb.get db lk.id = some lk)
    (ht : typeMatches cfg row lk = false) :
    picked cfg (releaseLocker db lk.id).db row ≠ some lk.id := by
  intro hp
  obtain ⟨chosen,hc,hid⟩ := Option.map_eq_some_iff.mp hp
  cases hf : findAvailable cfg (releaseLocker db lk.id).db row.role row.gender none with
  | error why =>
    rw [hf] at hc
    exact nomatch hc
  | ok found =>
    rw [hf] at hc
    obtain rfl : found = chosen := Option.some.inj hc
    obtain ⟨hm,_,hty⟩ := AssignmentFrame.available_row _ _ _ found
      (AssignmentFrame.find_available_listed _ _ _ _ _ found hf)
    have hg := get_release_type h ((get_some _ _ found).mpr ⟨hm,hid⟩)
    have hmt := (type_matches_iff cfg row lk).mpr (.inr (hg.symm.trans hty))
    rw [ht] at hmt
    exact nomatch hmt

theorem wanted_active {cfg : Config} {clk : Clock} {row : EmployeeRow}
    (h : wanted cfg clk row = true) : row.active = true := by
  simp only [wanted,Bool.and_eq_true] at h
  exact h.1.1

/-- A released locker of the wrong type makes no other locker free for the card. -/
theorem picked_release_none {cfg : Config} (h : LockerDb.get db lk.id = some lk)
    (ht : typeMatches cfg row lk = false) :
    picked cfg (releaseLocker db lk.id).db row = none ↔ LockerDb.available db row.role none = [] := by
  have hne : lk.lockerType ≠ row.role := by
    intro he
    rw [(type_matches_iff cfg row lk).mpr (.inr he)] at ht
    exact nomatch ht
  have hlisted (db' : Db) (free : LockerRow) : free ∈ LockerDb.available db' row.role none ↔
      LockerDb.get db' free.id = some free ∧ LockerDb.isAvailable row.role none free = true := by
    rw [LockerDb.available,mem_filter,LockerDb.all,mem_insertionSort]
    exact and_congr_left' ⟨get_key _ free,fun hg => ((get_some _ _ free).mp hg).1⟩
  have hsame : ∀ free, free ∈ LockerDb.available (releaseLocker db lk.id).db row.role none ↔
      free ∈ LockerDb.available db row.role none := by
    intro free
    rw [hlisted,hlisted]
    refine and_congr_left fun hav => ?_
    have hty : free.lockerType = row.role := by
      simp only [LockerDb.isAvailable,Bool.and_eq_true,decide_eq_true_eq] at hav
      exact hav.1.2
    by_cases hid : free.id = lk.id
    · rw [hid,h]
      constructor
      · intro hg
        exact absurd ((get_release_type h hg).symm.trans hty) hne
      · intro hg
        rw [Option.some.inj hg] at hne
        exact absurd hty hne
    · rw [AssignmentFrame.get_release_other db hid]
  rw [picked_none_iff,eq_nil_iff_forall_not_mem,eq_nil_iff_forall_not_mem]
  exact forall_congr' (fun free => not_congr (hsame free))

/-- The card holds this locker. Either the sweep of the list takes it back and the event frees
it as well, because nothing of the right type is free or the card is inactive; or the sweep
leaves it and the event has no reason to take it away. -/
def HolderAgrees (config : Config) (clock : Clock) (runtime : Locker.Runtime) (db : Db)
    (row : EmployeeRow) (locker : LockerRow) : Prop :=
  if taken config clock runtime row locker then
    (wanted config clock row = true ∧ typeMatches config row locker = false ∧
      LockerDb.available db row.role none = []) ∨
      (row.active = false ∧ releases config = true)
  else
    (wanted config clock row = true → typeMatches config row locker = true) ∧
      (row.active = false → releases config = false)

/-- The card holds none. If it is to have one and there is a free one, the record must change
something, for otherwise the list passes the card over, and the sweep of the same list must
not take the locker back at once. -/
def NewcomerAgrees (config : Config) (clock : Clock) (runtime : Locker.Runtime) (db : Db)
    (row : EmployeeRow) (updated : Prop) : Prop :=
  wanted config clock row = true →
    ∀ free, findAvailable config db row.role row.gender none = .ok free →
      updated ∧ taken config clock runtime row
        (LockerDb.heldBy row (stamp clock clock.now) free) = false

/-- The locker that the list leaves the card with. -/
def leftLocker (config : Config) (clock : Clock) (runtime : Locker.Runtime) (u : Upserted) :
    Option ℕ :=
  if sweepTakes config clock runtime (Locker.refreshExpiry config clock
    (applyChanges config clock u.db (onlyChange u)).db) u.row then none
  else listLocker config clock u

theorem holder_agrees_iff (rt : Locker.Runtime) (h : Sound off u.db)
    (hc : Coded (sides u.db) u.row.id u.row.cardCode)
    (hg : LockerDb.getByCard u.db u.row.cardCode = some lk) :
    eventLocker cfg clk u.db u.row = leftLocker cfg clk rt u ↔
      HolderAgrees cfg clk rt u.db u.row lk := by
  have hs : lockerOf u.db u.row.cardCode = some lk.id := by simp [lockerOf,hg]
  have hl : listLocker cfg clk u = some lk.id := by simp [listLocker,hg,hs]
  have hsame : (applyChanges cfg clk u.db (onlyChange u)).db = u.db := by
    rw [apply_only_change_db,hg]
    simp
  obtain ⟨hr,_⟩ := LockerDb.get_by_card_some u.db _ lk hg
  unfold leftLocker HolderAgrees eventLocker
  rw [hl,hsame,sweep_takes_refresh cfg clk rt h hc hg,hg,hs]
  cases hw : wanted cfg clk u.row with
  | true =>
    have ha := wanted_active hw
    cases ht : typeMatches cfg u.row lk with
    | true => cases taken cfg clk rt u.row lk <;> simp [ha,ht]
    | false =>
      have ho := picked_other hr ht
      have hn := picked_release_none hr ht
      cases taken cfg clk rt u.row lk <;> simp [ha,ht,ho,hn]
  | false =>
    cases u.row.active <;> cases releases cfg <;> cases taken cfg clk rt u.row lk <;> simp

theorem newcomer_agrees_iff (rt : Locker.Runtime) (h : Sound off u.db)
    (hc : Coded (sides u.db) u.row.id u.row.cardCode)
    (hg : LockerDb.getByCard u.db u.row.cardCode = none) :
    eventLocker cfg clk u.db u.row = leftLocker cfg clk rt u ↔
      NewcomerAgrees cfg clk rt u.db u.row (u.action = .updated) := by
  have hs : lockerOf u.db u.row.cardCode = none := by simp [lockerOf,hg]
  unfold leftLocker NewcomerAgrees eventLocker listLocker
  rw [hg,hs]
  cases hw : wanted cfg clk u.row with
  | false => simp
  | true =>
    cases hf : findAvailable cfg u.db u.row.role u.row.gender none with
    | error why =>
      have hp : picked cfg u.db u.row = none := by simp [picked,hf,Except.toOption]
      simp [hp]
    | ok free =>
      have hp : picked cfg u.db u.row = some free.id := by simp [picked,hf,Except.toOption]
      by_cases hu : u.action = .updated
      · have hn := get_by_card_none u.db _ hg
        rw [sound_upper h hc] at hn
        have hap : (applyChanges cfg clk u.db (onlyChange u)).db =
            (pickLocker cfg clk u.db u.row none).db := by
          rw [apply_only_change_db,hg]
          simp [hw,hu]
        rw [hap,sweep_takes_refresh cfg clk rt (sound_pick cfg clk none h hc hn)
          (coded_of_cards (cards_pick cfg clk u.db u.row none) hc) (picked_row cfg clk h hc hn hf)]
        simp [hp,hu]
      · simp [hp,hu]

def SameCard (code : Text) (a b : Db) : Prop :=
  EmployeeDb.findByCard a code = EmployeeDb.findByCard b code ∧ lockerOf a code = lockerOf b code

instance (code : Text) (a b : Db) : Decidable (SameCard code a b) :=
  inferInstanceAs (Decidable (_ ∧ _))

theorem same_card_iff {a b : Db} {id : ℕ} (ha : Sound ∅ a) (hb : Sound ∅ b)
    (hcr : cards b = cards a) (hc : Coded (sides a) id code) :
    SameCard code a b ↔ lockerOf a code = lockerOf b code := by
  unfold SameCard
  rw [same_row_iff ha hb hcr hc,and_self]

theorem cards_placed (db : Db) (row : EmployeeRow) : cards (placed cfg clk db row) = cards db := by
  unfold placed
  dsimp only
  rw [cards_refresh_expiry]
  split_ifs
  · rw [cards_release,cards_assign]
  · rw [cards_release]
  · rw [cards_assign]
  · rfl

theorem sweep_takes_unlinked (rt : Locker.Runtime) (db : Db) {row other : EmployeeRow}
    (h : withLocker none row = withLocker none other) :
    sweepTakes cfg clk rt db row = sweepTakes cfg clk rt db other :=
  calc
    sweepTakes cfg clk rt db row = sweepTakes cfg clk rt db (withLocker none row) := rfl
    _ = sweepTakes cfg clk rt db (withLocker none other) := by rw [h]
    _ = sweepTakes cfg clk rt db other := rfl

/-- The valid record: the row is merged alike, so the two ways agree if they leave the
card the same locker. -/
theorem merged_same_iff (cfg : Config) (clk : Clock) (rt : Locker.Runtime) (h : Sound ∅ u.db)
    (hm : u.row ∈ u.db.employees.rows) :
    SameCard u.row.cardCode (placed cfg clk u.db u.row)
        (settled cfg clk rt (applyChanges cfg clk u.db (onlyChange u)).db) ↔
      eventLocker cfg clk u.db u.row = leftLocker cfg clk rt u := by
  have hc : Coded (sides u.db) u.row.id u.row.cardCode := ⟨_,owner_of_mem u.db hm⟩
  obtain ⟨ha,hcr,hlc⟩ := list_outcome cfg clk h hc
  obtain ⟨row,_,hr,hv⟩ := find_by_card_cards ha hcr hc
  have hsm : withLocker none row = withLocker none u.row :=
    Option.some.inj (hv.symm.trans (cards_of_mem hm))
  obtain ⟨hs,hca,hl⟩ := settled_outcome cfg clk rt ha hr
  rw [code_of_unlinked hsm,sweep_takes_unlinked cfg clk rt _ hsm,hlc] at hl
  have hp := sound_placed cfg clk h hc
  rw [same_card_iff hp hs
    ((hca.trans hcr).trans (cards_placed cfg clk u.db u.row).symm)
    (coded_of_cards (cards_placed cfg clk u.db u.row) hc),
    placed_locker_of cfg clk h hc,hl]
  rfl

/-- When the event and the list lead to the same card, from the record, the row and the locker
of its card. A record that is refused must find the card inactive already, and the sweep must
leave its locker. -/
def Agreed (config : Config) (clock : Clock) (runtime : Locker.Runtime) (db : Db)
    (record : Record) (existing : EmployeeRow) : Prop :=
  match validate clock record, LockerDb.getByCard db existing.cardCode with
  | .error _, none => existing.active = false
  | .error _, some locker =>
    existing.active = false ∧ taken config clock runtime existing locker = false
  | .ok validated, some locker =>
    HolderAgrees config clock runtime db (merged existing validated) locker
  | .ok validated, none =>
    NewcomerAgrees config clock runtime db (merged existing validated)
      ((changesOf existing validated).isEmpty = false)

theorem on_event_updated {events : EventNames} {name : Text} (cfg : Config) (clk : Clock)
    (db : Db) (hn : eventKind events name = some .updated) (hc : rec.cardCode = some card) :
    (onEvent cfg events clk db name (some rec)).db = (merge cfg clk db rec).db := by
  simp [onEvent,hn,hc]

theorem run_list (rt : Locker.Runtime) (db : Db) (hl : list ≠ []) :
    (run cfg clk rt db (.ok list)).db =
      settled cfg clk rt (applyChanges cfg clk (sync clk db list true).db
        (sync clk db list true).changes).db := by
  unfold run applied
  dsimp only
  rw [synced_full cfg clk db list hl]

/-- The unread record of an active card withdraws the card. -/
theorem unread_withdrawn {clk : Clock} (hm : old ∈ db.employees.rows) (ha : old.active = true)
    (hu : upsert clk db rec = .error reason) (hon : OnlyNews clk db rec old.cardCode list) :
    old ∈ (sync clk db list true).changes.deactivated := by
  obtain ⟨before,after,rfl,ho,_⟩ := hon
  refine (mem_deactivated clk db _ old).mpr ⟨hm,ha,?_⟩
  rw [accepted_insert,not_or]
  constructor
  · intro hc
    cases hv : validate clk rec with
    | error reason' => simp [acceptedCode,hv] at hc
    | ok val =>
      obtain ⟨u,hok,_⟩ := upsert_ok clk db rec hv
      cases hok.symm.trans hu
  · intro hc
    obtain ⟨o,hot,hac⟩ := mem_filterMap.mp hc
    obtain ⟨row,hr,hne⟩ := ho o hot
    exact hne (Option.some.inj ((upsert_accepted hr).symm.trans hac))

theorem unread_same_iff {existing : EmployeeRow} (cfg : Config) {clk : Clock}
    (rt : Locker.Runtime) (h : Sound ∅ db) (hm : existing ∈ db.employees.rows)
    (hf : findByCard db existing.cardCode = some existing)
    (hu : upsert clk db rec = .error reason) (ho : OnlyNews clk db rec existing.cardCode list)
    (hl : list ≠ []) :
    SameCard existing.cardCode db (run cfg clk rt db (.ok list)).db ↔
      existing.active = false ∧ ∀ locker, LockerDb.getByCard db existing.cardCode = some locker →
        taken cfg clk rt existing locker = false := by
  cases ha : existing.active with
  | true =>
    have hd := unread_withdrawn hm ha hu ho
    rw [← synced_full cfg clk db list hl] at hd
    obtain ⟨row,hr,hi⟩ := run_inactive cfg clk rt db list _ hl hd
    refine iff_of_false ?_ (by simp)
    rintro ⟨hsm,_⟩
    rw [hf] at hsm
    have hmm := (find_by_card_some _ _ _ hsm.symm).2
    have hfn : findById (run cfg clk rt db (.ok list)).db existing.id =
        some existing := get_key _ _ hmm
    rw [Option.some.inj (hr.symm.trans hfn),ha] at hi
    exact nomatch hi
  | false =>
    have hc : Coded (sides db) existing.id existing.cardCode := ⟨_,owner_of_mem db hm⟩
    obtain ⟨hdb,hch⟩ := unread_sync hu ho (by
      intro row hr hcd
      have hid := h.agrees.unique row.id existing.id existing.cardCode
        ((coded_iff db _ _).mpr ⟨row,hr,rfl,hcd⟩) hc
      rw [key_injective _ row hr hm hid]
      exact ha)
    have hap : (applyChanges cfg clk db ⟨[],[],[]⟩).db = db := by
      simp [applyChanges,assignWanted]
    obtain ⟨hs,hcr,hlc⟩ := settled_outcome cfg clk rt h hm
    rw [run_list cfg clk rt db hl,hdb,hch,hap,same_card_iff h hs hcr hc,hlc]
    cases hg : LockerDb.getByCard db existing.cardCode with
    | none =>
      have hn : lockerOf db existing.cardCode = none := by simp [lockerOf,hg]
      simp [hn]
    | some locker =>
      have hsome : lockerOf db existing.cardCode = some locker.id := by simp [lockerOf,hg]
      rw [sweep_takes_refresh cfg clk rt h hc hg,hsome]
      cases ht : taken cfg clk rt existing locker <;> simp [ht]

/-- A record of a stored card leads to the same row and the same locker as an event and
as the only news of a full list exactly if the condition holds. -/
theorem event_list_agree_iff (config : Config) (events : EventNames) (clock : Clock)
    (runtime : Locker.Runtime) (db : Db) (name : Text) (record : Record) (existing : EmployeeRow)
    (list : List Record) (hcons : Consistent db) (hname : eventKind events name = some .updated)
    (hstored : record.cardCode.bind (EmployeeDb.findByCard db) = some existing)
    (honly : OnlyNews clock db record existing.cardCode list) :
    SameCard existing.cardCode (onEvent config events clock db name (some record)).db
        (Sync.run config clock runtime db (.ok list)).db ↔
      Agreed config clock runtime db record existing := by
  have h := consistent_sound hcons
  have hl : list ≠ [] := by
    obtain ⟨before,after,rfl,_⟩ := honly
    simp
  obtain ⟨cardCode,hc,hfn⟩ := Option.bind_eq_some_iff.mp hstored
  obtain ⟨hcd,hm⟩ := EmployeeDb.find_by_card_some db _ _ hfn
  have hf : EmployeeDb.findByCard db existing.cardCode = some existing := by
    unfold EmployeeDb.findByCard at hfn ⊢
    rw [hcd] at hfn
    rw [normalize_code_idempotent hcd]
    exact hfn
  rw [on_event_updated _ clock db hname hc]
  unfold merge Agreed
  cases hv : validate clock record with
  | error reason =>
    have hu : upsert clock db record = .error reason := by simp [upsert,hv]
    rw [hu]
    refine (unread_same_iff _ _ h hm hf hu honly hl).trans ?_
    cases LockerDb.getByCard db existing.cardCode <;> simp
  | ok validated =>
    have hac : acceptedCode clock record = some validated.cardCode := by simp [acceptedCode,hv]
    have hmn := accepted_code_mentioned clock record hac
    rw [hc,Option.bind_some,hcd,Option.some.injEq] at hmn
    obtain ⟨u,hu,hrow,hlk,hup⟩ := upsert_stored hv (by rw [← hmn]; exact hf)
    have hcode : u.row.cardCode = existing.cardCode := by
      rw [hrow]
      rfl
    obtain ⟨hr,⟨hs,_⟩ | ⟨validated',hv',hn,_⟩⟩ := upsert_cases hu
    · rw [← hcode] at hf honly ⊢
      obtain ⟨hdb,hch⟩ := only_news_sync hu hf honly
      have hcd' : Coded (sides u.db) u.row.id u.row.cardCode := ⟨_,owner_of_mem u.db hr⟩
      have hsnd := sound_of_sides h hs
      rw [hu,run_list _ clock _ db hl,hdb,hch]
      refine (merged_same_iff _ clock runtime hsnd hr).trans ?_
      have hby : LockerDb.getByCard u.db u.row.cardCode =
          LockerDb.getByCard db u.row.cardCode := by
        rw [LockerDb.getByCard,LockerDb.getByCard,hlk]
      cases hg : LockerDb.getByCard db u.row.cardCode with
      | some locker =>
        rw [holder_agrees_iff _ clock runtime hsnd hcd' (hby.trans hg),HolderAgrees,
          LockerDb.available,LockerDb.all,hlk,hrow]
        rfl
      | none =>
        rw [newcomer_agrees_iff _ clock runtime hsnd hcd' (hby.trans hg),NewcomerAgrees,
          find_available_lockers _ hlk,hup,hrow]
        rfl
    · obtain rfl := ok.inj (hv'.symm.trans hv)
      rw [← hmn,hf] at hn
      cases hn

def newsRecord (username role : String) (active : Bool) : Record :=
  ⟨some username.toList,some "ab12",some role.toList,none,none,none,active,none⟩

theorem cabinet_only_news (rec : Record) :
    OnlyNews cabinetClock cabinetDb rec cabinetEmployee.cardCode [rec] := by
  refine ⟨[],[],rfl,fun _ hm => absurd hm not_mem_nil,?_⟩
  intro row hm _ hne
  exact absurd (congrArg EmployeeRow.cardCode (mem_singleton.mp hm)) hne

theorem renamed_card_agrees :
    Consistent cabinetDb ∧
      eventKind builtinEvents "employee.card.updated" = some .updated ∧
      OnlyNews cabinetClock cabinetDb (newsRecord "Anh" "employee" true) cabinetEmployee.cardCode
        [newsRecord "Anh" "employee" true] ∧
      SameCard cabinetEmployee.cardCode
        (onEvent cabinetConfig builtinEvents cabinetClock cabinetDb
          "employee.card.updated" (some (newsRecord "Anh" "employee" true))).db
        (Sync.run cabinetConfig cabinetClock (fun _ => none) cabinetDb
          (.ok [newsRecord "Anh" "employee" true])).db := by
  refine ⟨cabinet_consistent,by decide,cabinet_only_news _,?_⟩
  refine (event_list_agree_iff _ _ _ _ _
    _ _ _ _
    cabinet_consistent (by decide) (by decide) (cabinet_only_news _)).mpr ?_
  exact ⟨fun _ => by decide,fun hi => nomatch hi⟩

/-- An employee who becomes a contractor loses the locker through the event and keeps it
through the list; so does a card that the record marks inactive. -/
theorem changed_card_differs :
    Consistent cabinetDb ∧
      eventKind builtinEvents "employee.card.updated" = some .updated ∧
      OnlyNews cabinetClock cabinetDb (newsRecord "An" "contractor" true) cabinetEmployee.cardCode
        [newsRecord "An" "contractor" true] ∧
      ¬SameCard cabinetEmployee.cardCode
        (onEvent cabinetConfig builtinEvents cabinetClock cabinetDb
          "employee.card.updated" (some (newsRecord "An" "contractor" true))).db
        (Sync.run cabinetConfig cabinetClock (fun _ => none) cabinetDb
          (.ok [newsRecord "An" "contractor" true])).db ∧
      OnlyNews cabinetClock cabinetDb (newsRecord "An" "employee" false) cabinetEmployee.cardCode
        [newsRecord "An" "employee" false] ∧
      ¬SameCard cabinetEmployee.cardCode
        (onEvent cabinetConfig builtinEvents cabinetClock cabinetDb
          "employee.card.updated" (some (newsRecord "An" "employee" false))).db
        (Sync.run cabinetConfig cabinetClock (fun _ => none) cabinetDb
          (.ok [newsRecord "An" "employee" false])).db :=
  ⟨cabinet_consistent,by decide,cabinet_only_news _,by decide,cabinet_only_news _,by decide⟩

end EMaster.SyncAgreement
