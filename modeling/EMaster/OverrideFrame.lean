import EMaster.Access

/-!
# What the override leaves alone

Under the override a card is looked up and one door may be opened. The tables stay as
they are, or one locker goes to ERROR. The machine remembers the opened door; its mode
and its times are those set before the door was tried.
-/

set_option autoImplicit false

namespace EMaster.OverrideFrame
open LockerTime LockerConfig Database
open Modbus AdminAccess

def Faulted (db db' : Db) : Prop :=
  db' = db ∨ ∃ lockerId reason, db' = LockerDb.setStatus db lockerId .ERROR (some reason)

theorem faulted_employees {db db' : Db} (h : Faulted db db') : db'.employees = db.employees := by
  obtain rfl | ⟨lid,reason,rfl⟩ := h
  · rfl
  · rfl

theorem unlock_faulted (cfg : Config) (clk : Clock) (answers : Answers) (db : Db)
    (rt : Locker.Runtime) (lid : ℕ) (card : Text) :
    Faulted db (Locker.unlock cfg clk answers db rt lid card).db := by
  cases hg : LockerDb.get db lid with
  | none => exact .inl (by simp [Locker.unlock,hg])
  | some lk =>
    rcases Locker.unlock_cases cfg clk answers db rt card lid lk hg with
      ⟨_,hdb⟩ | ⟨_,_,_,_,_,_,hdb | ⟨reason,hdb⟩⟩
    · exact .inl hdb
    · exact .inl hdb
    · rw [Locker.setError,hg] at hdb
      exact .inr ⟨lid,reason,hdb⟩

theorem note_other_card_ordinary {s : AdminAccess.State} (h : isOverrideActive s = false) :
    isOverrideActive (noteOtherCard s) = false := by
  unfold noteOtherCard
  split_ifs
  · rfl
  · exact h

/-- An outcome under the override, against the state in which the door is tried. -/
structure Tried (db : Db) (s : AdminAccess.State) (outcome : Outcome) : Prop where
  faulted : Faulted db outcome.db
  admin : ∃ opened, outcome.admin = { s with opened := opened }

variable (cfg : Config) (clk : Clock) (answers : Answers) (db : Db) (rt : Locker.Runtime)
  (s : AdminAccess.State)

theorem open_expired_tried (lk : LockerRow) :
    Tried db s (openExpired cfg clk answers db rt s lk) := by
  have hu := unlock_faulted cfg clk answers db rt lk.id (lk.cardCode.getD [])
  unfold openExpired
  dsimp only
  split_ifs
  · exact ⟨.inl rfl,s.opened,rfl⟩
  · cases (Locker.unlock cfg clk answers db rt lk.id (lk.cardCode.getD [])).result with
    | error why => exact ⟨hu,s.opened,rfl⟩
    | ok _ => exact ⟨hu,_,rfl⟩

theorem unlock_expired_tried (lid : ℕ) :
    Tried db s (unlockExpired cfg clk answers db rt s lid) := by
  unfold unlockExpired
  cases LockerDb.get db lid with
  | none => exact ⟨.inl rfl,s.opened,rfl⟩
  | some found =>
    dsimp only
    split_ifs
    · exact ⟨.inl rfl,s.opened,rfl⟩
    · exact ⟨.inl rfl,s.opened,rfl⟩
    · exact open_expired_tried cfg clk answers db rt s found

theorem unlock_next_tried : Tried db s (unlockNextExpired cfg clk answers db rt s) := by
  unfold unlockNextExpired
  cases pendingExpired db s with
  | nil => exact ⟨.inl rfl,s.opened,rfl⟩
  | cons lk _ => exact unlock_expired_tried cfg clk answers db rt s lk.id

variable (card : Text)

theorem open_override_tried (emp : EmployeeRow) (lk : LockerRow) :
    Tried db s (openOverride cfg clk answers db rt s card emp lk) := by
  have hu := unlock_faulted cfg clk answers db rt lk.id emp.cardCode
  unfold openOverride
  dsimp only
  split_ifs
  · exact ⟨.inl rfl,s.opened,rfl⟩
  · exact ⟨.inl rfl,s.opened,rfl⟩
  · cases (Locker.unlock cfg clk answers db rt lk.id emp.cardCode).result with
    | error why => exact ⟨hu,s.opened,rfl⟩
    | ok _ => exact ⟨hu,_,rfl⟩

/-- A user card re-arms the mode and opens at most its own door. -/
theorem process_user_card_tried :
    Tried db { s with deadline := some (clk.now+cfg.admin.overrideTimeout) }
      (processUserCard cfg clk answers db rt s card) := by
  unfold processUserCard
  dsimp only
  cases EmployeeDb.findByCard db card with
  | none => exact ⟨.inl rfl,s.opened,rfl⟩
  | some emp =>
    dsimp only
    split_ifs
    · exact ⟨.inl rfl,s.opened,rfl⟩
    · cases LockerDb.getByCard db emp.cardCode with
      | none => exact ⟨.inl rfl,s.opened,rfl⟩
      | some lk => exact open_override_tried cfg clk answers db rt _ card _ _

/-- An admin scan inside the mode re-arms it and opens at most one expired locker. -/
theorem admin_scan_tried (h : isOverrideActive s = true) :
    Tried db { s with
        deadline := some (clk.now+cfg.admin.overrideTimeout)
        lastScanAt := some clk.now }
      (onAdminScan cfg clk answers db rt s card) := by
  unfold onAdminScan
  dsimp only
  rw [if_pos h]
  split_ifs
  · exact ⟨.inl rfl,s.opened,rfl⟩
  · exact unlock_next_tried cfg clk answers db rt _

theorem admin_scan_faulted : Faulted db (onAdminScan cfg clk answers db rt s card).db := by
  cases ha : isOverrideActive s with
  | true => exact (admin_scan_tried cfg clk answers db rt s card ha).faulted
  | false =>
    unfold onAdminScan
    dsimp only
    rw [if_neg (by simp [ha])]
    split_ifs
    · exact .inl rfl
    · exact .inl rfl

end EMaster.OverrideFrame
