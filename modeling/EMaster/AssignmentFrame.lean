import EMaster.Assignment

/-!
# What releases, repairs and sweeps leave alone

Release, the expiry refresh, the consistency repair and the reclaim sweep never
give a locker to a card and never change whether a card is active. Assignment
hands out free lockers only, so it moves no card that already holds one.
-/

set_option autoImplicit false

namespace EMaster.AssignmentFrame
open KeyedTable Text LockerTime LockerConfig Database List EmployeeDb
open Employee Assignment

def KeepsActive (db db' : Db) : Prop :=
  ∀ id row, EmployeeDb.findById db id = some row →
    ∃ row', EmployeeDb.findById db' id = some row' ∧ row'.active = row.active

/-- No card is changed to active or inactive, and no locker gets a new holder. -/
structure Settles (db db' : Db) : Prop where
  active : KeepsActive db db'
  holder : ∀ id locker, LockerDb.get db id = some locker →
    ∃ locker', LockerDb.get db' id = some locker' ∧
      (locker'.cardCode = locker.cardCode ∨ locker'.cardCode = none)

variable (cfg : Config) (clk : Clock) (db : Db) (lockerId : ℕ) (emp : EmployeeRow)
  (locker : LockerRow)

theorem KeepsActive.refl : KeepsActive db db := fun _ row h => ⟨row,h,rfl⟩

theorem KeepsActive.trans (a b c : Db) (hab : KeepsActive a b) (hbc : KeepsActive b c) :
    KeepsActive a c := by
  intro id row h
  obtain ⟨row',h',ha⟩ := hab id row h
  obtain ⟨row'',h'',ha'⟩ := hbc id row' h'
  exact ⟨row'',h'',ha'.trans ha⟩

theorem Settles.refl : Settles db db := ⟨KeepsActive.refl db,fun _ lk h => ⟨lk,h,.inl rfl⟩⟩

theorem Settles.trans (a b c : Db) (hab : Settles a b) (hbc : Settles b c) : Settles a c := by
  refine ⟨KeepsActive.trans a b c hab.active hbc.active,?_⟩
  intro id lk h
  obtain ⟨locker',h',hl⟩ := hab.holder id lk h
  obtain ⟨locker'',h'',hl'⟩ := hbc.holder id locker' h'
  refine ⟨locker'',h'',?_⟩
  rcases hl' with hs | hn
  · rw [hs]
    exact hl
  · exact .inr hn

theorem settles_foldl {σ α : Type} (db : σ → Db) (f : σ → α → σ) (xs : List α) (s : σ)
    (hf : ∀ s x, Settles (db s) (db (f s x))) : Settles (db s) (db (xs.foldl f s)) :=
  List.foldlRecOn (motive := fun s' => Settles (db s) (db s')) xs f (Settles.refl (db s))
    (fun s' h x _ => Settles.trans _ _ _ h (hf s' x))

variable (card : Text) (id : ℕ)

theorem keeps_active_set_locker (lid : Option ℕ) : KeepsActive db (setLocker db id lid) := by
  intro o row h
  refine ⟨patchRow EmployeeRow.id id (withLocker lid) row,?_,?_⟩
  · exact (get_modify _ id o _ (with_locker_id lid)).trans (congrArg _ h)
  · unfold patchRow
    split_ifs <;> rfl

theorem settles_set_locker (lid : Option ℕ) : Settles db (setLocker db id lid) :=
  ⟨keeps_active_set_locker db id lid,fun _ lk h => ⟨lk,h,.inl rfl⟩⟩

theorem settles_set_status (st : LockerStatus) (why : Option Text) :
    Settles db (LockerDb.setStatus db lockerId st why) := by
  refine ⟨fun _ row h => ⟨row,h,rfl⟩,?_⟩
  intro id lk h
  obtain ⟨locker',h',hs⟩ := LockerDb.get_set_status db _ id st why lk h
  exact ⟨locker',h',.inl hs.cardCode⟩

theorem get_release :
    LockerDb.get (LockerDb.release db lockerId) id =
      (LockerDb.get db id).map (patchRow LockerRow.id lockerId LockerDb.vacated) :=
  LockerDb.get_update db _ id _ LockerDb.vacated_id

theorem settles_release_row : Settles db (LockerDb.release db lockerId) := by
  refine ⟨fun _ row h => ⟨row,h,rfl⟩,?_⟩
  intro id lk h
  refine ⟨_,by rw [get_release,h]; rfl,?_⟩
  unfold patchRow
  split_ifs
  · exact .inr rfl
  · exact .inl rfl

theorem settles_detach : Settles db (detach db card) := by
  unfold detach
  cases findByCard db card with
  | none => exact Settles.refl db
  | some emp => exact settles_set_locker db _ none

theorem settles_release_locker : Settles db (releaseLocker db lockerId).db := by
  unfold releaseLocker
  cases LockerDb.get db lockerId with
  | none => exact Settles.refl db
  | some lk =>
    dsimp only
    cases lk.cardCode with
    | none => exact Settles.refl db
    | some card =>
      exact Settles.trans _ _ _ (settles_release_row db _) (settles_detach _ _)

theorem settles_release : Settles db (release db card).db := by
  unfold release
  cases LockerDb.getByCard db card with
  | some lk => exact settles_release_locker db _
  | none =>
    dsimp only
    cases findByCard db card with
    | none => exact Settles.refl db
    | some emp =>
      dsimp only
      split_ifs
      · exact settles_set_locker db _ none
      · exact Settles.refl db

theorem settles_refresh_expiry : Settles db (Locker.refreshExpiry cfg clk db) := by
  apply settles_foldl id
  intro db' lk
  unfold Locker.refreshRow
  dsimp only [id]
  split_ifs
  · exact Settles.refl db'
  · exact settles_set_status db' _ _ none
  · exact Settles.refl db'

theorem settles_relink : Settles db (relinkLocker db locker) := by
  unfold relinkLocker
  cases locker.cardCode with
  | none => exact Settles.refl db
  | some card =>
    dsimp only
    cases findByCard db card with
    | none => exact settles_release_locker db _
    | some emp =>
      dsimp only
      split_ifs
      · exact settles_set_locker db _ _
      · exact Settles.refl db

theorem settles_clear_link : Settles db (clearLink db emp) := by
  unfold clearLink
  cases emp.lockerId with
  | none => exact Settles.refl db
  | some lid =>
    dsimp only
    split_ifs
    · exact Settles.refl db
    · exact settles_set_locker db _ none

theorem settles_reconcile : Settles db (reconcile db) :=
  Settles.trans _ _ _ (settles_foldl id _ _ db settles_relink)
    (settles_foldl id _ _ _ settles_clear_link)

theorem settles_reclaim_one (rt : Locker.Runtime) (s : Sweep) (lid : ℕ) :
    Settles s.db (reclaimOne rt s lid).db := by
  unfold reclaimOne
  dsimp only
  split_ifs
  · exact Settles.refl s.db
  · exact settles_release_locker s.db lid
  · exact settles_release_locker s.db lid

theorem settles_reclaim (rt : Locker.Runtime) (db : Db) :
    Settles db (reclaim cfg clk rt db).db := by
  unfold reclaim
  split_ifs
  · exact Settles.refl db
  · refine Settles.trans _ _ _ (settles_foldl Sweep.db (reclaimFinished rt) _
      (⟨db,[],0,0⟩ : Sweep) ?_) (settles_foldl Sweep.db (reclaimHeld rt) _ _ ?_)
    · intro s emp
      unfold reclaimFinished
      cases LockerDb.getByCard s.db emp.cardCode with
      | none => exact Settles.refl s.db
      | some lk => exact settles_reclaim_one rt { s with seen := lk.id::s.seen } lk.id
    · intro s lk
      unfold reclaimHeld
      split_ifs
      · exact Settles.refl s.db
      · exact settles_reclaim_one rt { s with seen := lk.id::s.seen } lk.id

theorem keeps_active_give : KeepsActive db (giveLocker clk db emp locker).db := by
  have h := keeps_active_set_locker (LockerDb.assign db locker.id emp
    (stamp clk clk.now)) emp.id (some locker.id)
  unfold giveLocker
  dsimp only
  cases LockerDb.get (setLocker (LockerDb.assign db locker.id emp
    (stamp clk clk.now)) emp.id (some locker.id)) locker.id with
  | none => exact h
  | some sto => exact h

variable (bid : Option ℕ)

theorem keeps_active_pick : KeepsActive db (pickLocker cfg clk db emp bid).db := by
  unfold pickLocker
  cases findAvailable cfg db (lockerTypeFor emp) emp.gender bid with
  | error why => exact KeepsActive.refl db
  | ok lk => exact keeps_active_give clk db emp lk

theorem keeps_active_assign : KeepsActive db (assign cfg clk db emp bid).db := by
  unfold assign
  split_ifs
  · exact KeepsActive.refl db
  · cases LockerDb.getByCard db emp.cardCode with
    | none => exact keeps_active_pick cfg clk db emp bid
    | some old =>
      dsimp only
      split_ifs
      · exact KeepsActive.refl db
      · exact KeepsActive.trans _ _ _ (settles_release_locker db _).active
          (keeps_active_pick cfg clk _ emp bid)

theorem keeps_active_assign_if_wanted (s : AssignCount) (emp : EmployeeRow) :
    KeepsActive s.db (assignIfWanted cfg clk s emp).db := by
  unfold assignIfWanted
  split_ifs
  · exact KeepsActive.refl s.db
  · exact KeepsActive.refl s.db
  · exact KeepsActive.refl s.db
  · have h := keeps_active_assign cfg clk s.db emp none
    dsimp only
    cases (assign cfg clk s.db emp none).locker with
    | error why => exact h
    | ok lk => exact h

def Free (lockerId : ℕ) (db : Db) : Prop :=
  ∃ locker, LockerDb.get db lockerId = some locker ∧ locker.cardCode = none

def Found (code : Text) (lockerId : ℕ) (db : Db) : Prop :=
  ∃ locker, db.lockers.one (fun row => decide (row.cardCode = some code)) = some locker ∧
    locker.id = lockerId

def Holds (code : Text) (lockerId : ℕ) (db : Db) : Prop :=
  ∃ locker, LockerDb.get db lockerId = some locker ∧ locker.cardCode = some code

variable {lid : ℕ} {code : Text}

theorem settles_free (db' : Db) (lid : ℕ) (h : Settles db db') (hf : Free lid db) :
    Free lid db' := by
  obtain ⟨lk,hg,hn⟩ := hf
  obtain ⟨locker',hg',hc⟩ := h.holder lid lk hg
  refine ⟨locker',hg',?_⟩
  rcases hc with hc | hc
  · rw [hc,hn]
  · exact hc

theorem release_locker_free (h : LockerDb.get db lockerId = some locker) :
    Free lockerId (releaseLocker db lockerId).db := by
  have hid : locker.id = lockerId := ((get_some _ _ _).mp h).2
  unfold releaseLocker
  rw [h]
  dsimp only
  cases hc : locker.cardCode with
  | none => exact ⟨locker,h,hc⟩
  | some card =>
    apply settles_free _ _ _ (settles_detach _ _)
    exact ⟨LockerDb.vacated locker,by rw [get_release,h,Option.map_some,patchRow,if_pos hid],rfl⟩

theorem detach_lockers : (detach db card).lockers = db.lockers := by
  unfold detach
  cases findByCard db card <;> rfl

variable {lockerId}

theorem get_release_other {id : ℕ} (h : id ≠ lockerId) :
    LockerDb.get (releaseLocker db lockerId).db id = LockerDb.get db id := by
  unfold releaseLocker
  cases hg : LockerDb.get db lockerId with
  | none => rfl
  | some lk =>
    dsimp only
    cases lk.cardCode with
    | none => rfl
    | some card =>
      have hd : LockerDb.get (detach (LockerDb.release db lockerId) card) id =
          LockerDb.get (LockerDb.release db lockerId) id := by
        unfold LockerDb.get
        rw [detach_lockers]
      rw [hd]
      exact LockerDb.get_update_other db _ id _ _ h

theorem find_available_listed (ltype : Text) (gender : Option Text) (blockId : Option ℕ)
    (lk : LockerRow) (h : findAvailable cfg db ltype gender blockId = .ok lk) :
    lk ∈ LockerDb.available db ltype blockId := by
  unfold findAvailable at h
  cases ha : LockerDb.available db ltype blockId with
  | nil =>
    rw [ha] at h
    exact nomatch h
  | cons first rest =>
    rw [ha] at h
    dsimp only at h
    split_ifs at h
    · obtain rfl := Except.ok.inj h
      cases hf : (first::rest).find? (inPriorityRange cfg.locker.femalePriority) with
      | none => exact mem_cons_self
      | some chosen => exact mem_of_find?_eq_some hf
    · obtain rfl := Except.ok.inj h
      exact mem_cons_self

theorem available_row (lockerType : Text) (bid : Option ℕ) (lk : LockerRow)
    (h : lk ∈ LockerDb.available db lockerType bid) :
    lk ∈ db.lockers.rows ∧ lk.cardCode = none ∧ lk.lockerType = lockerType := by
  obtain ⟨ha,hav⟩ := mem_filter.mp h
  simp only [LockerDb.isAvailable,Bool.and_eq_true,Option.isNone_iff_eq_none,
    decide_eq_true_eq] at hav
  exact ⟨(mem_insertionSort _).mp ha,hav.1.1.1.2,hav.1.2⟩

theorem find_available_free {ltype : Text} {gender : Option Text} {bid : Option ℕ}
    {lk : LockerRow} (h : findAvailable cfg db ltype gender bid = .ok lk) :
    lk ∈ db.lockers.rows ∧ lk.cardCode = none := by
  obtain ⟨hm,hf,_⟩ := available_row db _ bid lk (find_available_listed cfg db _ _ bid lk h)
  exact ⟨hm,hf⟩

theorem give_locker_lockers :
    (giveLocker clk db emp locker).db.lockers = db.lockers.modify locker.id
      (LockerDb.heldBy emp (stamp clk clk.now)) (LockerDb.held_by_id emp _) := by
  unfold giveLocker
  dsimp only
  cases LockerDb.get (setLocker (LockerDb.assign db locker.id emp
    (stamp clk clk.now)) emp.id (some locker.id)) locker.id <;> rfl

variable {emp}

theorem keeps_active_apply_changes (chs : Changes) :
    KeepsActive db (applyChanges cfg clk db chs).db := by
  have hw : KeepsActive db (assignWanted cfg clk db chs).db := by
    unfold assignWanted
    split_ifs
    · refine List.foldlRecOn (motive := fun s : AssignCount => KeepsActive db s.db) _ _
        (KeepsActive.refl db) ?_
      intro s hs emp _
      exact KeepsActive.trans _ _ _ hs (keeps_active_assign_if_wanted cfg clk s emp)
    · exact KeepsActive.refl db
  unfold applyChanges
  dsimp only
  split_ifs
  · exact KeepsActive.trans _ _ _ hw (settles_foldl ReleaseCount.db releaseRemoved _
      (⟨_,0⟩ : ReleaseCount) (fun s o => settles_release s.db o.cardCode)).active
  · exact hw

variable {cfg db}

end EMaster.AssignmentFrame
