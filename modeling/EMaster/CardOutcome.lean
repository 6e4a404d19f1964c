import EMaster.SyncEvents

/-!
# What becomes of one card

The row of a card and the locker it holds, followed through assignment, repair and
sweep. Those operations touch no other column of a card row, and in a sound database
the link of the row is the locker that is found under its code.
-/

set_option autoImplicit false

namespace EMaster.CardOutcome
open KeyedTable Text LockerTime LockerConfig Database List EmployeeDb Option Locker
open Employee Assignment ContractorUsage TwoSided
open AssignmentLink AssignmentRepair AssignmentFrame

def cards (db : Db) (id : ℕ) : Option EmployeeRow :=
  (EmployeeDb.findById db id).map (EmployeeDb.withLocker none)

variable (cfg : Config) {off : Set ℕ} (clk : Clock) (db : Db)

theorem cards_set_locker (id : ℕ) (lid : Option ℕ) : cards (setLocker db id lid) = cards db := by
  funext other
  change Option.map _ ((db.employees.modify id _ (with_locker_id lid)).get other) = _
  rw [get_modify,Option.map_map]
  refine map_congr ?_
  intro row _
  unfold Function.comp patchRow
  split_ifs <;> rfl

theorem cards_release_locker (lid : ℕ) : cards (releaseLocker db lid).db = cards db := by
  unfold releaseLocker
  cases LockerDb.get db lid with
  | none => rfl
  | some lk =>
    dsimp only
    cases lk.cardCode with
    | none => rfl
    | some card =>
      dsimp only
      unfold detach
      cases findByCard (LockerDb.release db lid) card with
      | none => rfl
      | some emp => exact cards_set_locker _ _ none

theorem cards_pick (emp : EmployeeRow) (bid : Option ℕ) :
    cards (pickLocker cfg clk db emp bid).db = cards db := by
  unfold pickLocker
  cases findAvailable cfg db (lockerTypeFor emp) emp.gender bid with
  | error why => rfl
  | ok lk =>
    dsimp only
    rw [give_locker_db]
    exact cards_set_locker _ _ _

theorem cards_assign (emp : EmployeeRow) (bid : Option ℕ) :
    cards (assign cfg clk db emp bid).db = cards db := by
  unfold assign
  split_ifs
  · rfl
  · cases LockerDb.getByCard db emp.cardCode with
    | none => exact cards_pick cfg clk db emp bid
    | some old =>
      dsimp only
      split_ifs
      · rfl
      · exact (cards_pick cfg clk _ emp bid).trans (cards_release_locker db _)

theorem cards_release (card : Text) : cards (release db card).db = cards db := by
  unfold release
  cases LockerDb.getByCard db card with
  | some lk => exact cards_release_locker db _
  | none =>
    dsimp only
    cases findByCard db card with
    | none => rfl
    | some emp =>
      dsimp only
      split_ifs
      · exact cards_set_locker db _ none
      · rfl

theorem cards_refresh_expiry : cards (refreshExpiry cfg clk db) = cards db := by
  refine foldlRecOn (motive := fun db' => cards db' = cards db) _ _ rfl ?_
  intro db' h lk _
  unfold refreshRow
  dsimp only
  split_ifs
  · exact h
  · exact h
  · exact h

theorem cards_reclaim_one (rt : Locker.Runtime) (s : Sweep) (lid : ℕ) :
    cards (reclaimOne rt s lid).db = cards s.db := by
  unfold reclaimOne
  dsimp only
  split_ifs
  · rfl
  · exact cards_release_locker s.db lid
  · exact cards_release_locker s.db lid

theorem cards_reclaim (rt : Locker.Runtime) (db : Db) :
    cards (reclaim cfg clk rt db).db = cards db := by
  unfold reclaim
  split_ifs
  · rfl
  · refine foldlRecOn (motive := fun s : Sweep => cards s.db = cards db) _ _ ?_ ?_
    · refine foldlRecOn (motive := fun s : Sweep => cards s.db = cards db) _ _ rfl ?_
      intro s hs emp _
      unfold reclaimFinished
      cases LockerDb.getByCard s.db emp.cardCode with
      | none => exact hs
      | some lk => exact (cards_reclaim_one rt _ _).trans hs
    · intro s hs lk _
      unfold reclaimHeld
      split_ifs
      · exact hs
      · exact (cards_reclaim_one rt _ _).trans hs

section Settled
variable {db} {lk : LockerRow} {code : Text} {emp : EmployeeRow} {p : ℕ}

theorem row_settled (h : Sound ∅ db) (hm : lk ∈ LockerDb.all db)
    (hc : lk.cardCode = some code) :
    ∃ emp, findByCard db code = some emp ∧ emp.lockerId = some lk.id := by
  have hp := all_lockers_place _ lk hm
  rw [hc] at hp
  obtain ⟨id,hid⟩ := h.agrees.owned lk.id code hp
  obtain ⟨emp,hf,ho⟩ := owner_found h.normal hid
  exact ⟨emp,hf,(h.agrees.sided _ _ _ (Set.notMem_empty _) ho lk.id).mpr hp⟩

theorem link_settled (h : Sound ∅ db) (hm : emp ∈ all db)
    (hl : emp.lockerId = some p) : linkHolds db p emp = true := by
  have ho := owner_of_mem _ ((mem_all _ emp).mp hm)
  have hh := (h.agrees.sided _ _ _ (Set.notMem_empty _) ho p).mp hl
  exact (link_holds_iff p h ⟨_,ho⟩).mpr hh

theorem relink_settled (h : Sound ∅ db) (hm : lk ∈ LockerDb.all db) : relinkLocker db lk = db := by
  unfold relinkLocker
  cases hc : lk.cardCode with
  | none => rfl
  | some code =>
    obtain ⟨emp,hf,hl⟩ := row_settled h hm hc
    simp [hf,hl]

theorem clear_settled (h : Sound ∅ db) (hm : emp ∈ all db) : clearLink db emp = db := by
  unfold clearLink
  cases hl : emp.lockerId with
  | none => rfl
  | some p => exact if_pos (link_settled h hm hl)

theorem reconcile_sound (h : Sound ∅ db) : reconcile db = db := by
  have hr : (LockerDb.all db).foldl relinkLocker db = db := by
    refine foldlRecOn (motive := fun db' => db' = db) _ _ rfl ?_
    rintro _ rfl lk hm
    exact relink_settled h hm
  unfold Assignment.reconcile
  rw [hr]
  refine foldlRecOn (motive := fun db' => db' = db) _ _ rfl ?_
  rintro _ rfl emp hm
  exact clear_settled h hm

end Settled

def lockerOf (db : Db) (code : Text) : Option ℕ := (LockerDb.getByCard db code).map LockerRow.id

theorem locker_of_some {db : Db} {code : Text} (h : Sound off db) (hu : upper code = code) (p : ℕ) :
    lockerOf db code = some p ↔ Held (sides db) code p := by
  constructor
  · intro hp
    obtain ⟨lk,hg,rfl⟩ := map_eq_some_iff.mp hp
    have hh := get_by_card_held db code hg
    rwa [hu] at hh
  · intro hp
    cases hg : LockerDb.getByCard db code with
    | none =>
      have hn := get_by_card_none db code hg p
      rw [hu] at hn
      exact absurd hp hn
    | some lk =>
      have hh := get_by_card_held db code hg
      rw [hu] at hh
      simp [lockerOf,hg,h.agrees.single lk.id p code hh hp]

theorem locker_of_none {db : Db} {code : Text} (h : Sound off db) (hu : upper code = code) :
    lockerOf db code = none ↔ ∀ p, ¬Held (sides db) code p := by
  rw [eq_none_iff_forall_ne_some]
  exact forall_congr' (fun p => not_congr (locker_of_some h hu p))

variable {db' : Db}

theorem locker_of_sides {db : Db} {code : Text} (h : Sound off db) (hu : upper code = code)
    (hs : sides db' = sides db) : lockerOf db' code = lockerOf db code := by
  refine ext ?_
  intro p
  rw [locker_of_some (sound_of_sides h hs) hu,locker_of_some h hu,hs]

variable {row : EmployeeRow}

theorem link_locker_of {db : Db} (h : Sound ∅ db) (hm : row ∈ db.employees.rows) : row.lockerId = lockerOf db row.cardCode := by
  have ho := owner_of_mem db hm
  refine ext ?_
  intro p
  rw [locker_of_some h (sound_upper h ⟨_,ho⟩)]
  exact h.agrees.sided _ _ _ (Set.notMem_empty _) ho p

theorem code_of_unlinked {o : EmployeeRow}
    (h : withLocker none row = withLocker none o) :
    row.cardCode = o.cardCode := by
  have hc := congrArg EmployeeRow.cardCode h
  exact hc

variable {db}

theorem cards_of_mem (h : row ∈ db.employees.rows) :
    cards db row.id = some (withLocker none row) := by
  have hf : findById db row.id = some row := get_key _ row h
  simp [cards,hf]

variable {id : ℕ}

theorem coded_of_cards {db : Db} {code : Text} (hcr : cards db' = cards db)
    (hc : Coded (sides db) id code) : Coded (sides db') id code := by
  obtain ⟨old,hm,rfl,rfl⟩ := (coded_iff db id code).mp hc
  have hold := cards_of_mem hm
  rw [← hcr] at hold
  obtain ⟨row,hr,hs⟩ := map_eq_some_iff.mp hold
  obtain ⟨hmm,hid⟩ := (get_some _ _ row).mp hr
  exact (coded_iff db' _ _).mpr ⟨row,hmm,hid,code_of_unlinked hs⟩

theorem find_by_card_cards {db : Db} {code : Text} (h : Sound off db') (hcr : cards db' = cards db)
    (hc : Coded (sides db) id code) :
    ∃ row, findByCard db' code = some row ∧ row ∈ db'.employees.rows ∧
      cards db id = some (withLocker none row) := by
  obtain ⟨row,hf,rfl⟩ := find_by_card_of_coded h (coded_of_cards hcr hc)
  have hm := (find_by_card_some db' _ row hf).2
  exact ⟨row,hf,hm,by rw [← hcr]; exact cards_of_mem hm⟩

/-- Two sound databases with the same cards show the same row for a code exactly if the
code has the same locker in both. -/
theorem same_row_iff {a b : Db} {code : Text} (ha : Sound ∅ a) (hb : Sound ∅ b)
    (hcr : cards b = cards a) (hc : Coded (sides a) id code) :
    findByCard a code = findByCard b code ↔ lockerOf a code = lockerOf b code := by
  obtain ⟨row,hf,hm,hvw⟩ := find_by_card_cards ha rfl hc
  obtain ⟨other,hf',hm',hv⟩ := find_by_card_cards hb hcr hc
  have hs := some.inj (hvw.symm.trans hv)
  have hcd := (find_by_card_some a code row hf).1
  have hn := ha.normal id code hc
  rw [hn,some.injEq] at hcd
  have hco := (find_by_card_some b code other hf').1
  rw [hn,some.injEq] at hco
  rw [hf,hf',some.injEq]
  constructor
  · rintro rfl
    rw [hcd]
    exact (link_locker_of ha hm).symm.trans (link_locker_of hb hm')
  · intro heq
    have hl : row.lockerId = other.lockerId := by
      rw [link_locker_of ha hm,link_locker_of hb hm',← hcd,← hco,heq]
    calc
      row = withLocker row.lockerId (withLocker none row) := rfl
      _ = withLocker other.lockerId (withLocker none other) := by
        rw [hs,hl]
      _ = other := rfl

theorem unheld_release {db : Db} {code : Text} (lid : ℕ)
    (hn : ∀ p, ¬Held (sides db) code p) (p : ℕ) :
    ¬Held (sides (releaseLocker db lid).db) code p := by
  intro hp
  by_cases hs : p = lid
  · subst hs
    cases hg : LockerDb.get db p with
    | none =>
      have hdb : (releaseLocker db p).db = db := by simp [releaseLocker,hg]
      rw [hdb] at hp
      exact hn p hp
    | some lk =>
      obtain ⟨freed,hf,hc⟩ := AssignmentFrame.release_locker_free db p lk hg
      simp [Held,sides,hf,hc] at hp
  · unfold Held sides at hp
    dsimp only at hp
    rw [get_release_other db hs] at hp
    exact hn p hp

section Sweep
variable (runtime : Locker.Runtime) {code : Text} {held : LockerRow}

/-- During a sweep: the locker still has its card, and if it had its turn the door was
in flight. -/
structure Kept (held : LockerRow) (s : Sweep) : Prop where
  sound : Sound ∅ s.db
  row : LockerDb.get s.db held.id = some held
  turn : held.id ∈ s.seen → Locker.busy runtime held.id = true

structure Gone (code : Text) (s : Sweep) : Prop where
  sound : Sound ∅ s.db
  unheld : ∀ p, ¬Held (sides s.db) code p

variable {s : Sweep} (lid : ℕ)

theorem gone_reclaim_one (h : Gone code s) : Gone code (reclaimOne runtime s lid) := by
  refine ⟨sound_reclaim_one _ lid h.sound,?_⟩
  unfold reclaimOne
  dsimp only
  split_ifs
  · exact h.unheld
  · exact unheld_release lid h.unheld
  · exact unheld_release lid h.unheld

theorem kept_reclaim_one (h : Kept runtime held s) (hne : lid ≠ held.id) :
    Kept runtime held (reclaimOne runtime s lid) := by
  refine ⟨sound_reclaim_one _ lid h.sound,?_,?_⟩
  · unfold reclaimOne
    dsimp only
    split_ifs
    · exact h.row
    · exact (get_release_other s.db hne.symm).trans h.row
    · exact (get_release_other s.db hne.symm).trans h.row
  · unfold reclaimOne
    dsimp only
    split_ifs
    · exact h.turn
    · exact h.turn
    · exact h.turn

theorem reclaim_one_due (hc : held.cardCode = some code) (h : Kept runtime held s) :
    (busy runtime held.id = true →
      Kept runtime held (reclaimOne runtime { s with seen := held.id::s.seen } held.id)) ∧
    (busy runtime held.id = false →
      Gone code (reclaimOne runtime { s with seen := held.id::s.seen } held.id)) := by
  constructor
  · intro hb
    unfold reclaimOne
    rw [if_pos hb]
    exact ⟨h.sound,h.row,fun _ => hb⟩
  · intro hb
    have hh : Held (sides s.db) code held.id := by simp [Held,sides,h.row,hc]
    refine ⟨sound_reclaim_one _ _ h.sound,?_⟩
    unfold reclaimOne
    rw [if_neg (by simp [hb])]
    dsimp only
    split_ifs
    · exact (sound_release_held h.sound hh).2
    · exact (sound_release_held h.sound hh).2

theorem Kept.see (h : Kept runtime held s) (hne : lid ≠ held.id) :
    Kept runtime held { s with seen := lid::s.seen } := by
  refine ⟨h.sound,h.row,?_⟩
  intro hm
  rcases mem_cons.mp hm with hid | hm'
  · exact absurd hid.symm hne
  · exact h.turn hm'

theorem gone_finished (rows : List EmployeeRow) (s : Sweep) (h : Gone code s) :
    Gone code (rows.foldl (reclaimFinished runtime) s) := by
  refine foldlRecOn (motive := Gone code) _ _ h ?_
  intro s' hs row _
  unfold reclaimFinished
  cases LockerDb.getByCard s'.db row.cardCode with
  | none => exact ⟨hs.sound,hs.unheld⟩
  | some lk => exact gone_reclaim_one _ _ ⟨hs.sound,hs.unheld⟩

theorem gone_held (lks : List LockerRow) (s : Sweep) (h : Gone code s) :
    Gone code (lks.foldl (reclaimHeld runtime) s) := by
  refine foldlRecOn (motive := Gone code) _ _ h ?_
  intro s' hs lk _
  unfold reclaimHeld
  split_ifs
  · exact hs
  · exact gone_reclaim_one _ _ ⟨hs.sound,hs.unheld⟩

variable {row : EmployeeRow}

theorem finished_other (hc : held.cardCode = some code) (h : Kept runtime held s)
    (hu : upper row.cardCode = row.cardCode) (hne : row.cardCode ≠ code) :
    Kept runtime held (reclaimFinished runtime s row) := by
  unfold reclaimFinished
  cases hg : LockerDb.getByCard s.db row.cardCode with
  | none => exact ⟨h.sound,h.row,h.turn⟩
  | some lk =>
    have ho : lk.id ≠ held.id := by
      intro hid
      obtain ⟨hf,hcd⟩ := LockerDb.get_by_card_some s.db _ lk hg
      rw [hid,h.row] at hf
      rw [← some.inj hf,hc,hu] at hcd
      exact hne (some.inj hcd).symm
    exact kept_reclaim_one _ _ (h.see runtime lk.id ho) ho

theorem kept_locker_of (hc : held.cardCode = some code) (hu : upper code = code)
    (h : Kept runtime held s) : lockerOf s.db code = some held.id :=
  (locker_of_some h.sound hu _).mpr (by simp [Held,sides,h.row,hc])

theorem gone_locker_of (hu : upper code = code) (h : Gone code s) : lockerOf s.db code = none :=
  (locker_of_none h.sound hu).mpr h.unheld

theorem finished_due (hc : held.cardCode = some code) (hu : upper code = code)
    (h : Kept runtime held s) (heq : row.cardCode = code) :
    reclaimFinished runtime s row =
      reclaimOne runtime { s with seen := held.id::s.seen } held.id := by
  obtain ⟨lk,hg,hid⟩ := map_eq_some_iff.mp (kept_locker_of _ hc hu h)
  unfold reclaimFinished
  rw [heq,hg]
  dsimp only
  rw [hid]

/-- The pass over finished contractors takes the locker back exactly if the card is
among them and the door is at rest. -/
theorem sweep_finished (rows : List EmployeeRow) (s : Sweep) (hc : held.cardCode = some code)
    (hu : upper code = code) (h : Kept runtime held s)
    (hr : ∀ row ∈ rows, upper row.cardCode = row.cardCode) :
    ((busy runtime held.id = true ∨ ∀ row ∈ rows, row.cardCode ≠ code) →
      Kept runtime held (rows.foldl (reclaimFinished runtime) s)) ∧
    (busy runtime held.id = false → (∃ row ∈ rows, row.cardCode = code) →
      Gone code (rows.foldl (reclaimFinished runtime) s)) := by
  induction rows generalizing s with
  | nil => exact ⟨fun _ => h,fun _ ⟨_,hm,_⟩ => absurd hm not_mem_nil⟩
  | cons row rest ih =>
    have hrs : ∀ o ∈ rest, upper _ = o.cardCode := fun o hm => hr o (mem_cons_of_mem row hm)
    rw [foldl_cons]
    by_cases heq : row.cardCode = code
    · rw [finished_due _ hc hu h heq]
      obtain ⟨hbs,hre⟩ := reclaim_one_due _ hc h
      constructor
      · rintro (hb | hn)
        · exact (ih _ (hbs hb) hrs).1 (.inl hb)
        · exact absurd heq (hn row mem_cons_self)
      · intro hb _
        exact gone_finished _ rest _ (hre hb)
    · have hk := ih _ (finished_other _ hc h (hr row mem_cons_self) heq) hrs
      constructor
      · rintro (hb | hn)
        · exact hk.1 (.inl hb)
        · exact hk.1 (.inr (fun o hm => hn o (mem_cons_of_mem row hm)))
      · rintro hb ⟨o,hm,hcd⟩
        rcases mem_cons.mp hm with rfl | hm'
        · exact absurd hcd heq
        · exact hk.2 hb ⟨o,hm',hcd⟩

/-- The pass over the holds takes the locker back exactly if it is listed and the door
is at rest. -/
theorem sweep_held (lks : List LockerRow) (s : Sweep) (hc : held.cardCode = some code)
    (h : Kept runtime held s) :
    ((busy runtime held.id = true ∨ ∀ locker ∈ lks, locker.id ≠ held.id) →
      Kept runtime held (lks.foldl (reclaimHeld runtime) s)) ∧
    (busy runtime held.id = false → (∃ locker ∈ lks, locker.id = held.id) →
      Gone code (lks.foldl (reclaimHeld runtime) s)) := by
  induction lks generalizing s with
  | nil => exact ⟨fun _ => h,fun _ ⟨_,hm,_⟩ => absurd hm not_mem_nil⟩
  | cons locker rest ih =>
    rw [foldl_cons]
    by_cases heq : locker.id = held.id
    · constructor
      · rintro (hb | hn)
        · have hs : Kept runtime held (reclaimHeld runtime s locker) := by
            unfold reclaimHeld
            rw [heq]
            split_ifs
            · exact h
            · exact (reclaim_one_due _ hc h).1 hb
          exact (ih _ hs).1 (.inl hb)
        · exact absurd heq (hn locker mem_cons_self)
      · intro hb _
        have hu : held.id ∉ s.seen := by
          intro hm
          rw [h.turn hm] at hb
          exact nomatch hb
        unfold reclaimHeld
        rw [heq,if_neg hu]
        exact gone_held _ rest _ ((reclaim_one_due _ hc h).2 hb)
    · have hs : Kept runtime held (reclaimHeld runtime s locker) := by
        unfold reclaimHeld
        split_ifs
        · exact h
        · exact kept_reclaim_one _ _ (h.see runtime locker.id heq) heq
      have hk := ih _ hs
      constructor
      · rintro (hb | hn)
        · exact hk.1 (.inl hb)
        · exact hk.1 (.inr (fun o hm => hn o (mem_cons_of_mem locker hm)))
      · rintro hb ⟨o,hm,hid⟩
        rcases mem_cons.mp hm with rfl | hm'
        · exact absurd hid heq
        · exact hk.2 hb ⟨o,hm',hid⟩

theorem gone_reclaim {db : Db} (cfg : Config) (clk : Clock) (h : Sound ∅ db)
    (hn : ∀ p, ¬Held (sides db) code p) : Gone code (reclaim cfg clk runtime db) := by
  have hs : Gone code ⟨db,[],0,0⟩ := ⟨h,hn⟩
  unfold reclaim
  split_ifs
  · exact hs
  · exact gone_held _ _ _ (gone_finished _ _ _ hs)

end Sweep

/-- The sweep takes this locker back from the card of this row. -/
def taken (config : Config) (clock : Clock) (runtime : Locker.Runtime) (row : EmployeeRow)
    (held : LockerRow) : Bool :=
  config.locker.autoReclaim && !Locker.busy runtime held.id &&
    (isReclaimable config clock row || holdExpired config clock held)

theorem reclaimable_code {off : Set ℕ} {db : Db} (cfg : Config) (clk : Clock) (h : Sound off db)
    (hm : row ∈ db.employees.rows) :
    (∃ other ∈ reclaimable cfg clk db, other.cardCode = row.cardCode) ↔
      isReclaimable cfg clk row = true := by
  unfold reclaimable byRole
  constructor
  · rintro ⟨other,ho,hc⟩
    obtain ⟨hrl,hr⟩ := mem_filter.mp ho
    have hmm := (mem_all db other).mp (mem_filter.mp hrl).1
    have hid := h.agrees.unique other.id row.id row.cardCode
      ((coded_iff db _ _).mpr ⟨other,hmm,rfl,hc⟩) ((coded_iff db _ _).mpr ⟨row,hm,rfl,rfl⟩)
    rwa [key_injective _ other hmm hm hid] at hr
  · intro hr
    have hrl : row.role = roleContractor := by
      simp only [isReclaimable,isContractor,Bool.and_eq_true,decide_eq_true_eq] at hr
      exact hr.1.1
    refine ⟨row,mem_filter.mpr ⟨mem_filter.mpr ⟨(mem_all db row).mpr hm,?_⟩,hr⟩,rfl⟩
    exact decide_eq_true hrl

theorem expired_hold_listed {db : Db} {held : LockerRow} (cfg : Config) (clk : Clock)
    (h : LockerDb.get db held.id = some held) :
    (∃ locker ∈ expiredHolds cfg clk db, locker.id = held.id) ↔
      holdExpired cfg clk held = true := by
  have hm : held ∈ db.lockers.rows := ((get_some _ _ held).mp h).1
  have ha (locker : LockerRow) : locker ∈ LockerDb.all db ↔ locker ∈ db.lockers.rows :=
    mem_insertionSort _
  unfold expiredHolds
  split_ifs with hmd
  · constructor
    · rintro ⟨locker,hl,hid⟩
      obtain ⟨hmm,he⟩ := mem_filter.mp hl
      rwa [key_injective _ _ ((ha locker).mp hmm) hm hid] at he
    · intro he
      exact ⟨held,mem_filter.mpr ⟨(ha held).mpr hm,he⟩,rfl⟩
  · simp [holdExpired,hmd]

theorem held_pass_locker_of {held : LockerRow} {code : Text} (cfg : Config) (clk : Clock)
    {rt : Locker.Runtime} {s : Sweep} (hc : held.cardCode = some code)
    (hu : upper code = code) (h : Kept rt held s) :
    lockerOf ((expiredHolds cfg clk s.db).foldl (reclaimHeld rt) s).db code =
      if busy rt held.id = false ∧ holdExpired cfg clk held = true then none
      else some held.id := by
  have hp := sweep_held rt (expiredHolds cfg clk s.db) s hc h
  have hl := expired_hold_listed cfg clk h.row
  split_ifs with ht
  · exact gone_locker_of hu (hp.2 ht.1 (hl.mpr ht.2))
  · refine kept_locker_of rt hc hu (hp.1 ?_)
    by_contra hn
    push Not at hn
    exact ht ⟨eq_false_of_ne_true hn.1,hl.mp hn.2⟩

theorem reclaim_locker_of {db : Db} {held : LockerRow} (cfg : Config) (clk : Clock)
    (rt : Locker.Runtime) (h : Sound ∅ db) (hm : row ∈ db.employees.rows)
    (hgt : LockerDb.getByCard db row.cardCode = some held) :
    lockerOf (reclaim cfg clk rt db).db row.cardCode =
      if taken cfg clk rt row held then none else some held.id := by
  have hu := sound_upper h ⟨_,owner_of_mem db hm⟩
  obtain ⟨hrw,hc⟩ := LockerDb.get_by_card_some db _ held hgt
  rw [hu] at hc
  have hs : Kept rt held ⟨db,[],0,0⟩ := ⟨h,hrw,fun hsn => absurd hsn not_mem_nil⟩
  have hr : ∀ o ∈ reclaimable cfg clk db, upper o.cardCode = o.cardCode := by
    intro o ho
    have hmm := (mem_all db o).mp (mem_filter.mp (mem_filter.mp ho).1).1
    exact sound_upper h ⟨_,owner_of_mem db hmm⟩
  have hfr := sweep_finished rt _ _ hc hu hs hr
  have hl := reclaimable_code cfg clk h hm
  unfold reclaim
  cases ha : cfg.locker.autoReclaim with
  | false => simpa [taken,ha] using kept_locker_of rt hc hu hs
  | true =>
    rw [if_neg (by simp)]
    by_cases hf : busy rt held.id = false ∧ isReclaimable cfg clk row = true
    · have hg := hfr.2 hf.1 (hl.mpr hf.2)
      rw [gone_locker_of hu (gone_held rt _ _ hg)]
      simp [taken,ha,hf.1,hf.2]
    · have hk : Kept rt held
          ((reclaimable cfg clk db).foldl (reclaimFinished rt) ⟨db,[],0,0⟩) := by
        refine hfr.1 ?_
        by_contra hn
        push Not at hn
        exact hf ⟨eq_false_of_ne_true hn.1,hl.mp hn.2⟩
      rw [held_pass_locker_of cfg clk hc hu hk]
      cases hb : busy rt held.id with
      | true => simp [taken,hb]
      | false => simp_all [taken]

end EMaster.CardOutcome
