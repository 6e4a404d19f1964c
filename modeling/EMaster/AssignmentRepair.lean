import EMaster.AssignmentLink

/-!
# The repair, the sweep and the daily run keep the relation two-sided

The repair takes the locker side as it is: it points every owner at the locker that
holds its code and clears the links that no locker answers. It is what makes a run
of the synchronisation end with both sides in agreement, whatever links the new
records brought along.
-/

set_option autoImplicit false

namespace EMaster.AssignmentRepair
open KeyedTable Text LockerTime LockerConfig Database List EmployeeDb
open Employee Assignment TwoSided AssignmentLink

variable {off : Set ℕ} {db : Db} (cfg : Config) (clk : Clock)

theorem sides_refresh_expiry (db : Db) : sides (Locker.refreshExpiry cfg clk db) = sides db := by
  refine List.foldlRecOn (motive := fun db' => sides db' = sides db) _ _ rfl ?_
  intro db' h lk _
  unfold Locker.refreshRow
  dsimp only
  split_ifs
  · exact h
  · rw [sides_set_status]
    exact h
  · exact h

variable (rt : Locker.Runtime)

theorem sound_reclaim_one {s : Sweep} (lid : ℕ) (h : Sound off s.db) : Sound off (reclaimOne rt s lid).db := by
  unfold reclaimOne
  dsimp only
  split_ifs
  · exact h
  · exact sound_release_locker lid h
  · exact sound_release_locker lid h

theorem sound_reclaim (h : Sound off db) : Sound off (reclaim cfg clk rt db).db := by
  unfold reclaim
  split_ifs
  · exact h
  · refine List.foldlRecOn (motive := fun s : Sweep => Sound off s.db) _ _ ?_ ?_
    · refine List.foldlRecOn (motive := fun s : Sweep => Sound off s.db) _ _ h ?_
      intro s hs emp _
      unfold reclaimFinished
      cases LockerDb.getByCard s.db emp.cardCode with
      | none => exact hs
      | some lk => exact sound_reclaim_one rt _ hs
    · intro s hs lk _
      unfold reclaimHeld
      split_ifs
      · exact hs
      · exact sound_reclaim_one rt _ hs

theorem owner_found {id : ℕ} {code : Text}
    (hn : ∀ id code, Coded (sides db) id code → normalizeCode code = some code)
    (hc : Coded (sides db) id code) : ∃ emp, findByCard db code = some emp ∧
      (sides db).owner emp.id = some (code,emp.lockerId) := by
  cases hf : findByCard db code with
  | none => exact absurd hc (find_by_card_none db code (hn id code hc) hf id)
  | some emp =>
    obtain ⟨hcd,hm⟩ := find_by_card_some db code emp hf
    rw [hn id code hc,Option.some.injEq] at hcd
    exact ⟨emp,rfl,hcd ▸ owner_of_mem db hm⟩

variable {emp : EmployeeRow}

theorem link_holds_iff (lockerId : ℕ) (h : Sound off db) (hc : Coded (sides db) emp.id emp.cardCode) :
    linkHolds db lockerId emp = true ↔ Held (sides db) emp.cardCode lockerId := by
  have hn := h.normal emp.id emp.cardCode hc
  unfold linkHolds Held
  change _ ↔ Option.map LockerRow.cardCode (LockerDb.get db lockerId) = _
  cases hg : LockerDb.get db lockerId with
  | none => simp
  | some lk =>
    rw [Option.bind_some,Option.map_some,Option.some.injEq]
    cases hcd : lk.cardCode with
    | none => simp
    | some code =>
      -- a held code belongs to an owner, so it is in its normal form as well
      have hh : Held (sides db) code lockerId := by simp [Held,sides,hg,hcd]
      obtain ⟨id,hid⟩ := h.agrees.owned lockerId code hh
      simp [hn,h.normal id code hid]

theorem all_lockers_place (db : Db) (locker : LockerRow) (h : locker ∈ LockerDb.all db) :
    (sides db).place locker.id = some locker.cardCode := by
  have hg : LockerDb.get db locker.id = some locker := get_key _ _ ((mem_insertionSort _).mp h)
  simp [sides,hg]

theorem mem_all (db : Db) (row : EmployeeRow) : row ∈ all db ↔ row ∈ db.employees.rows :=
  mem_insertionSort _

theorem all_nodup (db : Db) : ((all db).map EmployeeRow.id).Nodup := by
  have hp := perm_insertionSort (fun a b : EmployeeRow => a.id ≤ b.id) db.employees.rows
  exact (hp.map EmployeeRow.id).nodup_iff.mpr db.employees.nodup

theorem lockers_nodup (db : Db) : ((LockerDb.all db).map LockerRow.id).Nodup :=
  ((perm_insertionSort _ db.lockers.rows).map LockerRow.id).nodup_iff.mpr db.lockers.nodup

/-- The locker holds the card with this normal form. -/
def Holds (db : Db) (p : ℕ) (card : Text) : Prop :=
  ∃ code, Held (sides db) code p ∧ normalizeCode code = some card

/-- A row names exactly the locker that holds its card, and no card is in two lockers. -/
structure Paired (db : Db) : Prop where
  link : ∀ id code target, (sides db).owner id = some (code,target) →
    ∀ p, target = some p ↔ ∃ card, normalizeCode code = some card ∧ Holds db p card
  single : ∀ p q card, Holds db p card → Holds db q card → p = q

/-- No two employees have one card, and no card of an employee is in two lockers. -/
structure Keyed (db : Db) : Prop where
  unique : ∀ id id' code code' card, Coded (sides db) id code → Coded (sides db) id' code' →
    normalizeCode code = some card → normalizeCode code' = some card → id = id'
  single : ∀ id code card p q, Coded (sides db) id code → normalizeCode code = some card →
    Holds db p card → Holds db q card → p = q

variable {lk : LockerRow} {id : ℕ} {code card : Text}

theorem found_bears {emp : EmployeeRow} (h : findByCard db code = some emp) :
    normalizeCode code = some emp.cardCode ∧ Coded (sides db) emp.id emp.cardCode :=
  ⟨(find_by_card_some db code emp h).1,find_by_card_coded db code h⟩

theorem found_none (hc : normalizeCode code = some card)
    (h : findByCard db code = none) : ¬Coded (sides db) id card := by
  refine find_by_card_none db card (normalize_code_idempotent hc) ?_ id
  rw [findByCard,normalize_code_idempotent hc,← hc]
  exact h

/-- What a turn of the first pass does: the locker is freed if nobody has its card, and else the
row of the card is pointed at it. -/
structure Turned (db db' : Db) (lk : LockerRow) : Prop where
  coded : ∀ id code, Coded (sides db') id code ↔ Coded (sides db) id code
  place : ∀ p, p ≠ lk.id → (sides db').place p = (sides db).place p
  kept : (sides db').place lk.id =
    some (lk.cardCode.filter fun code => (findByCard db code).isSome)
  owner : ∀ id, (∀ code card, lk.cardCode = some code → normalizeCode code = some card →
    ¬Coded (sides db) id card) → (sides db').owner id = (sides db).owner id
  linked : ∀ code card id, lk.cardCode = some code → normalizeCode code = some card →
    Coded (sides db) id card → (sides db').owner id = some (card,some lk.id)

theorem turned_untouched (hr : (sides db).place lk.id = some none) (hc : lk.cardCode = none) :
    Turned db db lk := by
  refine ⟨fun _ _ => Iff.rfl,fun _ _ => rfl,?_,fun _ _ => rfl,?_⟩
  · rw [hc]
    exact hr
  · intro code card id h
    rw [hc] at h
    cases h

theorem turned_freed (hr : (sides db).place lk.id = some (some code)) (hc : lk.cardCode = some code)
    (hf : findByCard db code = none) : Turned db (releaseLocker db lk.id).db lk := by
  have hd : findByCard (LockerDb.release db lk.id) code = none := hf
  obtain ⟨row,hg,hrc⟩ := Option.map_eq_some_iff.mp hr
  have hs : sides (releaseLocker db lk.id).db = occupy (sides db) lk.id none := by
    rw [← sides_release_row]
    simp [releaseLocker,hg,hrc,detach,hd]
  refine ⟨fun id c => ?_,fun p hp => ?_,?_,fun id _ => ?_,?_⟩
  · rw [hs]
    exact Iff.rfl
  · rw [hs]
    exact occupy_other _ none hp
  · rw [hs,occupy_same none hr,hc,Option.filter_some,hf]
    rfl
  · rw [hs]
    rfl
  · intro c card id h hn hco
    obtain rfl := Option.some.inj (hc.symm.trans h)
    exact absurd hco (found_none hn hf)

variable (hu : ∀ id id' card, Coded (sides db) id card → Coded (sides db) id' card →
  normalizeCode card = some card → id = id')
include hu

theorem turned_linked {emp : EmployeeRow} (hr : (sides db).place lk.id = some (some code))
    (hc : lk.cardCode = some code) (hf : findByCard db code = some emp) :
    Turned db (if emp.lockerId ≠ some lk.id then setLocker db emp.id (some lk.id)
      else db) lk := by
  obtain ⟨hn,hco⟩ := found_bears hf
  have hown := owner_of_mem db (find_by_card_some db code emp hf).2
  have hk : (sides db).place lk.id =
      some (lk.cardCode.filter fun code => (findByCard db code).isSome) := by
    rw [hr,hc,Option.filter_some,hf]
    rfl
  -- the row of the card is the one that was found
  have hi : ∀ c card id, lk.cardCode = some c → normalizeCode c = some card →
      Coded (sides db) id card → card = emp.cardCode ∧ id = emp.id := by
    intro c card id h hcd hid
    obtain rfl := Option.some.inj (hc.symm.trans h)
    obtain rfl := Option.some.inj (hn.symm.trans hcd)
    exact ⟨rfl,hu _ _ _ hid hco (normalize_code_idempotent hn)⟩
  split_ifs with hl
  · refine ⟨fun id c => ?_,fun p _ => ?_,?_,fun id ho => ?_,?_⟩
    · rw [sides_set_locker,coded_link]
    · rw [sides_set_locker]
      rfl
    · rw [sides_set_locker]
      exact hk
    · rw [sides_set_locker]
      refine link_other _ _ fun he => ho code emp.cardCode hc hn ?_
      rw [he]
      exact hco
    · intro c card id h hcd hid
      obtain ⟨rfl,rfl⟩ := hi c card id h hcd hid
      rw [sides_set_locker]
      exact link_same _ hco
  · refine ⟨fun _ _ => Iff.rfl,fun _ _ => rfl,hk,fun _ _ => rfl,?_⟩
    intro c card id h hcd hid
    obtain ⟨rfl,rfl⟩ := hi c card id h hcd hid
    rw [hown,not_not.mp hl]

theorem turned (hr : (sides db).place lk.id = some lk.cardCode) :
    Turned db (relinkLocker db lk) lk := by
  unfold relinkLocker
  cases hc : lk.cardCode with
  | none => exact turned_untouched (hc ▸ hr) hc
  | some code =>
    rw [hc] at hr
    dsimp only
    cases hf : findByCard db code with
    | none => exact turned_freed hr hc hf
    | some emp => exact turned_linked hu hr hc hf

omit hu

/-- What the first pass leaves. -/
structure Passed (db db' : Db) (lks : List LockerRow) : Prop where
  coded : ∀ id code, Coded (sides db') id code ↔ Coded (sides db) id code
  place : ∀ p, p ∉ lks.map LockerRow.id → (sides db').place p = (sides db).place p
  kept : ∀ lk ∈ lks, (sides db').place lk.id =
    some (lk.cardCode.filter fun code => (findByCard db code).isSome)
  owner : ∀ id, (∀ lk ∈ lks, ∀ code card, lk.cardCode = some code →
    normalizeCode code = some card → ¬Coded (sides db) id card) →
      (sides db').owner id = (sides db).owner id
  linked : ∀ lk ∈ lks, ∀ code card id, lk.cardCode = some code → normalizeCode code = some card →
    Coded (sides db) id card → (sides db').owner id = some (card,some lk.id)

theorem found_coded {db' : Db} (h : ∀ id code, Coded (sides db') id code ↔ Coded (sides db) id code)
    (code : Text) : (findByCard db' code).isSome = (findByCard db code).isSome := by
  have hs : ∀ a b : Db, (∀ id code, Coded (sides b) id code ↔ Coded (sides a) id code) →
      (findByCard a code).isSome = true → (findByCard b code).isSome = true := by
    intro a b hab ha
    obtain ⟨emp,hf⟩ := Option.isSome_iff_exists.mp ha
    obtain ⟨hn,hco⟩ := found_bears hf
    by_contra hb
    exact found_none hn (Option.not_isSome_iff_eq_none.mp hb) ((hab _ _).mpr hco)
  exact Bool.eq_iff_iff.mpr ⟨hs db' db fun id c => (h id c).symm,hs db db' h⟩

theorem passed (lks : List LockerRow)
    (hu : ∀ id id' card, Coded (sides db) id card → Coded (sides db) id' card →
      normalizeCode card = some card → id = id')
    (hs : ∀ lk ∈ lks, ∀ lk' ∈ lks, ∀ code code' card id, lk.cardCode = some code →
      lk'.cardCode = some code' → normalizeCode code = some card →
      normalizeCode code' = some card → Coded (sides db) id card → lk.id = lk'.id)
    (hr : ∀ lk ∈ lks, (sides db).place lk.id = some lk.cardCode)
    (hd : (lks.map LockerRow.id).Nodup) : Passed db (lks.foldl relinkLocker db) lks := by
  induction lks generalizing db with
  | nil =>
    exact ⟨fun _ _ => Iff.rfl,fun _ _ => rfl,fun _ h => absurd h not_mem_nil,fun _ _ => rfl,
      fun _ h => absurd h not_mem_nil⟩
  | cons lk rest ih =>
    rw [map_cons,nodup_cons] at hd
    have ht := turned hu (hr lk mem_cons_self)
    have hne : ∀ o ∈ rest, o.id ≠ lk.id := fun o hm he => hd.1 (he ▸ mem_map_of_mem hm)
    have hp := @ih (relinkLocker db lk)
      (fun id id' card h h' => hu id id' card ((ht.coded _ _).mp h) ((ht.coded _ _).mp h'))
      (fun a ha b hb code code' card id h h' hn hn' hid =>
        hs a (mem_cons_of_mem _ ha) b (mem_cons_of_mem _ hb) code code' card id h h' hn hn'
          ((ht.coded _ _).mp hid))
      (fun o hm => (ht.place _ (hne o hm)).trans (hr o (mem_cons_of_mem _ hm))) hd.2
    refine ⟨fun id code => (hp.coded id code).trans (ht.coded id code),?_,?_,?_,?_⟩
    · intro p hn
      rw [map_cons,mem_cons,not_or] at hn
      exact (hp.place p hn.2).trans (ht.place p hn.1)
    · intro o ho
      rcases mem_cons.mp ho with rfl | hm
      · exact (hp.place _ hd.1).trans ht.kept
      · rw [foldl_cons,hp.kept o hm]
        simp only [found_coded ht.coded]
    · intro id ho
      refine (hp.owner id fun o hm code card h hn hid =>
        ho o (mem_cons_of_mem _ hm) code card h hn ((ht.coded _ _).mp hid)).trans
          (ht.owner id (ho lk mem_cons_self))
    · intro o ho code card id h hn hid
      rcases mem_cons.mp ho with rfl | hm
      · -- no later locker holds the card, so the link stays
        refine (hp.owner id fun o' hm code' card' h' hn' hid' => ?_).trans
          (ht.linked code card id h hn hid)
        obtain ⟨t,hown⟩ := (ht.coded _ _).mp hid'
        obtain ⟨t',hown'⟩ := hid
        obtain ⟨rfl,_⟩ := Prod.mk.inj (Option.some.inj (hown.symm.trans hown'))
        exact hne o' hm (hs o mem_cons_self o' (mem_cons_of_mem _ hm) code code' card' id h h' hn hn'
          ⟨t,hown⟩).symm
      · exact hp.linked o hm code card id h hn ((ht.coded _ _).mpr hid)

/-- What the second pass leaves: the links that their lockers answer. -/
theorem cleared (emps : List EmployeeRow) (hn : (emps.map EmployeeRow.id).Nodup)
    (hr : ∀ emp ∈ emps, (sides db).owner emp.id = some (emp.cardCode,emp.lockerId)) :
    (sides (emps.foldl clearLink db)).place = (sides db).place ∧
      (∀ id, id ∉ emps.map EmployeeRow.id →
        (sides (emps.foldl clearLink db)).owner id = (sides db).owner id) ∧
      ∀ emp ∈ emps, (sides (emps.foldl clearLink db)).owner emp.id =
        some (emp.cardCode,emp.lockerId.filter fun p => linkHolds db p emp) := by
  induction emps generalizing db with
  | nil => exact ⟨rfl,fun _ _ => rfl,fun _ h => absurd h not_mem_nil⟩
  | cons emp rest ih =>
    rw [map_cons,nodup_cons] at hn
    have hown := hr emp mem_cons_self
    have hst : (clearLink db emp).lockers = db.lockers ∧
        (∀ id, id ≠ emp.id → (sides (clearLink db emp)).owner id = (sides db).owner id) ∧
        (sides (clearLink db emp)).owner emp.id =
          some (emp.cardCode,emp.lockerId.filter fun p => linkHolds db p emp) := by
      unfold clearLink
      cases hl : emp.lockerId with
      | none =>
        rw [hl] at hown
        exact ⟨rfl,fun _ _ => rfl,hown⟩
      | some p =>
        dsimp only
        split_ifs with hh
        · rw [hl] at hown
          refine ⟨rfl,fun _ _ => rfl,?_⟩
          rw [hown,Option.filter_some,if_pos hh]
        · refine ⟨rfl,fun id hid => ?_,?_⟩
          · rw [sides_set_locker]
            exact link_other _ _ hid
          · rw [sides_set_locker,link_same _ ⟨_,hown⟩,Option.filter_some,if_neg hh]
    obtain ⟨hlk,hot,hsm⟩ := hst
    have hne : ∀ o ∈ rest, o.id ≠ emp.id := fun o hm he => hn.1 (he ▸ mem_map_of_mem hm)
    have hpl : (sides (clearLink db emp)).place = (sides db).place := by
      simp only [sides,LockerDb.get,hlk]
    have hlh : linkHolds (clearLink db emp) = linkHolds db := by
      funext p o
      simp only [linkHolds,LockerDb.get,hlk]
    obtain ⟨hp,ho,hw⟩ := @ih (clearLink db emp) hn.2
      (fun o hm => (hot _ (hne o hm)).trans (hr o (mem_cons_of_mem _ hm)))
    refine ⟨hp.trans hpl,?_,?_⟩
    · intro id hid
      rw [map_cons,mem_cons,not_or] at hid
      exact (ho id hid.2).trans (hot id hid.1)
    · intro o hm
      rcases mem_cons.mp hm with rfl | hm
      · exact (ho _ hn.1).trans hsm
      · rw [foldl_cons,hw o hm,hlh]

theorem cleared_coded {emps : List EmployeeRow} (hn : (emps.map EmployeeRow.id).Nodup)
    (hr : ∀ emp ∈ emps, (sides db).owner emp.id = some (emp.cardCode,emp.lockerId))
    (id : ℕ) (code : Text) :
    Coded (sides (emps.foldl clearLink db)) id code ↔ Coded (sides db) id code := by
  obtain ⟨_,ho,hw⟩ := cleared emps hn hr
  by_cases hm : id ∈ emps.map EmployeeRow.id
  · obtain ⟨emp,he,rfl⟩ := mem_map.mp hm
    simp [Coded,hw emp he,hr emp he]
  · rw [Coded,ho id hm]
    exact Iff.rfl

theorem link_holds_iff_holds (p : ℕ) (emp : EmployeeRow)
    (hk : ∀ code, Held (sides db) code p → (normalizeCode code).isSome = true) :
    linkHolds db p emp = true ↔
      ∃ card, normalizeCode emp.cardCode = some card ∧ Holds db p card := by
  have hh : ∀ code, Held (sides db) code p ↔
      (LockerDb.get db p).bind LockerRow.cardCode = some code := by
    intro code
    simp [Held,sides,Option.map_eq_some_iff,Option.bind_eq_some_iff]
  unfold linkHolds
  cases hg : (LockerDb.get db p).bind LockerRow.cardCode with
  | none => simp [Holds,hh,hg]
  | some code =>
    obtain ⟨card,hc⟩ := Option.isSome_iff_exists.mp (hk code ((hh code).mpr hg))
    simp [Holds,hh,hg,hc,eq_comm]

/-- Every card in a locker is somebody's. -/
def Owned (db : Db) : Prop :=
  ∀ p code, Held (sides db) code p → ∃ emp, findByCard db code = some emp

/-- What the repair leaves of a database in which each card has one row at most and one locker. -/
structure Reconciled (db db' : Db) : Prop where
  paired : Paired db'
  owned : Owned db'
  coded : ∀ id code, Coded (sides db') id code ↔ Coded (sides db) id code
  held : ∀ p code, Held (sides db') code p → Held (sides db) code p

theorem reconciled (h : Keyed db) : Reconciled db (reconcile db) := by
  have hall : ∀ lk ∈ LockerDb.all db, ∀ code, lk.cardCode = some code →
      Held (sides db) code lk.id := by
    intro lk hm code hc
    rw [Held,all_lockers_place db lk hm,hc]
  have hp := passed (LockerDb.all db)
    (fun id id' card hc hc' hn => h.unique id id' card card card hc hc' hn hn)
    (fun a ha b hb code code' card id hac hbc hn hn' hid =>
      h.single id card card _ _ hid (normalize_code_idempotent hn) ⟨code,hall a ha code hac,hn⟩
        ⟨code',hall b hb code' hbc,hn'⟩)
    (all_lockers_place db) (lockers_nodup db)
  unfold reconcile
  dsimp only
  generalize (LockerDb.all db).foldl relinkLocker db = r at hp ⊢
  have hrow : ∀ emp ∈ all r,
      (sides r).owner emp.id = some (emp.cardCode,emp.lockerId) :=
    fun emp hm => owner_of_mem r ((mem_all r emp).mp hm)
  obtain ⟨hpl,ho,hw⟩ := cleared _ (all_nodup r) hrow
  have hcd := cleared_coded (all_nodup r) hrow
  generalize (all r).foldl clearLink r = last at hpl ho hw hcd ⊢
  -- a locker that still holds a card held it before, and the card is somebody's
  have hheld : ∀ p code, Held (sides r) code p → Held (sides db) code p ∧
      ∃ emp, findByCard db code = some emp ∧
        (sides r).owner emp.id = some (emp.cardCode,some p) := by
    intro p code hd
    have hm : p ∈ (LockerDb.all db).map LockerRow.id := by
      by_contra hn
      rw [Held,hp.place p hn] at hd
      obtain ⟨lk,hm,rfl,_⟩ := (held_iff db code p).mp hd
      exact hn (mem_map_of_mem ((mem_insertionSort _).mpr hm))
    obtain ⟨lk,hlk,rfl⟩ := mem_map.mp hm
    rw [Held,hp.kept lk hlk,Option.some.injEq,Option.filter_eq_some_iff] at hd
    obtain ⟨emp,hf⟩ := Option.isSome_iff_exists.mp hd.2
    obtain ⟨hn,hco⟩ := found_bears hf
    exact ⟨hall lk hlk code hd.1,emp,hf,hp.linked lk hlk code _ _ hd.1 hn hco⟩
  have hnorm : ∀ p code, Held (sides r) code p → (normalizeCode code).isSome = true := by
    intro p code hd
    obtain ⟨_,emp,hf,_⟩ := hheld p code hd
    rw [(found_bears hf).1]
    rfl
  have hh : ∀ p card, Holds last p card ↔ Holds r p card := by
    intro p card
    simp only [Holds,Held,hpl]
  refine ⟨⟨?_,?_⟩,?_,fun id c => (hcd id c).trans (hp.coded id c),fun p code hd => ?_⟩
  · intro id code target hown p
    have hm : id ∈ (all r).map EmployeeRow.id := by
      obtain ⟨row,hm,rfl,_⟩ := (coded_iff r id code).mp ((hcd id code).mp ⟨target,hown⟩)
      exact mem_map_of_mem ((mem_all r row).mpr hm)
    obtain ⟨emp,he,rfl⟩ := mem_map.mp hm
    rw [hw emp he] at hown
    obtain ⟨rfl,rfl⟩ := Prod.mk.inj (Option.some.inj hown)
    rw [Option.filter_eq_some_iff,link_holds_iff_holds p emp (hnorm p)]
    simp only [hh]
    refine ⟨And.right,fun hc => ⟨?_,hc⟩⟩
    obtain ⟨card,hn,code,hd,hnc⟩ := hc
    obtain ⟨_,found,hf,hl⟩ := hheld p code hd
    obtain ⟨hfn,hco⟩ := found_bears hf
    obtain rfl := Option.some.inj (hnc.symm.trans hfn)
    have hid := h.unique emp.id found.id _ _ found.cardCode
      ((hp.coded _ _).mp ⟨_,hrow emp he⟩) hco hn (normalize_code_idempotent hfn)
    rw [← hid,hrow emp he] at hl
    exact (Prod.mk.inj (Option.some.inj hl)).2
  · intro p q card hcp hcq
    rw [hh] at hcp hcq
    obtain ⟨code,hd,hn⟩ := hcp
    obtain ⟨code',hd',hn'⟩ := hcq
    obtain ⟨hdb,emp,hf,_⟩ := hheld p code hd
    obtain ⟨hfn,hco⟩ := found_bears hf
    obtain rfl := Option.some.inj (hn.symm.trans hfn)
    exact h.single emp.id _ emp.cardCode p q hco (normalize_code_idempotent hn) ⟨code,hdb,hn⟩
      ⟨code',(hheld q code' hd').1,hn'⟩
  · intro p code hd
    rw [Held,hpl] at hd
    obtain ⟨_,emp,hf,_⟩ := hheld p code hd
    refine Option.isSome_iff_exists.mp ?_
    rw [found_coded fun id c => (hcd id c).trans (hp.coded id c),hf]
    rfl
  · rw [Held,hpl] at hd
    exact (hheld p code hd).1

theorem sound_keyed (h : Sound Set.univ db) : Keyed db := by
  have hc : ∀ p code, Held (sides db) code p → normalizeCode code = some code := by
    intro p code hd
    obtain ⟨id,hid⟩ := h.agrees.owned p code hd
    exact h.normal id code hid
  constructor
  · intro id id' code code' card hco hco' hn hn'
    obtain rfl := Option.some.inj ((h.normal id code hco).symm.trans hn)
    obtain rfl := Option.some.inj ((h.normal id' code' hco').symm.trans hn')
    exact h.agrees.unique id id' _ hco hco'
  · rintro id code card p q _ _ ⟨c,hd,hn⟩ ⟨c',hd',hn'⟩
    obtain rfl := Option.some.inj ((hc p c hd).symm.trans hn)
    obtain rfl := Option.some.inj ((hc q c' hd').symm.trans hn')
    exact h.agrees.single p q _ hd hd'

/-- Whatever the links were, the repair makes the two sides agree. -/
theorem sound_reconcile (h : Sound Set.univ db) : Sound ∅ (reconcile db) := by
  obtain ⟨hp,_,hcd,hh⟩ := reconciled (sound_keyed h)
  have hn : ∀ id code, Coded (sides (reconcile db)) id code → normalizeCode code = some code :=
    fun id code hco => h.normal id code ((hcd id code).mp hco)
  refine ⟨⟨?_,?_,?_,?_⟩,hn⟩
  · exact fun o o' code ho ho' =>
      h.agrees.unique o o' code ((hcd o code).mp ho) ((hcd o' code).mp ho')
  · intro p code hd
    obtain ⟨o,ho⟩ := h.agrees.owned p code (hh p code hd)
    exact ⟨o,(hcd o code).mpr ho⟩
  · exact fun p q code hd hq => h.agrees.single p q code (hh p code hd) (hh q code hq)
  · intro o code target _ ho p
    rw [hp.link o code target ho p]
    constructor
    · rintro ⟨card,hc,c,hd,hcn⟩
      obtain rfl := Option.some.inj ((hn o code ⟨target,ho⟩).symm.trans hc)
      obtain ⟨id,hid⟩ := h.agrees.owned p c (hh p c hd)
      obtain rfl := Option.some.inj ((h.normal id c hid).symm.trans hcn)
      exact hd
    · exact fun hd => ⟨code,hn o code ⟨target,ho⟩,code,hd,hn o code ⟨target,ho⟩⟩

/-- The rows carry their codes in the tables. -/
def Stored (db : Db) (rows : List EmployeeRow) : Prop :=
  ∀ row ∈ rows, Coded (sides db) row.id row.cardCode

theorem Stored.mono {db' : Db} {rows : List EmployeeRow} (h : Stored db rows)
    (hk : ∀ id code, Coded (sides db) id code → Coded (sides db') id code) : Stored db' rows :=
  fun row hm => hk row.id row.cardCode (h row hm)

theorem sound_upsert {clk : Clock} {db : Db} {rec : Record} {u : Upserted}
    (h : Sound Set.univ db) (hu : upsert clk db rec = .ok u) : Sound Set.univ u.db := by
  obtain ⟨_,⟨hs,_⟩ | ⟨val,_,hf,rfl⟩⟩ := upsert_cases hu
  · exact sound_of_sides h hs
  · exact (sound_insert h hf).mono (Set.subset_univ _)

theorem stored_apply_record {s : Applied} (rec : Record) (h : Sound Set.univ s.db)
    (hs : Stored s.db (s.added++s.updated)) :
    Sound Set.univ (applyRecord clk s rec).db ∧
      Stored (applyRecord clk s rec).db
        ((applyRecord clk s rec).added++(applyRecord clk s rec).updated) := by
  unfold applyRecord
  cases hu : upsert clk s.db rec with
  | error why => exact ⟨h,hs⟩
  | ok u =>
    obtain ⟨db,row,action⟩ := u
    have hsn := sound_upsert h hu
    have hold := hs.mono (coded_upsert hu)
    have hn : Coded (sides db) row.id row.cardCode :=
      (coded_iff db _ _).mpr ⟨row,(upsert_cases hu).1,rfl,rfl⟩
    cases action with
    | unchanged => exact ⟨hsn,hold⟩
    | added =>
      refine ⟨hsn,?_⟩
      intro o hm
      rcases mem_append.mp hm with ha | hup
      · rcases mem_append.mp ha with hp | hl
        · exact hold o (mem_append_left _ hp)
        · rw [mem_singleton.mp hl]
          exact hn
      · exact hold o (mem_append_right _ hup)
    | updated =>
      refine ⟨hsn,?_⟩
      intro o hm
      rcases mem_append.mp hm with ha | hup
      · exact hold o (mem_append_left _ ha)
      · rcases mem_append.mp hup with hp | hl
        · exact hold o (mem_append_right _ hp)
        · rw [mem_singleton.mp hl]
          exact hn

variable (rows : List EmployeeRow)

theorem sides_deactivate (db : Db) : sides (rows.foldl deactivateRow db) = sides db := by
  refine List.foldlRecOn (motive := fun db' => sides db' = sides db) _ _ rfl ?_
  intro db' h row _
  unfold deactivateRow
  split_ifs
  · rw [sides_set_active]
    exact h
  · exact h

theorem sound_sync (list : List Record) (full : Bool) (h : Sound Set.univ db) :
    Sound Set.univ (sync clk db list full).db ∧
      Stored (sync clk db list full).db
        ((sync clk db list full).changes.added++(sync clk db list full).changes.updated) ∧
      Stored (sync clk db list full).db (sync clk db list full).changes.deactivated := by
  have ha : Sound Set.univ (applyRecords clk db list).db ∧
      Stored (applyRecords clk db list).db
        ((applyRecords clk db list).added++(applyRecords clk db list).updated) := by
    refine List.foldlRecOn (motive := fun s : Applied => Sound Set.univ s.db ∧
      Stored s.db (s.added++s.updated)) _ _ ⟨h,fun row hm => absurd hm not_mem_nil⟩ ?_
    exact fun s hs rec _ => stored_apply_record clk rec hs.1 hs.2
  have hms (row : EmployeeRow) (codes : List Text) (db' : Db)
      (hm : row ∈ missingFrom db' codes) : row ∈ db'.employees.rows := by
    unfold missingFrom at hm
    dsimp only at hm
    split_ifs at hm
    · exact (mem_all db' row).mp hm
    · exact (mem_all db' row).mp (mem_filter.mp hm).1
  unfold sync
  dsimp only
  refine ⟨sound_of_sides ha.1 (sides_deactivate _ _),?_,?_⟩
  · intro row hm
    rw [sides_deactivate]
    exact ha.2 row hm
  · intro row hm
    rw [sides_deactivate]
    have hr := (mem_filter.mp hm).1
    split_ifs at hr
    · exact (coded_iff _ _ _).mpr ⟨row,hms row _ _ hr,rfl,rfl⟩
    · exact absurd hr not_mem_nil

theorem sound_assign_if_wanted (s : AssignCount) (emp : EmployeeRow) (h : Sound Set.univ s.db)
    (hc : Coded (sides s.db) emp.id emp.cardCode) :
    Sound Set.univ (assignIfWanted cfg clk s emp).db ∧
      ∀ id code, Coded (sides s.db) id code →
        Coded (sides (assignIfWanted cfg clk s emp).db) id code := by
  have hk : Sound Set.univ s.db ∧
      ∀ id code, Coded (sides s.db) id code → Coded (sides s.db) id code := ⟨h,fun _ _ => id⟩
  unfold assignIfWanted
  split_ifs
  · exact hk
  · exact hk
  · exact hk
  · have ha : Sound Set.univ (assign cfg clk s.db emp none).db ∧
        ∀ id code, Coded (sides s.db) id code →
          Coded (sides (assign cfg clk s.db emp none).db) id code :=
      ⟨sound_assign cfg clk emp none h hc,coded_assign cfg clk s.db emp none⟩
    dsimp only
    cases (assign cfg clk s.db emp none).locker with
    | error why => exact ha
    | ok lk => exact ha

theorem assign_wanted_fold (s : AssignCount) (h : Sound Set.univ s.db) (hs : Stored s.db rows) :
    Sound Set.univ (rows.foldl (assignIfWanted cfg clk) s).db ∧
      ∀ id code, Coded (sides s.db) id code →
        Coded (sides (rows.foldl (assignIfWanted cfg clk) s).db) id code := by
  induction rows generalizing s with
  | nil => exact ⟨h,fun _ _ => id⟩
  | cons row rest ih =>
    obtain ⟨hst,hk⟩ := sound_assign_if_wanted cfg clk s row h (hs row mem_cons_self)
    have hr : Stored s.db rest := fun o hm => hs o (mem_cons_of_mem row hm)
    obtain ⟨hsn,hcd⟩ := ih (assignIfWanted cfg clk s row) hst (hr.mono hk)
    exact ⟨hsn,fun id code hc => hcd id code (hk id code hc)⟩

theorem release_removed_fold (s : ReleaseCount) (h : Sound Set.univ s.db) (hs : Stored s.db rows) :
    Sound Set.univ (rows.foldl releaseRemoved s).db := by
  induction rows generalizing s with
  | nil => exact h
  | cons row rest ih =>
    have hc := hs row mem_cons_self
    have hp : ∀ code, normalizeCode row.cardCode = some code → upper row.cardCode ≠ code →
        ∀ p, ¬Held (sides s.db) code p := by
      intro code hn hne
      rw [h.normal _ _ hc,Option.some.injEq] at hn
      exact absurd ((sound_upper h hc).trans hn) hne
    have hr : Stored s.db rest := fun o hm => hs o (mem_cons_of_mem row hm)
    exact ih (releaseRemoved s row) (sound_release row.cardCode h hp)
      (hr.mono (coded_release s.db _))

theorem sound_apply_changes {chs : Changes} (h : Sound Set.univ db)
    (hw : Stored db (chs.added++chs.updated))
    (hr : Stored db chs.deactivated) :
    Sound Set.univ (applyChanges cfg clk db chs).db := by
  have ha : Sound Set.univ (assignWanted cfg clk db chs).db ∧
      ∀ id code, Coded (sides db) id code →
        Coded (sides (assignWanted cfg clk db chs).db) id code := by
    unfold assignWanted
    split_ifs
    · exact assign_wanted_fold cfg clk _ _ h hw
    · exact ⟨h,fun _ _ => id⟩
  unfold applyChanges
  dsimp only
  split_ifs
  · exact release_removed_fold _ ⟨_,0⟩ ha.1 (hr.mono ha.2)
  · exact ha.1

/-- A run of the synchronisation ends with the two sides in agreement, whatever links
its records carry. -/
theorem sound_run (fetched : Except Text (List Record)) (h : Sound ∅ db) :
    Sound ∅ (Sync.run cfg clk rt db fetched).db := by
  cases fetched with
  | error why => exact h
  | ok list =>
    obtain ⟨hs,hw,hr⟩ := sound_sync clk list _ (h.mono (Set.empty_subset _))
    have ha := sound_apply_changes cfg clk hs hw hr
    exact sound_reclaim cfg clk rt
      (sound_reconcile (sound_of_sides ha (sides_refresh_expiry cfg clk _)))

end EMaster.AssignmentRepair
