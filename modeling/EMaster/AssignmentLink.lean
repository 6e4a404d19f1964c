import EMaster.Access
import EMaster.Sync
import EMaster.TwoSided

/-!
# The card side and the locker side of the assignment

The tables store the relation of cards and lockers twice. Every operation of the
application is read here as a change of the two sides: status, usage and card data
leave both alone, assignment and release write both, the repair aligns the card
side with the locker side.
-/

set_option autoImplicit false

namespace EMaster.AssignmentLink
open KeyedTable Text LockerTime LockerConfig Database EmployeeDb Option
open Employee Assignment AssignmentFrame TwoSided

def sides (db : Db) : Sides ℕ ℕ Text where
  owner id := (EmployeeDb.findById db id).map (fun row => (row.cardCode,row.lockerId))
  place id := (LockerDb.get db id).map LockerRow.cardCode

/-- The two sides agree outside the suspended rows, and stored codes are in their
normal form. -/
structure Sound (off : Set ℕ) (db : Db) : Prop where
  agrees : Agrees off (sides db)
  normal : ∀ id code, Coded (sides db) id code → normalizeCode code = some code

variable {off : Set ℕ} (db : Db) (card : Text) (id : ℕ) (code : Text)

theorem Sound.mono {off' : Set ℕ} {db : Db} (h : Sound off db) (hs : off ⊆ off') : Sound off' db :=
  ⟨h.agrees.mono hs,h.normal⟩

theorem sound_of_sides {db db' : Db} (h : Sound off db) (hs : sides db' = sides db) :
    Sound off db' := by
  constructor
  · rw [hs]
    exact h.agrees
  · rw [hs]
    exact h.normal

theorem owner_of_mem {row : EmployeeRow} (h : row ∈ db.employees.rows) :
    (sides db).owner row.id = some (row.cardCode,row.lockerId) := by
  have hf : findById db row.id = some row := get_key _ row h
  simp [sides,hf]

theorem coded_iff :
    Coded (sides db) id code ↔ ∃ row ∈ db.employees.rows, row.id = id ∧ row.cardCode = code := by
  constructor
  · rintro ⟨target,h⟩
    obtain ⟨row,hr,hv⟩ := map_eq_some_iff.mp h
    obtain ⟨hm,hid⟩ := (get_some _ id row).mp hr
    exact ⟨row,hm,hid,(Prod.mk.inj hv).1⟩
  · rintro ⟨row,hm,rfl,rfl⟩
    exact ⟨row.lockerId,owner_of_mem db hm⟩

theorem held_iff (id : ℕ) :
    Held (sides db) code id ↔
      ∃ locker ∈ db.lockers.rows, locker.id = id ∧ locker.cardCode = some code := by
  constructor
  · intro h
    obtain ⟨locker,hl,hc⟩ := map_eq_some_iff.mp h
    obtain ⟨hm,hid⟩ := (get_some _ id _).mp hl
    exact ⟨locker,hm,hid,hc⟩
  · rintro ⟨locker,hm,rfl,hc⟩
    have hg : LockerDb.get db locker.id = some locker := get_key _ _ hm
    simp [Held,sides,hg,hc]

theorem sides_update_employee {f : EmployeeRow → EmployeeRow} (hf : ∀ row, (f row).id = row.id)
    (hv : ∀ row, (f row).cardCode = row.cardCode ∧ (f row).lockerId = row.lockerId) :
    sides (update db id f hf) = sides db := by
  have ho (other : ℕ) : (sides (update db id f hf)).owner other =
      (sides db).owner other := by
    change Option.map _ ((db.employees.modify id f hf).get other) = _
    rw [get_modify,map_map]
    refine map_congr ?_
    intro row _
    unfold Function.comp patchRow
    split_ifs
    · exact Prod.ext (hv row).1 (hv row).2
    · rfl
  exact congrArg (fun owner => Sides.mk owner (sides db).place) (funext ho)

variable {f : LockerRow → LockerRow}

theorem sides_update_locker (hf : ∀ row, (f row).id = row.id)
    (hv : ∀ row, (f row).cardCode = row.cardCode) :
    sides (LockerDb.update db id f hf) = sides db := by
  have hp (other : ℕ) : (sides (LockerDb.update db id f hf)).place other =
      (sides db).place other := by
    change Option.map _ (LockerDb.get (LockerDb.update db id f hf) other) = _
    rw [LockerDb.get_update,map_map]
    refine map_congr ?_
    intro row _
    unfold Function.comp patchRow
    split_ifs
    · exact hv row
    · rfl
  exact congrArg (Sides.mk (sides db).owner) (funext hp)

theorem sides_set_locker (lockerId : Option ℕ) :
    sides (setLocker db id lockerId) = link (sides db) id lockerId := by
  have ho (other : ℕ) : (sides (setLocker db id lockerId)).owner other =
      (link (sides db) id lockerId).owner other := by
    change Option.map _ ((db.employees.modify id _ (with_locker_id _)).get other) = _
    rw [get_modify]
    unfold link sides findById
    dsimp only
    cases hg : db.employees.get other with
    | none => rfl
    | some row =>
      have hid := ((get_some _ other row).mp hg).2
      simp only [map_some,patchRow,hid]
      split_ifs <;> rfl
  exact congrArg (fun owner => Sides.mk owner (sides db).place) (funext ho)

theorem sides_occupy (hf : ∀ row, (f row).id = row.id) {holder : Option Text}
    (hv : ∀ row, (f row).cardCode = holder) :
    sides (LockerDb.update db id f hf) = occupy (sides db) id holder := by
  have hp (other : ℕ) : (sides (LockerDb.update db id f hf)).place other =
      (occupy (sides db) id holder).place other := by
    change Option.map _ (LockerDb.get (LockerDb.update db id f hf) other) = _
    rw [LockerDb.get_update]
    unfold occupy sides
    dsimp only
    cases hg : LockerDb.get db other with
    | none => rfl
    | some row =>
      have hid := ((get_some _ other row).mp hg).2
      simp only [map_some,patchRow,hid]
      split_ifs
      · rw [hv row]
      · rfl
  exact congrArg (Sides.mk (sides db).owner) (funext hp)

theorem sides_assign_row (emp : EmployeeRow) (timestamp : Text) :
    sides (LockerDb.assign db id emp timestamp) = occupy (sides db) id (some emp.cardCode) :=
  sides_occupy db id _ (fun _ => rfl)

theorem sides_release_row : sides (LockerDb.release db id) = occupy (sides db) id none :=
  sides_occupy db id _ (fun _ => rfl)

theorem sides_set_status (st : LockerStatus) (why : Option Text) :
    sides (LockerDb.setStatus db id st why) = sides db :=
  sides_update_locker db id _ (fun _ => rfl)

theorem sides_set_active (active : Bool) : sides (setActive db id active) = sides db :=
  sides_update_employee db id _ (fun _ => ⟨rfl,rfl⟩)

theorem sides_insert (val : Validated) :
    sides (Employee.insert db val) =
      add (sides db) (db.employees.last+1) val.cardCode val.lockerId := by
  have ho (other : ℕ) : (sides (Employee.insert db val)).owner other =
      (add (sides db) (db.employees.last+1) val.cardCode val.lockerId).owner other := by
    change Option.map _ ((db.employees.insert (inserted val) (inserted_id val)).get other) = _
    rw [get_insert]
    unfold add
    dsimp only
    split_ifs <;> rfl
  exact congrArg (fun owner => Sides.mk owner (sides db).place) (funext ho)

variable {emp : EmployeeRow}

theorem find_by_card_coded (h : findByCard db card = some emp) :
    Coded (sides db) emp.id emp.cardCode := by
  obtain ⟨_,hm⟩ := find_by_card_some db card emp h
  exact (coded_iff db _ _).mpr ⟨emp,hm,rfl,rfl⟩

theorem find_by_card_none (hn : normalizeCode code = some code)
    (h : findByCard db code = none) (id : ℕ) : ¬Coded (sides db) id code := by
  rw [coded_iff]
  rintro ⟨row,hm,_,hc⟩
  unfold findByCard findByCode at h
  rw [hn,bind_some,one_none] at h
  have := h row hm
  simp [hc] at this

theorem find_by_card_of_coded {db : Db} {id : ℕ} {code : Text} (h : Sound off db)
    (hc : Coded (sides db) id code) :
    ∃ employee, findByCard db code = some employee ∧ employee.id = id := by
  cases hf : findByCard db code with
  | none => exact absurd hc (find_by_card_none db code (h.normal id code hc) hf id)
  | some employee =>
    obtain ⟨hcd,_⟩ := find_by_card_some db code _ hf
    rw [h.normal id code hc] at hcd
    have hfn := find_by_card_coded db code hf
    rw [← some.inj hcd] at hfn
    exact ⟨employee,rfl,h.agrees.unique _ _ code hfn hc⟩

variable {locker : LockerRow}

theorem get_by_card_held (h : LockerDb.getByCard db card = some locker) :
    Held (sides db) (upper card) locker.id := by
  obtain ⟨hg,hc⟩ := LockerDb.get_by_card_some db card _ h
  exact (held_iff db _ _).mpr ⟨locker,((get_some _ _ _).mp hg).1,rfl,hc⟩

theorem get_by_card_none (h : LockerDb.getByCard db card = none) (id : ℕ) :
    ¬Held (sides db) (upper card) id := by
  rw [held_iff]
  rintro ⟨lk,hm,_,hc⟩
  have := (one_none _ _).mp h lk hm
  simp [hc] at this

theorem sound_link {db : Db} {id : ℕ} {code : Text} {lid : Option ℕ}
    (h : Sound (insert id off) db) (hc : Coded (sides db) id code)
    (ht : ∀ p, lid = some p ↔ Held (sides db) code p) :
    Sound off (setLocker db id lid) := by
  constructor
  · rw [sides_set_locker]
    exact agrees_link h.agrees hc ht
  · intro o c ho
    rw [sides_set_locker,coded_link] at ho
    exact h.normal o c ho

/-- A release frees the locker and its owner; nobody holds the code afterwards. -/
theorem sound_release_held {db : Db} {lid : ℕ} {code : Text} (h : Sound off db)
    (hp : Held (sides db) code lid) :
    Sound off (releaseLocker db lid).db ∧ ∀ p, ¬Held (sides (releaseLocker db lid).db) code p := by
  obtain ⟨o,ho⟩ := h.agrees.owned lid code hp
  obtain ⟨lk,hg,hc⟩ := map_eq_some_iff.mp hp
  obtain ⟨hfr,hn⟩ := agrees_free (h.agrees.mono (Set.subset_insert o off)) ho hp
  have hf : Sound (insert o off) (LockerDb.release db lid) := by
    constructor
    · rw [sides_release_row]
      exact hfr
    · rw [sides_release_row]
      exact h.normal
  have hcd : Coded (sides (LockerDb.release db lid)) o code := by
    rw [sides_release_row]
    exact ho
  obtain ⟨emp,hfn,rfl⟩ := find_by_card_of_coded hf hcd
  rw [← sides_release_row] at hn
  have hdb : (releaseLocker db lid).db =
      setLocker (LockerDb.release db lid) emp.id none := by
    simp [releaseLocker,hg,hc,detach,hfn]
  rw [hdb,sides_set_locker]
  refine ⟨sound_link hf hcd ?_,hn⟩
  intro p
  simp [hn p]

theorem coded_release_locker {id : ℕ} (lid : ℕ) {code : Text} (h : Coded (sides db) id code) :
    Coded (sides (releaseLocker db lid).db) id code := by
  unfold releaseLocker
  cases LockerDb.get db lid with
  | none => exact h
  | some lk =>
    dsimp only
    cases lk.cardCode with
    | none => exact h
    | some card =>
      dsimp only
      unfold detach
      cases findByCard (LockerDb.release db lid) card with
      | none => rwa [sides_release_row]
      | some emp =>
        dsimp only
        rwa [sides_set_locker,coded_link,sides_release_row]

theorem sound_release_locker {db : Db} (lockerId : ℕ) (h : Sound off db) :
    Sound off (releaseLocker db lockerId).db := by
  cases hg : LockerDb.get db lockerId with
  | none => simpa [releaseLocker,hg] using h
  | some lk =>
    cases hc : lk.cardCode with
    | none => simpa [releaseLocker,hg,hc] using h
    | some code =>
      have hh : Held (sides db) code lockerId := by simp [Held,sides,hg,hc]
      exact (sound_release_held h hh).1

theorem find_available_place {cfg : Config} {db : Db} {ltype : Text} {gender : Option Text}
    {bid : Option ℕ} (h : findAvailable cfg db ltype gender bid = .ok locker) :
    (sides db).place locker.id = some none := by
  obtain ⟨hm,hf⟩ := find_available_free cfg db h
  have hg : LockerDb.get db locker.id = some locker := get_key _ _ hm
  simp [sides,hg,hf]

theorem give_locker_db (clk : Clock) (db : Db) (emp : EmployeeRow) (lk : LockerRow) :
    (giveLocker clk db emp lk).db = setLocker
      (LockerDb.assign db lk.id emp (stamp clk clk.now)) emp.id
      (some lk.id) := by
  unfold giveLocker
  dsimp only
  cases LockerDb.get (setLocker (LockerDb.assign db lk.id emp
    (stamp clk clk.now)) emp.id (some lk.id)) lk.id <;> rfl

theorem sound_give {db : Db} (clk : Clock) (h : Sound (insert emp.id off) db)
    (hc : Coded (sides db) emp.id emp.cardCode) (hp : (sides db).place locker.id = some none)
    (hn : ∀ p, ¬Held (sides db) emp.cardCode p) :
    Sound off (giveLocker clk db emp locker).db := by
  have hg := agrees_give h.agrees hc hp hn
  have hh : Held (occupy (sides db) locker.id (some emp.cardCode)) emp.cardCode
      locker.id := occupy_same _ hp
  have hcd : Coded (sides (LockerDb.assign db locker.id emp (stamp clk clk.now)))
      emp.id emp.cardCode := by
    rw [sides_assign_row]
    exact hc
  rw [give_locker_db]
  refine sound_link ⟨?_,?_⟩ hcd ?_
  · rw [sides_assign_row]
    exact hg
  · rw [sides_assign_row]
    exact h.normal
  · intro p
    rw [sides_assign_row,some.injEq]
    constructor
    · rintro rfl
      exact hh
    · exact hg.single _ _ _ hh

variable (cfg : Config)

theorem sound_pick {db : Db} (clk : Clock) (bid : Option ℕ) (h : Sound off db)
    (hc : Coded (sides db) emp.id emp.cardCode) (hn : ∀ p, ¬Held (sides db) emp.cardCode p) :
    Sound off (pickLocker cfg clk db emp bid).db := by
  unfold pickLocker
  cases hf : findAvailable cfg db (lockerTypeFor emp) emp.gender bid with
  | error why => exact h
  | ok lk =>
    exact sound_give clk (h.mono (Set.subset_insert _ _)) hc (find_available_place hf) hn

theorem sound_upper {db : Db} {id : ℕ} {code : Text} (h : Sound off db)
    (hc : Coded (sides db) id code) : upper code = code :=
  normalize_code_upper (h.normal id code hc)

theorem sound_assign {db : Db} (clk : Clock) (emp : EmployeeRow) (bid : Option ℕ)
    (h : Sound off db) (hc : Coded (sides db) emp.id emp.cardCode) :
    Sound off (assign cfg clk db emp bid).db := by
  have hu := sound_upper h hc
  unfold assign
  split_ifs with ha
  · exact h
  · cases hg : LockerDb.getByCard db emp.cardCode with
    | none =>
      have hn := get_by_card_none db _ hg
      rw [hu] at hn
      exact sound_pick cfg clk bid h hc hn
    | some old =>
      dsimp only
      split_ifs with ht
      · exact h
      · have hh := get_by_card_held db _ hg
        rw [hu] at hh
        obtain ⟨hf,hn⟩ := sound_release_held h hh
        exact sound_pick cfg clk bid hf (coded_release_locker _ _ hc) hn

theorem coded_give (clk : Clock) {db : Db} (emp : EmployeeRow) (lk : LockerRow)
    {id : ℕ} {code : Text} (h : Coded (sides db) id code) :
    Coded (sides (giveLocker clk db emp lk).db) id code := by
  rwa [give_locker_db,sides_set_locker,coded_link,sides_assign_row]

theorem coded_pick (clk : Clock) {db : Db} (emp : EmployeeRow) (bid : Option ℕ) {id : ℕ}
    {code : Text} (h : Coded (sides db) id code) :
    Coded (sides (pickLocker cfg clk db emp bid).db) id code := by
  unfold pickLocker
  cases findAvailable cfg db (lockerTypeFor emp) emp.gender bid with
  | error why => exact h
  | ok lk => exact coded_give clk emp lk h

theorem coded_assign (clk : Clock) (db : Db) (emp : EmployeeRow) (bid : Option ℕ) (id : ℕ)
    (code : Text) (h : Coded (sides db) id code) :
    Coded (sides (assign cfg clk db emp bid).db) id code := by
  unfold assign
  split_ifs
  · exact h
  · cases LockerDb.getByCard db emp.cardCode with
    | none => exact coded_pick cfg clk emp bid h
    | some old =>
      dsimp only
      split_ifs
      · exact h
      · exact coded_pick cfg clk emp bid (coded_release_locker db _ h)

theorem sound_release_unheld {db : Db} {card : Text} (h : Sound (insert emp.id off) db)
    (hf : findByCard db card = some emp) (hg : LockerDb.getByCard db card = none)
    (hn : ∀ p, ¬Held (sides db) emp.cardCode p) : Sound off (release db card).db := by
  obtain ⟨_,hm⟩ := find_by_card_some db card emp hf
  have ho := owner_of_mem db hm
  unfold release
  rw [hg,hf]
  dsimp only
  split_ifs with hl
  · exact sound_link h ⟨_,ho⟩ (fun p => by simp [hn p])
  · rw [not_isSome_iff_eq_none.mp hl] at ho
    exact ⟨h.agrees.resume ho (fun p => by simp [hn p]),h.normal⟩

/-- A release under the stored spelling, or of a card that no locker holds, keeps the
two sides together. -/
theorem sound_release {db : Db} (card : Text) (h : Sound off db)
    (hp : ∀ code, normalizeCode card = some code → upper card ≠ code → ∀ p, ¬Held (sides db) code p) :
    Sound off (release db card).db := by
  cases hg : LockerDb.getByCard db card with
  | some lk =>
    have hdb : release db card = releaseLocker db lk.id := by
      unfold release
      rw [hg]
    rw [hdb]
    exact sound_release_locker _ h
  | none =>
    cases hf : findByCard db card with
    | none =>
      unfold release
      rw [hg,hf]
      exact h
    | some emp =>
      obtain ⟨hc,_⟩ := find_by_card_some db card _ hf
      refine sound_release_unheld (h.mono (Set.subset_insert _ _)) hf hg ?_
      by_cases hu : upper card = emp.cardCode
      · rw [← hu]
        exact get_by_card_none db card hg
      · exact hp emp.cardCode hc hu

theorem coded_release (h : Coded (sides db) id code) :
    Coded (sides (release db card).db) id code := by
  unfold release
  cases LockerDb.getByCard db card with
  | some lk => exact coded_release_locker db _ h
  | none =>
    dsimp only
    cases findByCard db card with
    | none => exact h
    | some emp =>
      dsimp only
      split_ifs
      · rwa [sides_set_locker,coded_link]
      · exact h

variable {clk : Clock} {rec : Record} {u : Upserted}

/-- What an accepted record does to the two sides: nothing if the card is stored, and
otherwise it adds a row whose link is the one the record carries. -/
theorem upsert_cases {db : Db} (h : upsert clk db rec = .ok u) :
    u.row ∈ u.db.employees.rows ∧
      ((sides u.db = sides db ∧ u.action ≠ .added) ∨
      ∃ validated, validate clk rec = .ok validated ∧
        findByCard db validated.cardCode = none ∧
        u = ⟨insert db validated,inserted validated (db.employees.last+1),.added⟩) := by
  unfold upsert at h
  cases hv : validate clk rec with
  | error why =>
    rw [hv] at h
    cases h
  | ok validated =>
    rw [hv] at h
    dsimp only at h
    cases hf : findByCard db validated.cardCode with
    | none =>
      rw [hf] at h
      obtain rfl := Except.ok.inj h
      refine ⟨?_,.inr ⟨validated,rfl,hf,rfl⟩⟩
      exact (mem_insert _ (inserted_id _) _).mpr (.inr rfl)
    | some old =>
      obtain ⟨hc,hm⟩ := find_by_card_some db _ _ hf
      rw [validated.normalized,some.injEq] at hc
      rw [hc] at hf
      rw [hc,hf] at h
      dsimp only at h
      split_ifs at h with he
      · obtain rfl := Except.ok.inj h
        exact ⟨hm,.inl ⟨rfl,by simp⟩⟩
      · obtain rfl := Except.ok.inj h
        refine ⟨?_,.inl ⟨sides_update_employee db _ _ (fun _ => ⟨rfl,rfl⟩),by simp⟩⟩
        exact (mem_modify _ _ (patch_apply_id _) _).mpr ⟨old,hm,if_pos rfl⟩

theorem owner_fresh : (sides db).owner (db.employees.last+1) = none := by
  refine map_eq_none_iff.mpr ((one_none _ _).mpr ?_)
  intro row hm
  have := db.employees.bounded row hm
  simp only [decide_eq_false_iff_not]
  omega

theorem sound_insert {db : Db} {val : Validated} (h : Sound off db)
    (hf : findByCard db val.cardCode = none) :
    Sound (Set.insert (db.employees.last+1) off) (insert db val) := by
  constructor
  · rw [sides_insert]
    exact agrees_add _ h.agrees (owner_fresh db) (find_by_card_none db _ val.normalized hf)
  · intro id code hc
    rw [sides_insert,coded_add _ _ (owner_fresh db)] at hc
    rcases hc with ⟨_,rfl⟩ | hold
    · exact val.normalized
    · exact h.normal id code hold

theorem coded_upsert {db : Db} (hu : upsert clk db rec = .ok u) (id : ℕ) (code : Text)
    (h : Coded (sides db) id code) : Coded (sides u.db) id code := by
  obtain ⟨_,⟨hs,_⟩ | ⟨val,_,_,rfl⟩⟩ := upsert_cases hu
  · rwa [hs]
  · rw [sides_insert,coded_add _ _ (owner_fresh db)]
    exact .inr h

end EMaster.AssignmentLink
