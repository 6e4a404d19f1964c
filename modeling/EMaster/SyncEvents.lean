import EMaster.AssignmentRepair

/-!
# Updates from the broker

One event carries one card record. A created or updated card is merged into the card
table and given a locker if it may have one; a revoked card is deactivated and loses
its locker under the release policy. The release looks the code up as the event
spells it, and the merge of a new card stores the locker number the record carries.
-/

set_option autoImplicit false

namespace EMaster.SyncEvents
open KeyedTable Text LockerTime LockerConfig Database EmployeeDb Option
open Employee Assignment TwoSided AssignmentLink
open AssignmentRepair

/-- The configured event names; an absent one has the built-in name. -/
structure EventNames where
  (created updated revoked : Option Text)

inductive EventKind where
  | created
  | updated
  | revoked
  deriving DecidableEq, Repr

def eventKind (events : EventNames) (name : Text) : Option EventKind :=
  if name = events.created.getD "employee.card.created" then some .created
  else if name = events.updated.getD "employee.card.updated" then some .updated
  else if name = events.revoked.getD "employee.card.revoked" then some .revoked
  else none

def deactivate (db : Db) (cardCode : Text) : Db :=
  match EmployeeDb.findByCard db cardCode with
  | none => db
  | some existing =>
    if existing.active = false then db else EmployeeDb.setActive db existing.id false

variable (config : Config)

/-- Without a setting, removed cards are released. -/
def releases : Bool := decide (config.sync.onRemoved.getD .release = .release)

structure Handled where
  db : Db
  result : Except Text Unit

def revoke (db : Db) (cardCode : Text) : Db :=
  let deactivated := deactivate db cardCode
  if releases config then (release deactivated cardCode).db else deactivated

def wanted (clock : Clock) (row : EmployeeRow) : Bool :=
  row.active && !Employee.isExpired config clock row && config.sync.assignOnSync

def placed (clock : Clock) (db : Db) (row : EmployeeRow) : Db :=
  let assigned := if wanted config clock row then (assign config clock db row none).db else db
  let settled := if !row.active && releases config then (release assigned row.cardCode).db
    else assigned
  Locker.refreshExpiry config clock settled

def merge (clock : Clock) (db : Db) (record : Record) : Handled :=
  match upsert clock db record with
  | .error reason => ⟨db,.error reason⟩
  | .ok u => ⟨placed config clock u.db u.row,.ok ()⟩

/-- One broker event. A message without a table or without a card code is refused. -/
def onEvent (events : EventNames) (clock : Clock) (db : Db) (name : Text)
    (data : Option Record) : Handled :=
  match eventKind events name with
  | none => ⟨db,.error ("unknown event "++name)⟩
  | some kind =>
    match data with
    | none => ⟨db,.error "no card record"⟩
    | some record =>
      match record.cardCode with
      | none => ⟨db,.error "no card record"⟩
      | some cardCode =>
        match kind with
        | .revoked => ⟨revoke config db cardCode,.ok ()⟩
        | _ => merge config clock db record

theorem sides_deactivate_card (db : Db) (card : Text) : sides (deactivate db card) = sides db := by
  unfold deactivate
  cases findByCard db card with
  | none => rfl
  | some old =>
    dsimp only
    split_ifs
    · rfl
    · exact sides_set_active db _ false

/-- The code is held, but the given spelling of it is not the one that is looked up. -/
def Misspelt (db : Db) (cardCode : Text) : Prop :=
  ∃ code, normalizeCode cardCode = some code ∧ upper cardCode ≠ code ∧
    ∃ locker ∈ db.lockers.rows, locker.cardCode = some code

theorem misspelt_iff (db : Db) (card : Text) :
    Misspelt db card ↔ ∃ code, normalizeCode card = some code ∧ upper card ≠ code ∧
      ∃ p, Held (sides db) code p := by
  simp only [Misspelt,held_iff]
  constructor
  · rintro ⟨code,hn,hu,locker,hm,hc⟩
    exact ⟨code,hn,hu,locker.id,locker,hm,rfl,hc⟩
  · rintro ⟨code,hn,hu,_,locker,hm,_,hc⟩
    exact ⟨code,hn,hu,locker,hm,hc⟩

variable {off : Set ℕ} {card : Text}

theorem sound_release_spelt {db : Db} (h : Sound off db) (hs : ¬Misspelt db card) : Sound off (release db card).db := by
  apply sound_release card h
  intro code hn hu p hp
  exact hs ((misspelt_iff db card).mpr ⟨code,hn,hu,p,hp⟩)

/-- A card row whose link is not the locker that holds its code. -/
def Broken (db : Db) : Prop :=
  ∃ id code target p, (sides db).owner id = some (code,target) ∧
    ¬(target = some p ↔ Held (sides db) code p)

theorem normalize_code_upper_eq (cardCode : Text) :
    normalizeCode (upper cardCode) = normalizeCode cardCode := by
  unfold normalizeCode
  rw [filter_upper,upper_idempotent]

variable {db : Db} (cfg : Config) (clk : Clock)

/-- Under a wrong spelling the release misses the locker and clears the card row. -/
theorem release_misspelt (h : Sound ∅ db) (hs : Misspelt db card) :
    Broken (release db card).db := by
  obtain ⟨code,hn,hu,p,hp⟩ := (misspelt_iff db card).mp hs
  obtain ⟨id,hid⟩ := h.agrees.owned p code hp
  obtain ⟨employee,hf,rfl⟩ := find_by_card_of_coded h hid
  obtain ⟨hc,hm⟩ := find_by_card_some db code _ hf
  rw [h.normal employee.id code hid,some.injEq] at hc
  have hfn : findByCard db card = some employee := by
    unfold findByCard at hf ⊢
    rw [h.normal employee.id code hid] at hf
    rw [hn]
    exact hf
  have ho := owner_of_mem db hm
  rw [← hc] at ho
  have hln : employee.lockerId = some p :=
    (h.agrees.sided employee.id code _ (Set.notMem_empty _) ho p).mpr hp
  have hg : LockerDb.getByCard db card = none := by
    rw [eq_none_iff_forall_not_mem]
    intro lk hl
    obtain ⟨o,hot⟩ := h.agrees.owned _ _ (get_by_card_held db card hl)
    have hnr := h.normal o _ hot
    rw [normalize_code_upper_eq,hn,some.injEq] at hnr
    exact hu hnr.symm
  have hdb : (release db card).db = setLocker db employee.id none := by
    simp [release,hg,hfn,hln]
  rw [hdb]
  refine ⟨employee.id,code,none,p,?_,?_⟩
  · rw [sides_set_locker]
    exact link_same _ hid
  · rw [sides_set_locker]
    exact fun hi => nomatch hi.mpr hp

theorem stored_spelt {db : Db} {id : ℕ} {code : Text} (h : Sound off db)
    (hc : Coded (sides db) id code) : ¬Misspelt db code := by
  rintro ⟨o,hn,hu,_⟩
  rw [h.normal id code hc,some.injEq] at hn
  exact hu ((sound_upper h hc).trans hn)

variable {row : EmployeeRow}

theorem sound_placed {db : Db} (cfg : Config) (clk : Clock) (h : Sound off db)
    (hc : Coded (sides db) row.id row.cardCode) : Sound off (placed cfg clk db row) := by
  unfold placed
  dsimp only
  refine sound_of_sides ?_ (sides_refresh_expiry cfg clk _)
  split_ifs with hr hw hw
  · have ha := sound_assign cfg clk row none h hc
    exact sound_release_spelt ha (stored_spelt ha (coded_assign cfg clk db row none _ _ hc))
  · exact sound_release_spelt h (stored_spelt h hc)
  · exact sound_assign cfg clk row none h hc
  · exact h

/-- The link that a new card brings along is replaced or cleared in the same event. -/
def Resettled (config : Config) (clock : Clock) (db : Db) (validated : Validated) : Prop :=
  if validated.active then
    LockerTime.isExpired clock validated.expireAt config.sync.expireAtEndOfDay = false ∧
      config.sync.assignOnSync = true ∧
      ∃ locker, findAvailable config db validated.role validated.gender none = .ok locker
  else releases config = true

/-- The record adds a card with a locker number that nothing replaces. -/
def Dangling (config : Config) (clock : Clock) (db : Db) (record : Record) : Prop :=
  ∃ validated, validate clock record = .ok validated ∧
    EmployeeDb.findByCard db validated.cardCode = none ∧ validated.lockerId ≠ none ∧
    ¬Resettled config clock db validated

/-- The tables right after a new card was stored: its row alone is out of step, and no
locker holds its code. -/
structure Fresh (db : Db) (row : EmployeeRow) : Prop where
  sound : Sound (Insert.insert row.id ∅) db
  owner : (sides db).owner row.id = some (row.cardCode,row.lockerId)
  unheld : ∀ p, ¬Held (sides db) row.cardCode p
  found : EmployeeDb.findByCard db row.cardCode = some row
  unfound : LockerDb.getByCard db row.cardCode = none

variable {val : Validated}

theorem insert_fresh (h : Sound ∅ db) (hf : findByCard db val.cardCode = none) :
    Fresh (insert db val) (inserted val (db.employees.last+1)) := by
  have hs := sound_insert h hf
  have hm : inserted val (db.employees.last+1) ∈ (insert db val).employees.rows :=
    (mem_insert _ (inserted_id val) _).mpr (.inr rfl)
  have ho := owner_of_mem _ hm
  have hu (p : ℕ) : ¬Held (sides (insert db val)) val.cardCode p := by
    intro hp
    rw [sides_insert] at hp
    obtain ⟨id,hid⟩ := h.agrees.owned p _ hp
    exact find_by_card_none db _ val.normalized hf id hid
  refine ⟨hs,ho,hu,?_,?_⟩
  · obtain ⟨emp,hfn,hid⟩ := find_by_card_of_coded hs ⟨_,ho⟩
    obtain ⟨_,hmm⟩ := find_by_card_some _ _ emp hfn
    rw [key_injective _ emp hmm hm hid] at hfn
    exact hfn
  · cases hg : LockerDb.getByCard (insert db val) val.cardCode with
    | none => exact hg
    | some lk =>
      have hh := get_by_card_held _ _ hg
      rw [normalize_code_upper val.normalized] at hh
      exact absurd hh (hu lk.id)

theorem assign_fresh_row (cfg : Config) (clk : Clock) (h : Fresh db row) (ha : row.active = true) :
    assign cfg clk db row none = pickLocker cfg clk db row none := by
  unfold assign
  rw [if_neg (by simp [ha]), h.unfound]

/-- The locker that the event hands out replaces the link of the new card; the release
of an inactive card clears it. -/
theorem placed_resettled (h : Sound ∅ db) (hf : findByCard db val.cardCode = none)
    (hr : Resettled cfg clk db val) :
    Sound ∅ (placed cfg clk (insert db val) (inserted val (db.employees.last+1))) := by
  have hfr := insert_fresh h hf
  unfold placed
  dsimp only
  refine sound_of_sides ?_ (sides_refresh_expiry cfg clk _)
  unfold Resettled at hr
  cases ha : val.active with
  | true =>
    rw [ha] at hr
    obtain ⟨he,has,locker,hal⟩ := hr
    have hw : wanted cfg clk (inserted val (db.employees.last+1)) = true := by
      simp [wanted,inserted,Employee.isExpired,ha,he,has]
    have hav : findAvailable cfg (insert db val)
        (lockerTypeFor (inserted val (db.employees.last+1)))
        (inserted val (db.employees.last+1)).gender none = .ok locker := hal
    have hp : pickLocker cfg clk (insert db val)
        (inserted val (db.employees.last+1)) none =
        giveLocker clk (insert db val) (inserted val (db.employees.last+1)) locker := by
      unfold pickLocker
      rw [hav]
    rw [if_neg (by simp [inserted,ha]), if_pos hw, assign_fresh_row cfg clk hfr ha, hp]
    exact sound_give clk hfr.sound ⟨_,hfr.owner⟩ (find_available_place hav) hfr.unheld
  | false =>
    rw [ha] at hr
    have hu : wanted cfg clk (inserted val (db.employees.last+1)) = false := by
      simp [wanted,inserted,ha]
    have hrl : releases cfg = true := by simpa using hr
    rw [if_pos (by simp [inserted,ha,hrl]), if_neg (by simp [hu])]
    exact sound_release_unheld hfr.sound hfr.found hfr.unfound hfr.unheld

theorem placed_unsettled (h : Sound ∅ db) (hf : findByCard db val.cardCode = none)
    (hr : ¬Resettled cfg clk db val) :
    sides (placed cfg clk (insert db val)
      (inserted val (db.employees.last+1))) = sides (insert db val) := by
  have hfr := insert_fresh h hf
  unfold placed
  dsimp only
  rw [sides_refresh_expiry]
  unfold Resettled at hr
  cases ha : val.active with
  | true =>
    rw [ha,if_pos rfl] at hr
    rw [if_neg (by simp [inserted,ha])]
    split_ifs with hw
    · simp only [wanted,inserted,Employee.isExpired,Bool.and_eq_true,Bool.not_eq_true'] at hw
      rw [assign_fresh_row cfg clk hfr ha]
      unfold pickLocker
      cases hav : findAvailable cfg (insert db val)
          (lockerTypeFor (inserted val (db.employees.last+1)))
          (inserted val (db.employees.last+1)).gender none with
      | error why => rfl
      | ok locker => exact absurd ⟨hw.1.2,hw.2,locker,hav⟩ hr
    · rfl
  | false =>
    rw [ha,if_neg (by simp)] at hr
    rw [if_neg (by simp [inserted,ha,hr]), if_neg (by simp [wanted,inserted,ha])]

variable {rec : Record}

theorem sound_merge (h : Sound ∅ db) (hd : ¬Dangling cfg clk db rec) :
    Sound ∅ (merge cfg clk db rec).db := by
  unfold merge
  cases hu : upsert clk db rec with
  | error why => exact h
  | ok u =>
    obtain ⟨hm,⟨hs,_⟩ | ⟨val,hv,hf,rfl⟩⟩ := upsert_cases hu
    · exact sound_placed cfg clk (sound_of_sides h hs) ((coded_iff u.db _ _).mpr ⟨u.row,hm,rfl,rfl⟩)
    · dsimp only
      by_cases hr : Resettled cfg clk db val
      · exact placed_resettled cfg clk h hf hr
      · -- nothing replaces the link, but the record carried none
        have hn : val.lockerId = none := by
          by_contra hl
          exact hd ⟨val,hv,hf,hl,hr⟩
        have hfr := insert_fresh h hf
        refine sound_of_sides ⟨hfr.sound.agrees.resume hfr.owner ?_,hfr.sound.normal⟩
          (placed_unsettled cfg clk h hf hr)
        intro p
        constructor
        · intro hp
          exact nomatch hn.symm.trans hp
        · exact fun hp => absurd hp (hfr.unheld p)

/-- The locker number of a new card stays on its row although no locker has the card. -/
theorem merge_dangling (h : Sound ∅ db) (hd : Dangling cfg clk db rec) :
    Broken (merge cfg clk db rec).db := by
  obtain ⟨val,hv,hf,hln,hr⟩ := hd
  have hfr := insert_fresh h hf
  obtain ⟨lockerId,hl⟩ := ne_none_iff_exists'.mp hln
  have hm : (merge cfg clk db rec).db =
      placed cfg clk (insert db val) (inserted val (db.employees.last+1)) := by
    simp [merge,upsert,hv,hf]
  rw [hm]
  unfold Broken
  rw [placed_unsettled cfg clk h hf hr]
  refine ⟨_,_,_,lockerId,hfr.owner,?_⟩
  exact fun hi => hfr.unheld lockerId (hi.mp hl)

theorem sides_revoke (db : Db) (card : Text) :
    (releases cfg = false ∧ sides (revoke cfg db card) = sides db) ∨
      (releases cfg = true ∧ revoke cfg db card = (release (deactivate db card) card).db) := by
  unfold revoke
  cases releases cfg with
  | false => exact .inl ⟨rfl,sides_deactivate_card db card⟩
  | true => exact .inr ⟨rfl,rfl⟩

theorem misspelt_deactivate (db : Db) (card code : Text) :
    Misspelt (deactivate db card) code ↔ Misspelt db code := by
  rw [misspelt_iff,misspelt_iff,sides_deactivate_card]

/-- An event keeps the relation two-sided: a revoked card is spelt as it is stored, and
a new card does not keep the locker number of its record. -/
def KeepsLink (config : Config) (events : EventNames) (clock : Clock) (db : Db) (name : Text)
    (data : Option Record) : Prop :=
  ∀ kind record cardCode, eventKind events name = some kind → data = some record →
    record.cardCode = some cardCode →
      (kind = .revoked → releases config = true → ¬Misspelt db cardCode) ∧
      (kind ≠ .revoked → ¬Dangling config clock db record)

variable {events : EventNames} {name : Text}

theorem keeps_link_iff (db : Db) {kind : EventKind} (hk : eventKind events name = some kind)
    (hc : rec.cardCode = some card) :
    KeepsLink cfg events clk db name (some rec) ↔
      (kind = .revoked → releases cfg = true → ¬Misspelt db card) ∧
      (kind ≠ .revoked → ¬Dangling cfg clk db rec) := by
  constructor
  · intro h
    exact h kind rec card hk rfl hc
  · intro h kind' record' cardCode' hk' hr' hc'
    obtain rfl := some.inj hr'
    obtain rfl := some.inj (hk.symm.trans hk')
    obtain rfl := some.inj (hc.symm.trans hc')
    exact h

/-- What an event does: nothing, a revocation or a merge. -/
theorem on_event_cases (events : EventNames) (clk : Clock) (db : Db) (name : Text)
    (data : Option Record) :
    ((onEvent cfg events clk db name data).db = db ∧
        KeepsLink cfg events clk db name data) ∨
      (∃ cardCode, (onEvent cfg events clk db name data).db = revoke cfg db cardCode ∧
        (KeepsLink cfg events clk db name data ↔ (releases cfg = true → ¬Misspelt db cardCode))) ∨
      ∃ record, (onEvent cfg events clk db name data).db =
          (merge cfg clk db record).db ∧
        (KeepsLink cfg events clk db name data ↔ ¬Dangling cfg clk db record) := by
  unfold onEvent
  cases hk : eventKind events name with
  | none => exact .inl ⟨rfl,fun _ _ _ hk' => nomatch hk.symm.trans hk'⟩
  | some kind =>
    cases data with
    | none => exact .inl ⟨rfl,fun _ _ _ _ hd => nomatch hd⟩
    | some record =>
      dsimp only
      cases hc : record.cardCode with
      | none =>
        refine .inl ⟨rfl,?_⟩
        intro _ _ _ _ hr' hc'
        rw [← some.inj hr',hc] at hc'
        exact nomatch hc'
      | some cardCode =>
        have hi := keeps_link_iff cfg clk db hk hc
        cases kind with
        | revoked => exact .inr (.inl ⟨cardCode,rfl,by simp [hi]⟩)
        | created => exact .inr (.inr ⟨record,rfl,by simp [hi]⟩)
        | updated => exact .inr (.inr ⟨record,rfl,by simp [hi]⟩)

variable {cfg} {data : Option Record}

theorem sound_on_event {clk : Clock} (h : Sound ∅ db)
    (hk : KeepsLink cfg events clk db name data) :
    Sound ∅ (onEvent cfg events clk db name data).db := by
  rcases on_event_cases cfg _ clk db name data with
    ⟨hdb,_⟩ | ⟨card,hdb,hi⟩ | ⟨rec,hdb,hi⟩
  · rw [hdb]
    exact h
  · rw [hdb]
    rcases sides_revoke cfg db card with ⟨_,hs⟩ | ⟨hr,hrv⟩
    · exact sound_of_sides h hs
    · rw [hrv]
      apply sound_release_spelt (sound_of_sides h (sides_deactivate_card db card))
      rw [misspelt_deactivate]
      exact hi.mp hk hr
  · rw [hdb]
    exact sound_merge cfg clk h (hi.mp hk)

theorem on_event_broken {clk : Clock} (h : Sound ∅ db)
    (hk : ¬KeepsLink cfg events clk db name data) :
    Broken (onEvent cfg events clk db name data).db := by
  rcases on_event_cases cfg _ clk db name data with
    ⟨_,hkp⟩ | ⟨card,hdb,hi⟩ | ⟨rec,hdb,hi⟩
  · exact absurd hkp hk
  · rw [hi,not_forall,not_not] at hk
    obtain ⟨hr,hm⟩ := hk
    rw [hdb]
    rcases sides_revoke cfg db card with ⟨hr',_⟩ | ⟨_,hrv⟩
    · rw [hr] at hr'
      exact nomatch hr'
    · rw [hrv]
      apply release_misspelt (sound_of_sides h (sides_deactivate_card db card))
      rwa [misspelt_deactivate]
  · rw [hi,not_not] at hk
    rw [hdb]
    exact merge_dangling cfg clk h hk

end EMaster.SyncEvents
