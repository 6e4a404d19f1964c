import EMaster.Calls
import EMaster.Json
import EMaster.PasswordChange

/-!
# Changing and deleting users

The handlers of one user look the user up, count the administrators where the request could take
one away, and then change the store. Each of these takes the store's lock for itself.
-/

set_option autoImplicit false

namespace EMaster.UserAdmin
open Runs Calls KeyedTable Permissions SecurityStore
open PasswordChange (demoCrypto demoStore)

inductive StoreOp where
  | findUserById (userId : ℕ)
  | countAdmins
  | deleteUser (userId : ℕ)
  | updateRole (userId : ℕ) (role : Role)
  | updateEnabled (userId : ℕ) (enabled : Bool)
  | updatePassword (userId : ℕ) (hash : Text)
  | revokeAllForUser (userId : ℕ)

def Answer : StoreOp → Type
  | .findUserById _ => Option Account
  | .countAdmins => ℕ
  | .deleteUser _ => Except Text Unit
  | .updateRole _ _ => Bool
  | .updateEnabled _ _ => Bool
  | .updatePassword _ _ => Except Text Unit
  | .revokeAllForUser _ => Unit

structure Moment where
  db : Database
  now : ℤ

def perform (m : Moment) (store : Store) : (op : StoreOp) → Store×Answer op
  | .findUserById userId => (store,SecurityStore.findUserById m.db store userId)
  | .countAdmins => (store,SecurityStore.countAdmins m.db store)
  | .deleteUser userId => SecurityStore.deleteUser m.db store userId
  | .updateRole userId role => SecurityStore.updateRole m.db store userId role
  | .updateEnabled userId enabled => SecurityStore.updateEnabled m.db store userId enabled
  | .updatePassword userId hash => SecurityStore.updatePassword m.db m.now store userId hash
  | .revokeAllForUser userId => (SecurityStore.revokeAllForUser m.db store userId,())

/-! ## Checks of the request -/

inductive Charset where
  | identifier
  | any

def Charset.allows : Charset → Char → Bool
  | .identifier, c => c.isAlpha || c.isDigit || c = '.' || c = '_' || c = '-'
  | .any, _ => true

def byteLength (text : Text) : ℕ := (text.map Char.utf8Size).sum

def stringField (parent : Json) (field : Text) (least most : ℕ) (charset : Charset) :
    Except Text Text :=
  match parent.field field with
  | none => .error "is required"
  | some .null => .error "is required"
  | some (.str value) =>
    if byteLength value < least ∨ most < byteLength value then
      .error ("must be "++Text.ofNat least++"-"++Text.ofNat most++
        " characters")
    else if value.all (fun c => 128 ≤ c.toNat || charset.allows c) then .ok value
    else .error "contains a disallowed character"
  | some _ => .error "must be a string"

def boolField (parent : Json) (field : Text) : Except Text Bool :=
  match parent.field field with
  | none => .error "is required"
  | some .null => .error "is required"
  | some (.bool value) => .ok value
  | some _ => .error "must be true or false"

def enumField (parent : Json) (field : Text) (allowed : List Text) : Except Text Text :=
  match stringField parent field 1 64 .identifier with
  | .error problem => .error problem
  | .ok value =>
    if allowed.contains value then .ok value
    else .error ("must be one of: ".toList++(", ".toList).intercalate allowed)

def jsonObject (codec : Json.Codec) (body : Text) (maxBytes : ℕ) : Except Text Json :=
  if maxBytes < byteLength body then
    .error ("request body exceeds "++Text.ofNat maxBytes++" bytes")
  else if body = [] then .ok (.obj [])
  else
    match codec.parse body with
    | .error _ => .error "body is not valid JSON"
    | .ok value =>
      if value.isObject then .ok value else .error "body must be a JSON object"

/-! ## The handlers -/

inductive Response where
  | error (status : ℕ) (error : Text)
  | useSelfService
  | validationFailed (fields : List (Text×Text))
  | deleted
  | updated (account : Account)
  -- the user is read back and used without a look whether there is one
  | undefined

abbrev UserCall := Call StoreOp Answer Response

/-- The condition is asked first; the administrators are counted only where it holds. -/
def unlessLastAdmin (asks : Bool) (next : UserCall) : UserCall :=
  if asks then
    .ask .countAdmins fun (count : ℕ) =>
      if count ≤ 1 then .done (.error 400 "LAST_ADMIN") else next
  else next

variable (target : Account)

def isAdminRole : Bool := storedRole target.role = .kAdmin

def deleteHandler (caller : Text) (target : Account) : UserCall :=
  if target.username = caller then .done (.error 400 "CANNOT_DELETE_SELF")
  else
    unlessLastAdmin (isAdminRole target)
      (.ask (.deleteUser target.id) fun (result : Except Text Unit) =>
        match result with
        | .error _ => .done (.error 500 "INTERNAL_ERROR")
        | .ok () => .ask (.revokeAllForUser target.id) fun _ => .done .deleted)

def setRole (userId : ℕ) (role : Role) (next : UserCall) : UserCall :=
  .ask (.updateRole userId role) fun (ok : Bool) =>
    if ok then .ask (.revokeAllForUser userId) fun _ => next else next

def setEnabled (userId : ℕ) (enabled : Bool) (next : UserCall) : UserCall :=
  .ask (.updateEnabled userId enabled) fun (ok : Bool) =>
    if ok && !enabled then .ask (.revokeAllForUser userId) fun _ => next else next

variable (crypto : Crypto)

def setPassword (userId : ℕ) (password salt : Text)
    (next : Except Text Unit → UserCall) : UserCall :=
  let hash := (crypto.str salt password).getD []
  if hash = [] then next (.error "could not hash the password")
  else
    .ask (.updatePassword userId hash) fun (result : Except Text Unit) =>
      match result with
      | .error error => next (.error error)
      | .ok () => .ask (.revokeAllForUser userId) fun _ => next (.ok ())

abbrev Problems := List (Text×Text)

def roleNames : List Text := ["ADMIN","OPERATOR","USER"]

def patchRole (body : Json) (next : Problems → UserCall) : UserCall :=
  if (body.field "role").isNone then next []
  else
    match enumField body "role" roleNames with
    | .error problem => next [("role",problem)]
    | .ok name =>
      unlessLastAdmin (isAdminRole target && roleFromName name ≠ .kAdmin)
        (setRole target.id (roleFromName name) (next []))

def patchEnabled (body : Json) (problems : Problems) (next : Problems → UserCall) : UserCall :=
  if (body.field "enabled").isNone then next problems
  else
    match boolField body "enabled" with
    | .error problem => next (problems++[("enabled".toList,problem)])
    | .ok enabled =>
      unlessLastAdmin (!enabled && isAdminRole target)
        (setEnabled target.id enabled (next problems))

def patchPassword (salt caller : Text) (target : Account) (body : Json)
    (problems : Problems) (next : Problems → UserCall) : UserCall :=
  if (body.field "password").isNone then next problems
  else if target.username = caller then .done .useSelfService
  else
    match stringField body "password" 12 256 .any with
    | .error problem => next (problems++[("password".toList,problem)])
    | .ok password =>
      setPassword crypto target.id password salt fun result =>
        match result with
        | .error _ => .done (.error 500 "INTERNAL_ERROR")
        | .ok () => next problems

def patchHandler (codec : Json.Codec) (salt caller : Text) (target : Account)
    (text : Text) : UserCall :=
  match jsonObject codec text 8192 with
  | .error _ => .done (.error 400 "INVALID_REQUEST")
  | .ok body =>
    patchRole target body fun problems =>
      patchEnabled target body problems fun problems =>
        patchPassword crypto salt caller target body problems fun problems =>
          if problems ≠ [] then .done (.validationFailed problems)
          else
            .ask (.findUserById target.id) fun (updated : Option Account) =>
              match updated with
              | some account => .done (.updated account)
              | none => .done .undefined

inductive Method where
  | delete
  | patch (body : Text)

def handle (codec : Json.Codec) (salt caller : Text) (userId : ℕ) (method : Method) : UserCall :=
  .ask (.findUserById userId) fun (target : Option Account) =>
    match target with
    | none => .done (.error 404 "NOT_FOUND")
    | some target =>
      match method with
      | .delete => deleteHandler caller target
      | .patch body => patchHandler crypto codec salt caller target body

/-! ## Administrators that are left -/

def administrator (account : Account) : Bool := storedRole account.role = .kAdmin && account.enabled

def Administered (store : Store) : Prop :=
  ∃ account ∈ store.accounts.rows, administrator account = true

def OtherAdmin (store : Store) (userId : ℕ) : Prop :=
  ∃ account ∈ store.accounts.rows, administrator account = true ∧ account.id ≠ userId

/-- Every administrator stays one. -/
def Grows (old new : Store) : Prop := ∀ account ∈ old.accounts.rows, administrator account = true →
  ∃ kept ∈ new.accounts.rows, administrator kept = true ∧ kept.id = account.id

/-- The operations that take the rights of an administrator from a user. -/
def Removes : StoreOp → Prop
  | .deleteUser _ => True
  | .updateRole _ role => role ≠ .kAdmin
  | .updateEnabled _ enabled => enabled = false
  | _ => False

variable (m : Moment) {store new : Store} {userId : ℕ}

theorem Grows.refl (store : Store) : Grows store store := fun account hm ha => ⟨account,hm,ha,rfl⟩

theorem Grows.trans {old : Store} (h : Grows old store) (h' : Grows store new) :
    Grows old new := by
  intro account hm ha
  obtain ⟨kept,hk,hka,hid⟩ := h account hm ha
  obtain ⟨last,hl,hla,hlid⟩ := h' kept hk hka
  exact ⟨last,hl,hla,hlid.trans hid⟩

theorem Grows.administered (hg : Grows store new) (h : Administered store) : Administered new := by
  obtain ⟨acc,hm,ha⟩ := h
  obtain ⟨kept,hk,hka,_⟩ := hg acc hm ha
  exact ⟨kept,hk,hka⟩

theorem Grows.other (hg : Grows store new) (h : OtherAdmin store userId) :
    OtherAdmin new userId := by
  obtain ⟨acc,hm,ha,ho⟩ := h
  obtain ⟨kept,hk,hka,hid⟩ := hg acc hm ha
  exact ⟨kept,hk,hka,hid ▸ ho⟩

theorem other_administered (h : OtherAdmin store userId) : Administered store := by
  obtain ⟨acc,hm,ha,_⟩ := h
  exact ⟨acc,hm,ha⟩

section Patches
variable {f : Account → Account} (hf : ∀ row, (f row).id = row.id)

theorem other_patch (h : OtherAdmin store userId) :
    OtherAdmin (store.patch userId f hf) userId := by
  obtain ⟨acc,hm,ha,ho⟩ := h
  exact ⟨acc,mem_modify_other _ _ hf hm ho,ha,ho⟩

theorem grows_patch (hk : ∀ row, administrator row = true → administrator (f row) = true) :
    Grows store (store.patch userId f hf) := by
  intro acc hm ha
  refine ⟨patchRow Account.id userId f acc,(mem_modify _ _ hf _).mpr ⟨acc,hm,rfl⟩,?_,
    patch_row_key userId f hf acc⟩
  rw [patchRow]
  split_ifs
  · exact hk acc ha
  · exact ha

end Patches

theorem revoke_accounts (db : Database) (store : Store) (uid : ℕ) :
    (revokeAllForUser db store uid).accounts = store.accounts := by
  rw [revokeAllForUser]
  split_ifs <;> rfl

theorem revoke_grows (db : Database) (uid : ℕ) : Grows store (revokeAllForUser db store uid) := by
  rw [Grows,revoke_accounts]
  exact Grows.refl store

theorem password_grows (hash : Text) :
    Grows store (updatePassword m.db m.now store userId hash).1 := by
  rw [updatePassword]
  split_ifs
  · exact Grows.refl store
  · exact Grows.refl store
  · exact grows_patch _ fun _ hr => hr

theorem perform_grows (op : StoreOp) (h : ¬Removes op) : Grows store (perform m store op).1 := by
  cases op with
  | findUserById uid => exact Grows.refl store
  | countAdmins => exact Grows.refl store
  | deleteUser uid => exact absurd trivial h
  | updateRole uid role =>
    obtain rfl : role = .kAdmin := not_not.mp h
    rw [perform,updateRole]
    by_cases hn : Role.kAdmin = .kCount ∨ m.db.isOpen = false ∨ m.db.runs .setRole = false
    · rw [if_pos hn]
      exact Grows.refl store
    · rw [if_neg hn]
      refine grows_patch _ fun row hr => ?_
      simp only [administrator,Bool.and_eq_true,decide_eq_true_eq] at hr ⊢
      exact ⟨by decide,hr.2⟩
  | updateEnabled uid enabled =>
    obtain rfl : enabled = true := Bool.eq_true_of_not_eq_false h
    rw [perform,updateEnabled]
    split_ifs
    · exact Grows.refl store
    · refine grows_patch _ fun row hr => ?_
      simp only [administrator,Bool.and_eq_true] at hr ⊢
      exact ⟨hr.1,trivial⟩
  | updatePassword uid hash => exact password_grows m hash
  | revokeAllForUser uid => exact revoke_grows m.db uid

theorem delete_other (h : OtherAdmin store userId) :
    OtherAdmin (deleteUser m.db store userId).1 userId := by
  rw [deleteUser]
  split_ifs
  · exact h
  · exact h
  · obtain ⟨acc,hm,ha,ho⟩ := h
    exact ⟨acc,List.mem_filter.mpr ⟨hm,decide_eq_true ho⟩,ha,ho⟩

theorem role_other (role : Role) (h : OtherAdmin store userId) :
    OtherAdmin (updateRole m.db store userId role).1 userId := by
  rw [updateRole]
  split_ifs
  · exact h
  · exact other_patch _ h

theorem enabled_other (enabled : Bool) (h : OtherAdmin store userId) :
    OtherAdmin (updateEnabled m.db store userId enabled).1 userId := by
  rw [updateEnabled]
  split_ifs
  · exact h
  · exact other_patch _ h

/-- Of two administrators that are counted, one is another than the user. -/
theorem counted_other (h : ¬countAdmins m.db store ≤ 1) : OtherAdmin store userId := by
  rw [countAdmins] at h
  split_ifs at h
  · by_contra hn
    have hid : ∀ acc ∈ store.accounts.rows.filter isAdmin, acc.id = userId := by
      intro acc hacc
      obtain ⟨hm,ha⟩ := List.mem_filter.mp hacc
      by_contra ho
      simp only [isAdmin,Bool.and_eq_true,decide_eq_true_eq] at ha
      refine hn ⟨acc,hm,?_,ho⟩
      rw [administrator,ha.1,ha.2]
      decide
    rw [List.countP_eq_length_filter,← List.length_map Account.id,
      List.map_eq_replicate_iff.mpr hid,List.length_replicate] at h
    have hd : ((store.accounts.rows.filter isAdmin).map Account.id).Nodup :=
      store.accounts.nodup.sublist (List.filter_sublist.map _)
    rw [List.map_eq_replicate_iff.mpr hid] at hd
    exact h (List.nodup_replicate.mp hd)
  · exact absurd (Nat.zero_le 1) h

/-! ## Each request on its own -/

variable {target : Account} {next : UserCall}

abbrev SafeCall : UserCall → Store → Prop := Safe perform Grows Administered

/-- There is an administrator and, if the user was none when looked up, another one. -/
def Ready (target : Account) (store : Store) : Prop :=
  Administered store ∧ (isAdminRole target = false → OtherAdmin store target.id)

theorem other_ready (h : OtherAdmin store target.id) : Ready target store :=
  ⟨other_administered h,fun _ => h⟩

theorem Grows.ready (hg : Grows store new) (h : Ready target store) : Ready target new :=
  ⟨hg.administered h.1,fun hn => hg.other (h.2 hn)⟩

/-- A user that the store has and that is no administrator leaves one besides. -/
theorem found_ready (db : Database) (h : Administered store)
    (hg : findUserById db store userId = some target) : Ready target store := by
  refine ⟨h,fun hn => ?_⟩
  obtain ⟨acc,hm,ha⟩ := h
  refine ⟨acc,hm,ha,fun hid => ?_⟩
  rw [findUserById] at hg
  split_ifs at hg
  have hx := key_injective store.accounts acc hm ((get_some _ _ _).mp hg).1 hid
  rw [hx,administrator,show decide (storedRole target.role = .kAdmin) = false from hn] at ha
  cases ha

theorem safe_unless_last (asks : Bool) (hr : Administered store)
    (hn : asks = false → SafeCall next store)
    (h : ∀ store, OtherAdmin store target.id → SafeCall next store) :
    SafeCall (unlessLastAdmin asks next) store := by
  rw [unlessLastAdmin]
  cases asks with
  | false => exact hn rfl
  | true =>
    intro m t hg
    refine ⟨hg.administered hr,?_⟩
    change SafeCall (if countAdmins m.db t ≤ 1 then _ else next) t
    split_ifs with hc
    · trivial
    · exact h t (counted_other m hc)

theorem safe_revoke (uid : ℕ) (hr : Ready target store)
    (h : ∀ store, Ready target store → SafeCall next store) :
    SafeCall (.ask (.revokeAllForUser uid) fun _ => next) store := by
  intro m t hg
  have ht := (revoke_grows m.db uid).ready (hg.ready hr)
  exact ⟨ht.1,h _ ht⟩

/-- A change after which the request is still ready, followed by a revocation or not. -/
theorem safe_change (op : StoreOp) (revokes : Answer op → Bool) (uid : ℕ)
    (hop : ∀ m t, Grows store t → Ready target (perform m t op).1)
    (h : ∀ store, Ready target store → SafeCall next store) :
    SafeCall (.ask op fun answer => if revokes answer then
      .ask (.revokeAllForUser uid) fun _ => next else next) store := by
  intro m t hg
  refine ⟨(hop m t hg).1,?_⟩
  dsimp only
  split_ifs
  · exact safe_revoke uid (hop m t hg) h
  · exact h _ (hop m t hg)

theorem delete_safe (caller : Text) (hr : Ready target store) :
    SafeCall (deleteHandler caller target) store := by
  have hd : ∀ store, OtherAdmin store target.id → SafeCall
      (.ask (.deleteUser target.id) fun (result : Except Text Unit) =>
        match result with
        | .error _ => .done (.error 500 "INTERNAL_ERROR")
        | .ok () => .ask (.revokeAllForUser target.id) fun _ => .done .deleted) store := by
    intro store ho m t hg
    have ht := delete_other m (hg.other ho)
    refine ⟨other_administered ht,?_⟩
    dsimp only
    split
    · trivial
    · exact safe_revoke _ (other_ready ht) fun _ _ => trivial
  rw [deleteHandler]
  split_ifs
  · trivial
  · exact safe_unless_last _ hr.1 (fun hn => hd store (hr.2 hn)) hd

/-- A change that leaves the other administrators alone, made unless it would take the last one. -/
theorem safe_guarded (op : StoreOp) (revokes : Answer op → Bool) (asks : Bool)
    (hr : Ready target store)
    (ho : ∀ m t, OtherAdmin t target.id → OtherAdmin (perform m t op).1 target.id)
    (hn : asks = false → ∀ m t, Grows store t → Ready target (perform m t op).1)
    (h : ∀ store, Ready target store → SafeCall next store) :
    SafeCall (unlessLastAdmin asks (.ask op fun answer => if revokes answer then
      .ask (.revokeAllForUser target.id) fun _ => next else next)) store :=
  safe_unless_last asks hr.1 (fun ha => safe_change op revokes target.id (hn ha) h) fun _ hs =>
    safe_change op revokes target.id (fun m t hg => other_ready (ho m t (hg.other hs))) h

theorem patch_role_safe {next : Problems → UserCall} (body : Json) (hr : Ready target store)
    (h : ∀ problems store, Ready target store → SafeCall (next problems) store) :
    SafeCall (patchRole target body next) store := by
  rw [patchRole]
  split_ifs
  · exact h _ _ hr
  · split
    · exact h _ _ hr
    · refine safe_guarded (.updateRole target.id _) id _ hr (fun m _ => role_other m _)
        (fun hn m t hg => ?_) (h [])
      rcases Bool.and_eq_false_iff.mp hn with ha | ha
      · exact other_ready (role_other m _ (hg.other (hr.2 ha)))
      · -- an administrator stays one
        exact (perform_grows m (.updateRole _ _) (fun hne => of_decide_eq_false ha hne)).ready
          (hg.ready hr)

theorem patch_enabled_safe {next : Problems → UserCall} (body : Json) (problems : Problems)
    (hr : Ready target store)
    (h : ∀ problems store, Ready target store → SafeCall (next problems) store) :
    SafeCall (patchEnabled target body problems next) store := by
  rw [patchEnabled]
  split_ifs
  · exact h _ _ hr
  · split
    · exact h _ _ hr
    · rename_i enabled _
      refine safe_guarded (.updateEnabled target.id enabled) (fun ok : Bool => ok && !enabled) _ hr
        (fun m _ => enabled_other m _) (fun hn m t hg => ?_) (h problems)
      rcases Bool.and_eq_false_iff.mp hn with ha | ha
      · refine (perform_grows m (.updateEnabled _ _) fun he => ?_).ready (hg.ready hr)
        rw [show enabled = false from he] at ha
        cases ha
      · exact other_ready (enabled_other m _ (hg.other (hr.2 ha)))

theorem patch_password_safe {next : Problems → UserCall} (salt caller : Text) (body : Json)
    (problems : Problems) (hr : Ready target store)
    (h : ∀ problems store, Ready target store → SafeCall (next problems) store) :
    SafeCall (patchPassword crypto salt caller target body problems next) store := by
  rw [patchPassword]
  split_ifs
  · exact h _ _ hr
  · trivial
  · split
    · exact h _ _ hr
    · rw [setPassword]
      dsimp only
      split_ifs
      · trivial
      · intro m t hg
        have ht : ∀ hash, Ready target (perform m t (.updatePassword target.id hash)).1 :=
          fun hash => (password_grows m hash).ready (hg.ready hr)
        refine ⟨(ht _).1,?_⟩
        dsimp only
        split
        · trivial
        · exact safe_revoke _ (ht _) (h problems)

theorem patch_safe (codec : Json.Codec) (salt caller text : Text) (hr : Ready target store) :
    SafeCall (patchHandler crypto codec salt caller target text) store := by
  rw [patchHandler]
  split
  · trivial
  · refine patch_role_safe _ hr fun _ _ hr => patch_enabled_safe _ _ hr fun _ _ hr =>
      patch_password_safe crypto _ _ _ _ hr fun problems store hr => ?_
    split_ifs
    · trivial
    · intro m t hg
      refine ⟨hg.administered hr.1,?_⟩
      dsimp only
      split <;> trivial

structure Request where
  (salt caller : Text)
  userId : ℕ
  method : Method

def Request.call (crypto : Crypto) (codec : Json.Codec) (r : Request) : UserCall :=
  handle crypto codec r.salt r.caller r.userId r.method

theorem request_safe (codec : Json.Codec) (r : Request) (h : Administered store) :
    SafeCall (r.call crypto codec) store := by
  intro m t hg
  refine ⟨hg.administered h,?_⟩
  dsimp only
  split
  · trivial
  · rename_i target hf
    have hr := found_ready m.db (hg.administered h) hf
    cases r.method with
    | delete => exact delete_safe _ hr
    | patch body => exact patch_safe crypto codec _ _ _ hr

inductive Arrival where
  | request (r : Request)
  | turn (i : ℕ) (m : Moment)

def Arrival.event (crypto : Crypto) (codec : Json.Codec) :
    Arrival → Event Moment StoreOp Answer Response
  | .request r => .start (r.call crypto codec)
  | .turn i m => .turn i m

/-- A deletion, demotion or disabling is carried out while every other request is over or has not
yet looked up its user. -/
def InTurn (crypto : Crypto) (codec : Json.Codec) : Sys Store StoreOp Answer Response →
    Event Moment StoreOp Answer Response → Prop :=
  Alone (fun op => ¬Removes op) fun call => ∃ r : Request, call = r.call crypto codec

/-- Along every interleaving of requests that change or delete users in which the operations that
take an administrator's rights are in turn, an enabled administrator is left. -/
theorem admin_left (crypto : Crypto) (codec : Json.Codec) (store : Store)
    (past rest : List Arrival) (h : Administered store)
    (hm : Meets (Calls.step perform) (InTurn crypto codec) ⟨store,[]⟩
      ((past++rest).map (Arrival.event crypto codec))) :
    Administered (run (Calls.step perform) ⟨store,[]⟩
      (past.map (Arrival.event crypto codec))).state := by
  rw [List.map_append] at hm
  have ht : ∀ r s t, Grows r s → Grows s t → Grows r t := fun _ _ _ => Grows.trans
  have hq : ∀ m store op, ¬Removes op → Grows store (perform m store op).1 :=
    fun m store op => perform_grows m op
  have hf : ∀ call store, (∃ r : Request, call = r.call crypto codec) → Administered store →
      SafeCall call store := by
    rintro call store ⟨r,rfl⟩ hs
    exact request_safe crypto codec r hs
  refine alone_keeps ht Grows.refl hq hf _ _ ?_ h
    (fun call hc => absurd hc List.not_mem_nil) hm
  intro call hc
  obtain ⟨arrival,_,ha⟩ := List.mem_map.mp hc
  cases arrival with
  | request r => exact ⟨r,(Event.start.inj ha).symm⟩
  | turn i m => cases ha

/-! ## Two administrators who delete each other -/

def demoCodec : Json.Codec := ⟨fun _ => .ok (.obj []),fun _ => .ok (.obj []),fun _ => []⟩

def twoAdmins : Store where
  accounts := ⟨[⟨1,"anna","ADMIN",true,0,[],0,false,0⟩,
    ⟨2,"bert","ADMIN",true,0,[],0,false,0⟩],2,by simp,by simp⟩
  sessions := demoStore.sessions
  failures := []

def deletion (caller : Text) (userId : ℕ) : Arrival := .request ⟨[],caller,userId,.delete⟩

/-- Both requests wait; the second is served after the first and refused. -/
def oneByOne : List Arrival :=
  [deletion "anna" 2,deletion "bert" 1]++
    [0,0,0,0,1,1].map fun i => .turn i ⟨.ready,100⟩

theorem admin_left_one_by_one :
    Administered twoAdmins ∧ Administered (run (Calls.step perform) ⟨twoAdmins,[]⟩
      (oneByOne.map (Arrival.event demoCrypto demoCodec))).state := by
  have hl : Administered twoAdmins := ⟨_,List.mem_cons_self,by decide⟩
  have hw : ∀ (s : Sys Store StoreOp Answer Response) first m,
      s.calls = [first,Request.call demoCrypto demoCodec ⟨[],"bert",1,.delete⟩] →
        InTurn demoCrypto demoCodec s (.turn 0 m) := by
    intro s first m hs op next _ _ j call hj hc
    rw [hs] at hc
    rcases j with _ | _ | j
    · exact absurd rfl hj
    · exact .inr ⟨_,(Option.some.inj hc).symm⟩
    · cases hc
  have hd : ∀ (s : Sys Store StoreOp Answer Response) second m,
      s.calls = [.done .deleted,second] → InTurn demoCrypto demoCodec s (.turn 1 m) := by
    intro s second m hs op next _ _ j call hj hc
    rw [hs] at hc
    rcases j with _ | _ | j
    · exact .inl ⟨_,(Option.some.inj hc).symm⟩
    · exact absurd rfl hj
    · cases hc
  exact ⟨hl,admin_left demoCrypto demoCodec twoAdmins oneByOne [] hl
    ⟨trivial,trivial,hw _ _ _ rfl,hw _ _ _ rfl,hw _ _ _ rfl,hw _ _ _ rfl,hd _ _ _ rfl,
      hd _ _ _ rfl,trivial⟩⟩

def crossed : List Arrival :=
  [deletion "anna" 2,deletion "bert" 1]++
    [0,1,0,1,0,1].map fun i => .turn i ⟨.ready,100⟩

theorem crossed_deletions_leave_none :
    twoAdmins.accounts.rows.countP administrator = 2 ∧
      (run (Calls.step perform) ⟨twoAdmins,[]⟩
        (crossed.map (Arrival.event demoCrypto demoCodec))).state.accounts.rows = [] ∧
      ¬Administered (run (Calls.step perform) ⟨twoAdmins,[]⟩
        (crossed.map (Arrival.event demoCrypto demoCodec))).state := by
  have hn : (run (Calls.step perform) ⟨twoAdmins,[]⟩
      (crossed.map (Arrival.event demoCrypto demoCodec))).state.accounts.rows = [] := by
    decide +kernel
  refine ⟨by decide,hn,?_⟩
  rintro ⟨account,hm,_⟩
  rw [hn] at hm
  cases hm

end EMaster.UserAdmin
