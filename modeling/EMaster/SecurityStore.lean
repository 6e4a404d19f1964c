import EMaster.KeyedTable
import EMaster.Permissions

/-!
# The security store

Accounts, bearer sessions and failed logins are three tables of one database. Each function is
what one of the store's calls does while it holds the store's lock; the clock is read once in it.
-/

set_option autoImplicit false

namespace EMaster.SecurityStore
open KeyedTable Permissions

inductive Statement where
  | countFailures
  | latestFailure
  | findAccount
  | recordFailure
  | clearFailures
  | limitSessions
  | insertSession
  | setLastLogin
  | findSession
  | deleteSession
  | updatePassword
  | revokeAll
  | findUser
  | insertUser
  | setEnabled
  | setRole
  | countAdmins
  | deleteUser
  | purgeSessions
  deriving DecidableEq, Repr

/-- Which statements the database accepts and carries out while the lock is held. -/
structure Database where
  isOpen : Bool
  (prepares steps : Statement → Bool)

def Database.runs (db : Database) (statement : Statement) : Bool :=
  db.prepares statement && db.steps statement

structure Database.Works (db : Database) : Prop where
  isOpen : db.isOpen = true
  runs : ∀ statement, db.runs statement = true

theorem Database.Works.prepares {db : Database} (h : db.Works) (statement : Statement) :
    db.prepares statement = true :=
  (Bool.and_eq_true_iff.mp (h.runs statement)).1

def Database.ready : Database := ⟨true,fun _ => true,fun _ => true⟩

theorem ready_works : Database.ready.Works := ⟨rfl,fun _ => rfl⟩

/-- The library's functions; `str` has the salt it draws and fails without memory. -/
structure Crypto where
  str : Text → Text → Option Text
  strVerify : Text → Text → Bool
  sha256Hex : Text → Text

def kStrBytes : ℕ := 128

def verify (crypto : Crypto) (storedHash password : Text) : Bool :=
  if storedHash = [] ∨ kStrBytes ≤ storedHash.length then false
  else crypto.strVerify storedHash password

def tokenHash (crypto : Crypto) (token : Text) : Text := crypto.sha256Hex token

def roleFromName (name : Text) : Role :=
  let upper := name.map Char.toUpper
  if upper = "ADMIN" then .kAdmin
  else if upper = "OPERATOR" then .kOperator
  else if upper = "USER" then .kUser
  else if upper = "CLIENT" then .kUser
  else .kCount

def roleName : Role → Text
  | .kAdmin => "ADMIN"
  | .kOperator => "OPERATOR"
  | .kUser => "USER"
  | .kCount => "UNKNOWN"

/-- The role of a row: an unknown name has the least privilege. -/
def storedRole (name : Text) : Role :=
  if roleFromName name = .kCount then .kUser else roleFromName name

/-- A row of the users; `changes` counts the changes of its password and is in no column. -/
structure Account where
  id : ℕ
  (username role : Text)
  enabled : Bool
  lastLogin : ℤ
  passwordHash : Text
  passwordChanged : ℤ
  mustChangePassword : Bool
  changes : ℕ
  deriving DecidableEq, Repr

/-- A row of the sessions; `changes` tells which of the user's passwords it was opened with and
is in no column. -/
structure SessionRow where
  id : ℕ
  tokenHash : Text
  userId : ℕ
  (issuedAt expiresAt : ℤ)
  sourceIp : Text
  changes : ℕ
  deriving DecidableEq, Repr

structure Failure where
  (username sourceIp : Text)
  time : ℤ
  deriving DecidableEq, Repr

structure Store where
  accounts : Table Account Account.id
  sessions : Table SessionRow SessionRow.id
  failures : List Failure

def Store.patch (store : Store) (userId : ℕ) (f : Account → Account)
    (hf : ∀ row, (f row).id = row.id) : Store :=
  { store with accounts := store.accounts.modify userId f hf }

def Store.retain (store : Store) (keep : SessionRow → Bool) : Store :=
  { store with sessions := store.sessions.retain keep }

structure Session where
  (id userId : ℕ)
  username : Text
  role : Role
  (issuedAt expiresAt : ℤ)
  sourceIp : Text
  deriving DecidableEq, Repr

inductive LoginResult where
  | kOk (token : Text) (session : Session)
  | kInvalidCredentials
  | kLockedOut (remaining : ℤ)
  | kDisabled
  | kInternalError
  deriving DecidableEq, Repr

def LoginResult.isOk : LoginResult → Bool
  | .kOk _ _ => true
  | _ => false

structure LoginRequest where
  (username password sourceIp : Text)
  (maxFailedAttempts lockoutSeconds tokenLifetimeSeconds maxSessionsPerUser : ℤ)
  deriving DecidableEq, Repr

/-- Names are compared without case. -/
def sameName (a b : Text) : Bool := a.map Char.toLower = b.map Char.toLower

/-! ## Failed logins -/

def failuresSince (store : Store) (username : Text) (since : ℤ) : List Failure :=
  store.failures.filter (fun failure => sameName failure.username username && since ≤ failure.time)

def failedAttempts (db : Database) (store : Store) (username : Text) (since : ℤ) : ℤ :=
  if db.runs .countFailures then (failuresSince store username since).length else 0

def latestFailure (db : Database) (now : ℤ) (store : Store) (username : Text) (since : ℤ) : ℤ :=
  if db.runs .latestFailure then
    (((failuresSince store username since).map Failure.time).max?).getD 0
  else now

def recordFailure (db : Database) (now : ℤ) (store : Store) (username sourceIp : Text) : Store :=
  if db.runs .recordFailure then
    { store with failures := store.failures++[⟨username,sourceIp,now⟩] }
  else store

def clearFailures (db : Database) (store : Store) (username : Text) : Store :=
  if db.runs .clearFailures then
    { store with failures := store.failures.filter fun failure =>
        !sameName failure.username username }
  else store

def lockout (db : Database) (now : ℤ) (store : Store) (r : LoginRequest) : Option ℤ :=
  let windowStart := now-r.lockoutSeconds
  if 0 < r.maxFailedAttempts ∧ 0 < r.lockoutSeconds ∧
      r.maxFailedAttempts ≤ failedAttempts db store r.username windowStart then
    some (max 1 (latestFailure db now store r.username windowStart+r.lockoutSeconds-now))
  else none

/-! ## Logging in -/

def findAccount (db : Database) (store : Store) (username : Text) : Option Account :=
  if db.steps .findAccount then store.accounts.one (fun row => sameName row.username username)
  else none

def loginFind (db : Database) (now : ℤ) (store : Store) (r : LoginRequest) :
    Store×Except LoginResult Account :=
  if db.isOpen = false then (store,.error .kInternalError)
  else
    match lockout db now store r with
    | some remaining => (store,.error (.kLockedOut remaining))
    | none =>
      if db.prepares .findAccount = false then (store,.error .kInternalError)
      else
        match findAccount db store r.username with
        | some account => (store,.ok account)
        -- guessing names is limited like guessing passwords
        | none => (recordFailure db now store r.username r.sourceIp,.error .kInvalidCredentials)

/-- The sessions of a user that stay when one more is to come: the newest ones. -/
def keptSessions (store : Store) (userId : ℕ) (maxSessions : ℤ) : List ℕ :=
  let rows := store.sessions.rows.filter (fun row => row.userId = userId)
  let sorted := rows.insertionSort (fun a b => b.issuedAt ≤ a.issuedAt)
  (sorted.take (maxSessions-1).toNat).map SessionRow.id

def enforceSessionLimit (db : Database) (store : Store) (userId : ℕ) (maxSessions : ℤ) : Store :=
  if 0 < maxSessions ∧ db.runs .limitSessions = true then
    store.retain fun row =>
      row.userId ≠ userId || (keptSessions store userId maxSessions).contains row.id
  else store

/-- The row can be inserted: its token is new and its user is there. -/
def insertable (db : Database) (store : Store) (hash : Text) (userId : ℕ) : Bool :=
  db.runs .insertSession && store.sessions.rows.all (fun row => row.tokenHash ≠ hash) &&
    (store.accounts.get userId).isSome

def setLastLogin (db : Database) (now : ℤ) (store : Store) (userId : ℕ) : Store :=
  if db.runs .setLastLogin then
    store.patch userId (fun row => { row with lastLogin := now }) (fun _ => rfl)
  else store

def expiry (now : ℤ) (r : LoginRequest) : ℤ :=
  now+(if 0 < r.tokenLifetimeSeconds then r.tokenLifetimeSeconds else 1800)

def sessionRow (crypto : Crypto) (now : ℤ) (token : Text) (r : LoginRequest) (account : Account)
    (id : ℕ) : SessionRow where
  id := id
  tokenHash := tokenHash crypto token
  userId := account.id
  issuedAt := now
  expiresAt := expiry now r
  sourceIp := r.sourceIp
  changes := account.changes

def openSession (crypto : Crypto) (db : Database) (now : ℤ) (token : Text) (store : Store)
    (r : LoginRequest) (account : Account) : Store×LoginResult :=
  if token = [] then (store,.kInternalError)
  else if insertable db store (tokenHash crypto token) account.id = false then
    (store,.kInternalError)
  else
    let id := store.sessions.last+1
    let sessions := store.sessions.insert (sessionRow crypto now token r account) (fun _ => rfl)
    (setLastLogin db now { store with sessions := sessions } account.id,
      .kOk token ⟨id,account.id,account.username,storedRole account.role,now,expiry now r,
        r.sourceIp⟩)

/-- `Login` after the check of the password, with the row and the token it has. -/
def loginFinish (crypto : Crypto) (db : Database) (now : ℤ) (token : Text) (store : Store)
    (r : LoginRequest) (account : Account) : Store×LoginResult :=
  if db.isOpen = false then (store,.kInternalError)
  else if verify crypto account.passwordHash r.password = false then
    (recordFailure db now store r.username r.sourceIp,.kInvalidCredentials)
  else if account.enabled = false then
    (recordFailure db now store r.username r.sourceIp,.kDisabled)
  else
    openSession crypto db now token
      (enforceSessionLimit db (clearFailures db store r.username) account.id r.maxSessionsPerUser)
      r account

/-! ## Requests and revocation -/

def sessionOf (row : SessionRow) (account : Account) : Session :=
  ⟨row.id,row.userId,account.username,storedRole account.role,row.issuedAt,row.expiresAt,
    row.sourceIp⟩

def findSession (db : Database) (store : Store) (hash : Text) : Option (SessionRow×Account) :=
  if db.runs .findSession then
    (store.sessions.one (fun row => row.tokenHash = hash)).bind fun row =>
      (store.accounts.get row.userId).map fun account => (row,account)
  else none

def authenticate (crypto : Crypto) (db : Database) (now : ℤ) (store : Store) (token : Text) :
    Store×Option Session :=
  if token = [] ∨ db.isOpen = false then (store,none)
  else
    match findSession db store (tokenHash crypto token) with
    | none => (store,none)
    | some (row,account) =>
      if row.expiresAt ≤ now then
        (if db.runs .deleteSession then
          store.retain (fun other => other.tokenHash ≠ tokenHash crypto token) else store,none)
      else if account.enabled then (store,some (sessionOf row account))
      else (store,none)

def revokeAllForUser (db : Database) (store : Store) (userId : ℕ) : Store :=
  if db.isOpen = true ∧ db.runs .revokeAll = true then
    store.retain (fun row => row.userId ≠ userId)
  else store

def updatePassword (db : Database) (now : ℤ) (store : Store) (userId : ℕ) (hash : Text) :
    Store×Except Text Unit :=
  if db.isOpen = false then (store,.error "security database unavailable")
  else if db.runs .updatePassword = false then (store,.error "database error")
  else
    (store.patch userId (fun row => { row with
        passwordHash := hash
        passwordChanged := now
        mustChangePassword := false
        changes := row.changes+1 }) (fun _ => rfl),.ok ())

def revoke (crypto : Crypto) (db : Database) (store : Store) (token : Text) : Store×Bool :=
  if db.isOpen = false ∨ token = [] ∨ db.runs .deleteSession = false then (store,false)
  else
    (store.retain (fun row => row.tokenHash ≠ tokenHash crypto token),
      store.sessions.rows.any (fun row => row.tokenHash = tokenHash crypto token))

def purgeExpiredSessions (db : Database) (now : ℤ) (store : Store) : Store :=
  if db.isOpen = true ∧ db.runs .purgeSessions = true then
    store.retain (fun row => now < row.expiresAt)
  else store

/-! ## Accounts -/

def validUsername (username : Text) : Except Text Unit :=
  if username.length < 3 ∨ 32 < username.length then
    .error "username must be 3-32 characters"
  else if username.all (fun c => c.isAlpha || c.isDigit || c = '.' || c = '_' || c = '-') then
    .ok ()
  else
    .error "username may contain only letters, digits, dot, underscore and hyphen"

def findUserUnlocked (db : Database) (store : Store) (username : Text) : Option Account :=
  if db.isOpen = true ∧ db.runs .findUser = true then
    store.accounts.one (fun row => sameName row.username username)
  else none

def findUserById (db : Database) (store : Store) (userId : ℕ) : Option Account :=
  if db.isOpen = true ∧ db.runs .findUser = true then store.accounts.get userId else none

def newAccount (now : ℤ) (username hash : Text) (role : Role) (id : ℕ) : Account :=
  ⟨id,username,roleName role,true,0,hash,now,false,0⟩

/-- `CreateUser` once it has the lock, with the hash it has made; the name is unique. -/
def insertUser (db : Database) (now : ℤ) (store : Store) (username hash : Text) (role : Role) :
    Store×Except Text Unit :=
  if db.isOpen = false then (store,.error "security database unavailable")
  else if (findUserUnlocked db store username).isSome then
    (store,.error "a user with that name already exists")
  else if db.runs .insertUser = false ∨
      store.accounts.rows.any (fun row => sameName row.username username) then
    (store,.error "database error")
  else
    ({ store with accounts :=
        store.accounts.insert (newAccount now username hash role) (fun _ => rfl) },.ok ())

def createUser (crypto : Crypto) (db : Database) (now : ℤ) (store : Store)
    (username password salt : Text) (role : Role) : Store×Except Text Account :=
  match validUsername username with
  | .error error => (store,.error error)
  | .ok () =>
    if role = .kCount then (store,.error "unknown role")
    else
      let hash := (crypto.str salt password).getD []
      if hash = [] then (store,.error "could not hash the password")
      else
        let after := insertUser db now store username hash role
        match after.2 with
        | .error error => (after.1,.error error)
        -- the row is read back; without it there is neither a user nor an error text
        | .ok () => (after.1,((findUserUnlocked db after.1 username).map .ok).getD (.error []))

def updateEnabled (db : Database) (store : Store) (userId : ℕ) (enabled : Bool) : Store×Bool :=
  if db.isOpen = false ∨ db.runs .setEnabled = false then (store,false)
  else (store.patch userId (fun row => { row with enabled := enabled }) (fun _ => rfl),true)

def updateRole (db : Database) (store : Store) (userId : ℕ) (role : Role) : Store×Bool :=
  if role = .kCount ∨ db.isOpen = false ∨ db.runs .setRole = false then (store,false)
  else (store.patch userId (fun row => { row with role := roleName role }) (fun _ => rfl),true)

def isAdmin (account : Account) : Bool := account.role = roleName .kAdmin && account.enabled

def countAdmins (db : Database) (store : Store) : ℕ :=
  if db.isOpen = true ∧ db.runs .countAdmins = true then store.accounts.rows.countP isAdmin
  else 0

/-- The sessions of the user go with the row. -/
def deleteUser (db : Database) (store : Store) (userId : ℕ) : Store×Except Text Unit :=
  if db.isOpen = false then (store,.error "security database unavailable")
  else if db.runs .deleteUser = false then (store,.error "database error")
  else
    ({ store.retain (fun row => row.userId ≠ userId) with
        accounts := store.accounts.retain (fun row => row.id ≠ userId) },.ok ())

/-! ## What a section leaves of the tables -/

structure Fewer (old new : Store) : Prop where
  accounts : ∀ id, (new.accounts.get id).map Account.enabled =
    (old.accounts.get id).map Account.enabled
  sessions : new.sessions.rows.Sublist old.sessions.rows

variable (db : Database) (store : Store) (now : ℤ)

theorem fewer_refl : Fewer store store := ⟨fun _ => rfl,List.Sublist.refl _⟩

theorem Fewer.trans {a b c : Store} (hab : Fewer a b) (hbc : Fewer b c) : Fewer a c :=
  ⟨fun id => (hbc.accounts id).trans (hab.accounts id),hbc.sessions.trans hab.sessions⟩

theorem fewer_retain (keep : SessionRow → Bool) : Fewer store (store.retain keep) :=
  ⟨fun _ => rfl,List.filter_sublist⟩

variable (crypto : Crypto) (uid : ℕ)

theorem fewer_patch {f : Account → Account} (hf : ∀ row, (f row).id = row.id)
    (he : ∀ row, (f row).enabled = row.enabled) : Fewer store (store.patch uid f hf) := by
  refine ⟨fun id => ?_,List.Sublist.refl _⟩
  rw [Store.patch,get_modify,Option.map_map]
  congr 1
  funext row
  simp only [Function.comp,patchRow]
  split_ifs
  · exact he row
  · rfl

theorem record_fewer (store : Store) (user sourceIp : Text) :
    Fewer store (recordFailure db now store user sourceIp) := by
  rw [recordFailure]
  split_ifs
  · exact ⟨fun _ => rfl,List.Sublist.refl _⟩
  · exact fewer_refl store

theorem clear_fewer (user : Text) : Fewer store (clearFailures db store user) := by
  rw [clearFailures]
  split_ifs
  · exact ⟨fun _ => rfl,List.Sublist.refl _⟩
  · exact fewer_refl store

theorem limit_fewer (maxSessions : ℤ) :
    Fewer store (enforceSessionLimit db store uid maxSessions) := by
  rw [enforceSessionLimit]
  split_ifs
  · exact fewer_retain store _
  · exact fewer_refl store

theorem last_login_fewer (store : Store) (uid : ℕ) :
    Fewer store (setLastLogin db now store uid) ∧
      (setLastLogin db now store uid).sessions = store.sessions := by
  rw [setLastLogin]
  split_ifs
  · exact ⟨fewer_patch store uid _ (fun _ => rfl),rfl⟩
  · exact ⟨fewer_refl store,rfl⟩

variable {account : Account}

theorem found_account {user : Text} (h : findAccount db store user = some account) : account ∈ store.accounts.rows := by
  rw [findAccount] at h
  split_ifs at h
  exact (one_some _ _ account h).1

/-- The first half of a login opens nothing and goes on with a row of the table. -/
theorem login_find_cases (store : Store) (r : LoginRequest) :
    Fewer store (loginFind db now store r).1 ∧
      ∀ account, (loginFind db now store r).2 = .ok account → account ∈ store.accounts.rows := by
  have hr : Fewer store store ∧ ∀ account, False → account ∈ store.accounts.rows :=
    ⟨fewer_refl store,fun _ h => h.elim⟩
  rw [loginFind]
  cases lockout db now store r with
  | some remaining => split_ifs <;> exact hr
  | none =>
    cases hf : findAccount db store r.username with
    | some found =>
      split_ifs
      · exact hr
      · exact hr
      · refine ⟨fewer_refl store,fun account h => ?_⟩
        injection h with hs
        exact hs ▸ found_account db store hf
    | none =>
      split_ifs
      · exact hr
      · exact hr
      · exact ⟨record_fewer db now store r.username r.sourceIp,fun _ h => by cases h⟩

structure Opened (crypto : Crypto) (now : ℤ) (token : Text) (store new : Store)
    (r : LoginRequest) (account : Account) : Prop where
  enabled : account.enabled = true
  token_ne : token ≠ []
  accounts : ∀ id, (new.accounts.get id).map Account.enabled =
    (store.accounts.get id).map Account.enabled
  sessions : ∃ kept id, kept.Sublist store.sessions.rows ∧
    (∀ row ∈ kept, row.tokenHash ≠ tokenHash crypto token) ∧
    new.sessions.rows = kept++[sessionRow crypto now token r account id]

theorem open_session_cases (db : Database) (now : ℤ) (tok : Text) (store : Store)
    (r : LoginRequest) (he : account.enabled = true) :
    let after := openSession crypto db now tok store r account
    after.2.isOk = false ∧ Fewer store after.1 ∨
      after.2.isOk = true ∧ Opened crypto now tok store after.1 r account := by
  dsimp only
  rw [openSession]
  split_ifs with ht hi
  · exact .inl ⟨rfl,fewer_refl store⟩
  · exact .inl ⟨rfl,fewer_refl store⟩
  · refine .inr ⟨rfl,he,ht,?_,?_⟩
    · exact (last_login_fewer db now _ account.id).1.accounts
    · rw [(last_login_fewer db now _ account.id).2]
      simp only [insertable,Bool.not_eq_false,Bool.and_eq_true,List.all_eq_true,
        decide_eq_true_eq] at hi
      exact ⟨store.sessions.rows,store.sessions.last+1,List.Sublist.refl _,hi.1.2,rfl⟩

/-- The second half of a login opens a session just when it says so. -/
theorem login_finish_cases (db : Database) (now : ℤ) (tok : Text) (store : Store)
    (r : LoginRequest) (account : Account) :
    let after := loginFinish crypto db now tok store r account
    after.2.isOk = false ∧ Fewer store after.1 ∨
      after.2.isOk = true ∧ Opened crypto now tok store after.1 r account := by
  dsimp only
  rw [loginFinish]
  split_ifs with hop hv he
  · exact .inl ⟨rfl,fewer_refl store⟩
  · exact .inl ⟨rfl,record_fewer db now store r.username r.sourceIp⟩
  · exact .inl ⟨rfl,record_fewer db now store r.username r.sourceIp⟩
  · have hb := (clear_fewer db store r.username).trans
      (limit_fewer db (clearFailures db store r.username) account.id r.maxSessionsPerUser)
    obtain ⟨hfl,hf⟩ | ⟨hok,ho⟩ := open_session_cases crypto db now tok _ r
      (by simpa using he)
    · exact .inl ⟨hfl,hb.trans hf⟩
    · obtain ⟨kept,id,hk,hfr,hr⟩ := ho.sessions
      exact .inr ⟨hok,ho.enabled,ho.token_ne,
        fun o => (ho.accounts o).trans (hb.accounts o),
        kept,id,hk.trans hb.sessions,hfr,hr⟩

theorem revoke_all_fewer : Fewer store (revokeAllForUser db store uid) := by
  rw [revokeAllForUser]
  split_ifs
  · exact fewer_retain store _
  · exact fewer_refl store

theorem update_password_fewer (store : Store) (uid : ℕ) (hash : Text) :
    Fewer store (updatePassword db now store uid hash).1 ∧
      (updatePassword db now store uid hash).1.sessions = store.sessions := by
  rw [updatePassword]
  split_ifs
  · exact ⟨fewer_refl store,rfl⟩
  · exact ⟨fewer_refl store,rfl⟩
  · exact ⟨fewer_patch store uid _ (fun _ => rfl),rfl⟩

theorem authenticate_fewer (db : Database) (now : ℤ) (store : Store) (tok : Text) : Fewer store (authenticate crypto db now store tok).1 := by
  rw [authenticate]
  cases findSession db store (tokenHash crypto tok) with
  | none => split_ifs <;> exact fewer_refl store
  | some found =>
    dsimp only
    split_ifs
    · exact fewer_refl store
    · exact fewer_retain store _
    · exact fewer_refl store
    · exact fewer_refl store
    · exact fewer_refl store

/-- A request with the token of a session that has not expired is let in if the user is enabled
and no other session has that token. -/
theorem authenticate_row (store : Store) (tok : Text) (row : SessionRow) (acc : Account)
    (db : Database) (now : ℤ) (ht : tok ≠ []) (ho : db.isOpen = true)
    (hrn : db.runs .findSession = true) (hu : (store.sessions.rows.map SessionRow.tokenHash).Nodup)
    (hr : row ∈ store.sessions.rows) (hh : row.tokenHash = tokenHash crypto tok)
    (ha : store.accounts.get row.userId = some acc) (he : acc.enabled = true)
    (hn : now < row.expiresAt) :
    (authenticate crypto db now store tok).2 = some (sessionOf row acc) := by
  have hon : store.sessions.one (fun o => o.tokenHash = tokenHash crypto tok) =
      some row := by
    cases hf : store.sessions.one (fun o => o.tokenHash = tokenHash crypto tok) with
    | none =>
      have hno := (one_none store.sessions _).mp hf row hr
      simp [hh] at hno
    | some o =>
      obtain ⟨hm,hs⟩ := one_some store.sessions _ o hf
      rw [List.inj_on_of_nodup_map hu hm hr ((of_decide_eq_true hs).trans hh.symm)]
  have hfn : findSession db store (tokenHash crypto tok) = some (row,acc) := by
    rw [findSession,if_pos hrn,hon,Option.bind_some,ha,Option.map_some]
  rw [authenticate, if_neg (by simp [ht,ho]), hfn]
  dsimp only
  rw [if_neg (by omega),if_pos he]

/-- Whoever is let in has the token of a session that has not expired, of an enabled user. -/
theorem authenticate_some {crypto : Crypto} {db : Database} {now : ℤ} {store : Store}
    {tok : Text} {session : Session}
    (h : (authenticate crypto db now store tok).2 = some session) :
    ∃ row ∈ store.sessions.rows, ∃ account, row.tokenHash = tokenHash crypto tok ∧
      store.accounts.get row.userId = some account ∧ account.enabled = true ∧
      now < row.expiresAt ∧ session = sessionOf row account := by
  rw [authenticate] at h
  cases hf : findSession db store (tokenHash crypto tok) with
  | none =>
    rw [hf] at h
    split_ifs at h
  | some found =>
    rw [hf] at h
    dsimp only at h
    split_ifs at h with _ he hen
    rw [findSession] at hf
    split_ifs at hf
    obtain ⟨row,ho,hr⟩ := Option.bind_eq_some_iff.mp hf
    obtain ⟨account,ha,rfl⟩ := Option.map_eq_some_iff.mp hr
    obtain ⟨hrw,hh⟩ := one_some store.sessions _ row ho
    exact ⟨row,hrw,account,of_decide_eq_true hh,ha,hen,not_le.mp he,(Option.some.inj h).symm⟩

end EMaster.SecurityStore
