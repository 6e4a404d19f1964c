import EMaster.Runs
import EMaster.PasswordChange
import EMaster.SessionLedger

/-!
# Sessions over whole histories

The store's calls one after the other, with a ledger beside them. The sessions of the store are
the live entries of the ledger, so a token lets a request in just when its entry says so.
-/

set_option autoImplicit false

namespace EMaster.SessionHistory
open Runs KeyedTable Permissions SecurityStore SessionLedger List
open PasswordChange (demoCrypto demoStore)

inductive Request where
  | login (r : LoginRequest) (asked answered : ℤ) (token : Text)
  | authenticate (now : ℤ) (token : Text)
  | revoke (token : Text)
  | revokeAllForUser (userId : ℕ)
  | purgeExpiredSessions (now : ℤ)
  | createUser (now : ℤ) (username password salt : Text) (role : Role)
  | setPassword (now : ℤ) (userId : ℕ) (password salt : Text)
  | setEnabled (userId : ℕ) (enabled : Bool)
  | setRole (userId : ℕ) (role : Role)
  | deleteUser (userId : ℕ)
  | wait (now : ℤ)

structure History where
  store : Store
  ledger : List Entry
  clock : ℤ

def setPassword (crypto : Crypto) (now : ℤ) (store : Store) (userId : ℕ) (password salt : Text) :
    Store :=
  let hash := (crypto.str salt password).getD []
  if hash = [] then store
  else
    revokeAllForUser .ready (updatePassword .ready now store userId hash).1 userId

def setEnabled (store : Store) (userId : ℕ) (enabled : Bool) : Store :=
  let after := (updateEnabled .ready store userId enabled).1
  if enabled then after else revokeAllForUser .ready after userId

def setRole (store : Store) (userId : ℕ) (role : Role) : Store :=
  if role = .kCount then store
  else revokeAllForUser .ready (updateRole .ready store userId role).1 userId

def revokeUser (userId : ℕ) (ledger : List Entry) : List Entry :=
  close .revoked (fun e => e.userId = userId) ledger

def hasToken (crypto : Crypto) (token : Text) (e : Entry) : Bool :=
  tokenHash crypto e.token = tokenHash crypto token

def opened (result : LoginResult) : List Entry :=
  match result with
  | .kOk token session =>
    [⟨token,session.id,session.userId,session.issuedAt,session.expiresAt,session.sourceIp,.live⟩]
  | _ => []

/-- The ledger after the second half of a login: with the right password of an enabled account
there is room for one more session, and what is opened has an entry. -/
def loginLedger (crypto : Crypto) (r : LoginRequest) (account : Account) (result : LoginResult)
    (ledger : List Entry) : List Entry :=
  if verify crypto account.passwordHash r.password = true ∧ account.enabled = true then
    evict r.maxSessionsPerUser account.id ledger++opened result
  else ledger

def login (crypto : Crypto) (h : History) (r : LoginRequest) (asked answered : ℤ)
    (token : Text) : History :=
  let found := loginFind .ready asked h.store r
  match found.2 with
  | .error _ => ⟨found.1,h.ledger,answered⟩
  | .ok account =>
    let done := loginFinish crypto .ready answered token found.1 r account
    ⟨done.1,loginLedger crypto r account done.2 h.ledger,answered⟩

def step (crypto : Crypto) (h : History) : Request → History
  | .login r asked answered token => login crypto h r asked answered token
  | .authenticate now token =>
    ⟨(authenticate crypto .ready now h.store token).1,
      if token = [] then h.ledger
      else close .expired (fun e => hasToken crypto token e && e.expiresAt ≤ now) h.ledger,now⟩
  | .revoke token =>
    ⟨(revoke crypto .ready h.store token).1,
      if token = [] then h.ledger else close .revoked (hasToken crypto token) h.ledger,h.clock⟩
  | .revokeAllForUser userId =>
    ⟨revokeAllForUser .ready h.store userId,revokeUser userId h.ledger,h.clock⟩
  | .purgeExpiredSessions now =>
    ⟨purgeExpiredSessions .ready now h.store,
      close .expired (fun e => e.expiresAt ≤ now) h.ledger,now⟩
  | .createUser now username password salt role =>
    ⟨(createUser crypto .ready now h.store username password salt role).1,h.ledger,now⟩
  | .setPassword now userId password salt =>
    ⟨setPassword crypto now h.store userId password salt,
      if (crypto.str salt password).getD [] = [] then h.ledger else revokeUser userId h.ledger,now⟩
  | .setEnabled userId enabled =>
    ⟨setEnabled h.store userId enabled,
      if enabled then h.ledger else revokeUser userId h.ledger,h.clock⟩
  | .setRole userId role =>
    ⟨setRole h.store userId role,
      if role = .kCount then h.ledger else revokeUser userId h.ledger,h.clock⟩
  | .deleteUser userId =>
    ⟨(deleteUser .ready h.store userId).1,
      close .deleted (fun e => e.userId = userId) h.ledger,h.clock⟩
  | .wait now => ⟨h.store,h.ledger,now⟩

/-- The store as it is loaded: no session survives a restart. -/
def start (store : Store) (clock : ℤ) : History := ⟨store.retain (fun _ => false),[],clock⟩

/-- The clock does not run backwards, and every login is made with the same limit. -/
def Forward (limit : ℤ) (h : History) : Request → Prop
  | .login r asked answered _ =>
    h.clock ≤ asked ∧ asked ≤ answered ∧ r.maxSessionsPerUser = limit
  | .authenticate now _ => h.clock ≤ now
  | .purgeExpiredSessions now => h.clock ≤ now
  | .createUser now _ _ _ _ => h.clock ≤ now
  | .setPassword now _ _ _ => h.clock ≤ now
  | .wait now => h.clock ≤ now
  | _ => True

/-! ## The table and the ledger -/

structure Pass where
  id : ℕ
  hash : Text
  userId : ℕ
  (issuedAt expiresAt : ℤ)
  sourceIp : Text
  deriving DecidableEq, Repr

def passOf (row : SessionRow) : Pass :=
  ⟨row.id,row.tokenHash,row.userId,row.issuedAt,row.expiresAt,row.sourceIp⟩

def entryPass (crypto : Crypto) (e : Entry) : Pass :=
  ⟨e.id,tokenHash crypto e.token,e.userId,e.issuedAt,e.expiresAt,e.sourceIp⟩

structure Sound (crypto : Crypto) (store : Store) (ledger : List Entry) (clock : ℤ) : Prop where
  rows : store.sessions.rows.map passOf = (live ledger).map (entryPass crypto)
  ordered : (store.sessions.rows.map SessionRow.id).Pairwise (· < ·)
  unique : (store.sessions.rows.map SessionRow.tokenHash).Nodup
  tokens : ∀ e ∈ ledger, e.token ≠ []
  owned : ∀ e ∈ live ledger, (store.accounts.get e.userId).isSome = true
  expired : ∀ e ∈ ledger, e.standing = .expired → e.expiresAt ≤ clock
  deleted : ∀ e ∈ ledger, e.standing = .deleted →
    e.userId ≤ store.accounts.last ∧ store.accounts.get e.userId = none

/-- Numbers of users that are gone are not used again. -/
structure Grows (old new : Table Account Account.id) : Prop where
  last : old.last ≤ new.last
  gone : ∀ id ≤ old.last, old.get id = none → new.get id = none

variable (crypto : Crypto) (store : Store) (ledger : List Entry) (limit clock now : ℤ) (userId : ℕ)
  (token : Text)

theorem sound_change (new : Store) (ledger : List Entry) (clk now : ℤ) (standing : Standing)
    (keep : Pass → Bool) (p : Entry → Bool) (h : Sound crypto store ledger clk)
    (hc : clk ≤ now) (hs : standing ≠ .live)
    (hr : new.sessions.rows = store.sessions.rows.filter (fun row => keep (passOf row)))
    (hk : ∀ e ∈ live ledger, keep (entryPass crypto e) = !p e)
    (hg : Grows store.accounts new.accounts)
    (ho : ∀ e ∈ live ledger, p e = false → (new.accounts.get e.userId).isSome = true)
    (hex : standing = .expired → ∀ e ∈ live ledger, p e = true → e.expiresAt ≤ now)
    (hd : standing = .deleted → ∀ e ∈ live ledger, p e = true → e.userId ≤ new.accounts.last ∧ new.accounts.get e.userId = none) :
    Sound crypto new (close standing p ledger) now := by
  have hsb : new.sessions.rows.Sublist store.sessions.rows := hr ▸ filter_sublist
  have hen : ∀ e ∈ close standing p ledger, e ∈ ledger ∨
      ∃ old ∈ live ledger, p old = true ∧ e = { old with standing := standing } := by
    intro e he
    obtain hold | ⟨old,hold,hlv,hp,rfl⟩ := mem_close he
    · exact .inl hold
    · exact .inr ⟨old,mem_filter.mpr ⟨hold,hlv⟩,hp,rfl⟩
  refine ⟨?_,h.ordered.sublist (hsb.map _),h.unique.sublist (hsb.map _),?_,?_,?_,?_⟩
  · rw [hr,live_close p _ hs]
    have hlf : (store.sessions.rows.filter (fun row => keep (passOf row))).map passOf =
        (store.sessions.rows.map passOf).filter keep := filter_map.symm
    have hrg : (live ledger).filter (fun e => !p e) =
        (live ledger).filter (fun e => keep (entryPass crypto e)) :=
      filter_congr fun e he => (hk e he).symm
    rw [hlf,h.rows,hrg]
    exact filter_map
  · intro e he
    obtain hold | ⟨old,hold,_,rfl⟩ := hen e he
    · exact h.tokens e hold
    · exact h.tokens old (mem_of_mem_filter hold)
  · intro e he
    rw [live_close p _ hs,mem_filter] at he
    exact ho e he.1 (by simpa using he.2)
  · intro e he hst
    obtain hold | ⟨old,hold,hp,rfl⟩ := hen e he
    · exact (h.expired e hold hst).trans hc
    · exact hex hst old hold hp
  · intro e he hst
    obtain hold | ⟨old,hold,hp,rfl⟩ := hen e he
    · obtain ⟨hl,hgn⟩ := h.deleted e hold hst
      exact ⟨hl.trans hg.last,hg.gone e.userId hl hgn⟩
    · exact hd hst old hold hp

theorem grows_refl (accounts : Table Account Account.id) : Grows accounts accounts :=
  ⟨le_rfl,fun _ _ h => h⟩

theorem grows_patch (f : Account → Account) (hf : ∀ row, (f row).id = row.id) :
    Grows store.accounts (store.patch userId f hf).accounts := by
  refine ⟨le_rfl,fun id _ hn => ?_⟩
  rw [Store.patch,get_modify,hn]
  rfl

theorem patch_some (f : Account → Account) (hf : ∀ row, (f row).id = row.id) (id : ℕ)
    (h : (store.accounts.get id).isSome = true) :
    ((store.patch userId f hf).accounts.get id).isSome = true := by
  rw [Store.patch,get_modify,Option.isSome_map]
  exact h

theorem sound_accounts {new : Store} {ledger : List Entry} {clk now : ℤ}
    (h : Sound crypto store ledger clk) (hc : clk ≤ now)
    (hs : new.sessions = store.sessions) (hg : Grows store.accounts new.accounts)
    (hsm : ∀ id, (store.accounts.get id).isSome = true → (new.accounts.get id).isSome = true) :
    Sound crypto new ledger now := by
  refine ⟨by rw [hs]; exact h.rows,by rw [hs]; exact h.ordered,
    by rw [hs]; exact h.unique,h.tokens,fun e he => hsm e.userId (h.owned e he),?_,?_⟩
  · exact fun e he hst => (h.expired e he hst).trans hc
  · intro e he hst
    obtain ⟨hl,hgn⟩ := h.deleted e he hst
    exact ⟨hl.trans hg.last,hg.gone e.userId hl hgn⟩

theorem sound_revoked (keep : Pass → Bool) (p : Entry → Bool) (h : Sound crypto store ledger clock)
    (hk : ∀ e ∈ live ledger, keep (entryPass crypto e) = !p e) :
    Sound crypto (store.retain (fun row => keep (passOf row))) (close .revoked p ledger) clock :=
  sound_change _ store _ _ clock clock _ keep p h le_rfl (by decide) rfl hk
    (grows_refl _) (fun e he _ => h.owned e he) (fun hst => by cases hst)
    (fun hst => by cases hst)

theorem sound_revoke_all (h : Sound crypto store ledger clock) :
    Sound crypto (revokeAllForUser .ready store userId) (revokeUser userId ledger) clock := by
  refine sound_revoked crypto store ledger clock (fun pass => pass.userId ≠ userId) _ h ?_
  intro e _
  by_cases hu : e.userId = userId <;> simp [entryPass,hu]

/-! ## Making room -/

theorem age_count (h : Sound crypto store ledger clock) (e : Entry) :
    (store.sessions.rows.filter (fun row => row.userId = e.userId)).countP
        (fun row => ahead (row.issuedAt,row.id) e.age) = rank ledger e := by
  have hc : store.sessions.rows.countP
      ((fun pass : Pass => ahead (pass.issuedAt,pass.id) e.age && pass.userId = e.userId) ∘
        passOf) =
      (live ledger).countP
        ((fun pass : Pass => ahead (pass.issuedAt,pass.id) e.age && pass.userId = e.userId) ∘
          entryPass crypto) := by
    rw [← countP_map,h.rows,countP_map]
  rw [countP_filter,rank]
  refine hc.trans (congrArg (fun p => (live ledger).countP p) ?_)
  funext other
  exact Bool.and_comm _ _

/-- The sessions that are kept are those that fewer than the limit allows are ahead of. -/
theorem kept_iff (limit : ℤ) (h : Sound crypto store ledger clock) (e : Entry)
    (he : e ∈ live ledger) :
    (keptSessions store e.userId limit).contains e.id = true ↔ rank ledger e < (limit-1).toNat := by
  have hps : entryPass crypto e ∈ store.sessions.rows.map passOf := h.rows ▸ mem_map_of_mem he
  obtain ⟨row,hr,hs⟩ := mem_map.mp hps
  have hid : row.id = e.id := congrArg Pass.id hs
  have hu : row.userId = e.userId := congrArg Pass.userId hs
  have hi : row.issuedAt = e.issuedAt := congrArg Pass.issuedAt hs
  let rows := store.sessions.rows.filter (fun o => o.userId = e.userId)
  have hm : row ∈ rows := mem_filter.mpr ⟨hr,decide_eq_true hu⟩
  let age : SessionRow → ℤ×ℕ := fun o => (o.issuedAt,o.id)
  have hsr := pairwise_sort age rows (h.ordered.sublist (filter_sublist.map SessionRow.id))
  have hp := perm_insertionSort (fun a b : SessionRow => b.issuedAt ≤ a.issuedAt) rows
  have ht := mem_take_iff (limit-1).toNat row hsr
  have hc : (rows.insertionSort (fun a b => b.issuedAt ≤ a.issuedAt)).countP
      (fun o => ahead (age o) (age row)) = rank ledger e := by
    rw [hp.countP_eq]
    have ha : age row = e.age := Prod.ext hi hid
    rw [ha]
    exact age_count _ store _ clock h e
  rw [hc] at ht
  rw [contains_iff_mem,keptSessions,mem_map]
  constructor
  · rintro ⟨o,ho,hot⟩
    have hmm : o ∈ store.sessions.rows := mem_of_mem_filter (hp.mem_iff.mp (mem_of_mem_take ho))
    have hsm : o = row := key_injective _ o hmm hr (hot.trans hid.symm)
    exact (ht.mp (hsm ▸ ho)).2
  · exact fun hl => ⟨row,ht.mpr ⟨hp.mem_iff.mpr hm,hl⟩,hid⟩

theorem sound_evict (limit : ℤ) (uid : ℕ) (h : Sound crypto store ledger clock)
    (hc : clock ≤ now) :
    Sound crypto (enforceSessionLimit .ready store uid limit) (evict limit uid ledger) now := by
  rw [enforceSessionLimit,evict]
  by_cases hl : 0 < limit
  · rw [if_pos ⟨hl,rfl⟩,if_pos hl]
    refine sound_change _ store _ _ clock now _
      (fun pass => pass.userId ≠ uid || (keptSessions store uid limit).contains pass.id) _ h
      hc (by decide) rfl ?_ (grows_refl _) (fun e he _ => h.owned e he)
      (fun hst => by cases hst) (fun hst => by cases hst)
    intro e he
    by_cases hu : e.userId = uid
    · have hk := kept_iff crypto store ledger clock limit h e he
      rw [hu] at hk
      have hr : (keptSessions store uid limit).contains e.id =
          !decide (limit-1 ≤ (rank ledger e : ℤ)) := by
        rw [Bool.eq_iff_iff,hk,Bool.not_eq_true',decide_eq_false_iff_not]
        omega
      simp only [entryPass,hu,hr,ne_eq,not_true_eq_false,decide_false,
        Bool.false_or,decide_true,Bool.true_and]
    · simp [entryPass,hu]
  · rw [if_neg (fun hb => hl hb.1),if_neg hl]
    exact sound_accounts crypto store h hc rfl (grows_refl _)
      (fun _ hs => hs)

/-! ## Logging in -/

theorem sound_open (r : LoginRequest) (acc : Account) (h : Sound crypto store ledger now) :
    Sound crypto (openSession crypto .ready now token store r acc).1
      (ledger++opened (openSession crypto .ready now token store r acc).2) now := by
  rw [openSession]
  split_ifs with ht hi
  · exact (append_nil ledger).symm ▸ h
  · exact (append_nil ledger).symm ▸ h
  · simp only [insertable,Bool.not_eq_false,Bool.and_eq_true,all_eq_true,decide_eq_true_eq] at hi
    obtain ⟨⟨_,hf⟩,hs⟩ := hi
    let row := sessionRow crypto now token r acc (store.sessions.last+1)
    let e : Entry := ⟨token,store.sessions.last+1,acc.id,now,expiry now r,r.sourceIp,.live⟩
    have hl : live (ledger++[e]) = live ledger++[e] := live_append _ rfl
    suffices hin : Sound crypto ⟨store.accounts,
        store.sessions.insert (sessionRow crypto now token r acc) (fun _ => rfl),
        store.failures⟩ (ledger++[e]) now by
      exact sound_accounts _ _ hin le_rfl rfl
        (grows_patch _ _ _ _) (patch_some _ _ _ _)
    refine ⟨?_,?_,?_,?_,?_,?_,?_⟩
    · show (store.sessions.rows++[row]).map passOf = _
      rw [hl,map_append,map_append,h.rows]
      rfl
    · show ((store.sessions.rows++[row]).map SessionRow.id).Pairwise (· < ·)
      rw [map_append,pairwise_append]
      refine ⟨h.ordered,pairwise_singleton _ _,?_⟩
      intro id hid o ho
      obtain ⟨old,hold,rfl⟩ := mem_map.mp hid
      have hb := store.sessions.bounded old hold
      rw [mem_singleton.mp ho]
      exact Nat.lt_succ_of_le hb
    · show ((store.sessions.rows++[row]).map SessionRow.tokenHash).Nodup
      rw [map_append,nodup_append]
      refine ⟨h.unique,nodup_singleton _,?_⟩
      intro hash hh o ho
      obtain ⟨old,hold,rfl⟩ := mem_map.mp hh
      rw [mem_singleton.mp ho]
      exact hf old hold
    · intro o ho
      obtain hold | hn := mem_append.mp ho
      · exact h.tokens o hold
      · rw [mem_singleton.mp hn]
        exact ht
    · intro o ho
      rw [hl] at ho
      obtain hold | hn := mem_append.mp ho
      · exact h.owned o hold
      · rw [mem_singleton.mp hn]
        exact hs
    · intro o ho hst
      obtain hold | hn := mem_append.mp ho
      · exact h.expired o hold hst
      · rw [mem_singleton.mp hn] at hst
        cases hst
    · intro o ho hst
      obtain hold | hn := mem_append.mp ho
      · exact h.deleted o hold hst
      · rw [mem_singleton.mp hn] at hst
        cases hst

variable (db : Database)

theorem find_tables (now : ℤ) (store : Store) (r : LoginRequest) :
    (loginFind db now store r).1.sessions = store.sessions ∧
      (loginFind db now store r).1.accounts = store.accounts := by
  rw [loginFind]
  cases lockout db now store r with
  | some remaining => split_ifs <;> exact ⟨rfl,rfl⟩
  | none =>
    cases findAccount db store r.username with
    | some acc => split_ifs <;> exact ⟨rfl,rfl⟩
    | none =>
      dsimp only
      rw [recordFailure]
      split_ifs <;> exact ⟨rfl,rfl⟩

theorem sound_failures {new : Store} {ledger : List Entry} {clk now : ℤ}
    (h : Sound crypto store ledger clk) (hc : clk ≤ now)
    (hs : new.sessions = store.sessions) (ha : new.accounts = store.accounts) :
    Sound crypto new ledger now :=
  sound_accounts _ store h hc hs (ha ▸ grows_refl _) (fun _ hsm => ha ▸ hsm)

theorem sound_login {h : History} (r : LoginRequest) {asked answered : ℤ} (tok : Text)
    (hs : Sound crypto h.store h.ledger h.clock) (has : h.clock ≤ asked)
    (ha : asked ≤ answered) :
    Sound crypto (login crypto h r asked answered tok).store
      (login crypto h r asked answered tok).ledger
      (login crypto h r asked answered tok).clock := by
  obtain ⟨hss,hac⟩ := find_tables _ asked _ r
  have hf := sound_failures _ _ hs (has.trans ha) hss hac
  rw [login]
  cases (loginFind .ready asked h.store r).2 with
  | error res => exact hf
  | ok acc =>
    dsimp only
    rw [loginFinish, if_neg (by simp [Database.ready]), loginLedger]
    cases hv : verify crypto acc.passwordHash r.password with
    | false =>
      rw [if_pos rfl,if_neg (by simp),recordFailure,if_pos (ready_works.runs _)]
      exact sound_failures _ _ hf le_rfl rfl rfl
    | true =>
      rw [if_neg (by simp)]
      cases he : acc.enabled with
      | false =>
        rw [if_pos rfl,if_neg (by simp),recordFailure,if_pos (ready_works.runs _)]
        exact sound_failures _ _ hf le_rfl rfl rfl
      | true =>
        rw [if_neg (by simp),if_pos ⟨rfl,rfl⟩]
        refine sound_open _ _ _ _ tok r acc ?_
        refine sound_evict _ _ _ _ _ _ _ ?_ le_rfl
        rw [clearFailures,if_pos (ready_works.runs _)]
        exact sound_failures _ _ hf le_rfl rfl rfl

/-! ## The other calls -/

variable {row : SessionRow}

theorem row_owned (h : Sound crypto store ledger clock) (hr : row ∈ store.sessions.rows) :
    ∃ e ∈ live ledger, entryPass crypto e = passOf row ∧
      (store.accounts.get row.userId).isSome = true := by
  obtain ⟨e,he,hs⟩ := mem_map.mp (h.rows ▸ mem_map_of_mem hr)
  have hu : e.userId = row.userId := congrArg Pass.userId hs
  exact ⟨e,he,hs,hu ▸ h.owned e he⟩

theorem find_session_none {hash : Text} (h : Sound crypto store ledger clock)
    (hn : findSession .ready store hash = none) (hr : row ∈ store.sessions.rows) : row.tokenHash ≠ hash := by
  intro hh
  rw [findSession,if_pos (ready_works.runs _)] at hn
  cases ho : store.sessions.one (fun o => o.tokenHash = hash) with
  | none => simpa [hh] using (one_none _ _).mp ho row hr
  | some found =>
    rw [ho] at hn
    obtain ⟨_,_,_,hs⟩ := row_owned _ store _ clock h (one_some _ _ found ho).1
    obtain ⟨acc,ha⟩ := Option.isSome_iff_exists.mp hs
    simp [ha] at hn

theorem find_session_some {hash : Text} {acc : Account}
    (hs : findSession .ready store hash = some (row,acc)) :
    row ∈ store.sessions.rows ∧ row.tokenHash = hash := by
  rw [findSession,if_pos (ready_works.runs _)] at hs
  obtain ⟨found,ho,hr⟩ := Option.bind_eq_some_iff.mp hs
  obtain ⟨owner,_,hp⟩ := Option.map_eq_some_iff.mp hr
  cases hp
  obtain ⟨hrw,hh⟩ := one_some _ _ row ho
  exact ⟨hrw,of_decide_eq_true hh⟩

/-- A request deletes the session of its token if it has expired, and nothing else. -/
theorem authenticate_tables (h : Sound crypto store ledger clock) (ht : token ≠ []) :
    (authenticate crypto .ready now store token).1.sessions.rows =
        store.sessions.rows.filter (fun row =>
          !(row.tokenHash = tokenHash crypto token && row.expiresAt ≤ now)) ∧
      (authenticate crypto .ready now store token).1.accounts = store.accounts := by
  rw [authenticate, if_neg (by simp [ht,Database.ready])]
  cases hf : findSession .ready store (tokenHash crypto token) with
  | none =>
    refine ⟨(filter_eq_self.mpr fun row hr => ?_).symm,rfl⟩
    simp [find_session_none _ store _ clock h hf hr]
  | some found =>
    obtain ⟨hfn,hh⟩ := find_session_some store hf
    have ho : ∀ row ∈ store.sessions.rows, row.tokenHash = tokenHash crypto token →
        row = found.1 := fun row hr hs =>
      inj_on_of_nodup_map h.unique hr hfn (hs.trans hh.symm)
    dsimp only
    rw [if_pos (ready_works.runs .deleteSession)]
    split_ifs with he
    · refine ⟨filter_congr fun row hr => ?_,rfl⟩
      by_cases hs : row.tokenHash = tokenHash crypto token
      · simp [ho row hr hs,he]
      · simp [hs]
    all_goals
      refine ⟨(filter_eq_self.mpr fun row hr => ?_).symm,rfl⟩
      by_cases hs : row.tokenHash = tokenHash crypto token
      · simp [ho row hr hs,he]
      · simp [hs]

theorem sound_authenticate (h : Sound crypto store ledger clock) (hc : clock ≤ now)
    (ht : token ≠ []) :
    Sound crypto (authenticate crypto .ready now store token).1
      (close .expired (fun e => hasToken crypto token e && e.expiresAt ≤ now) ledger) now := by
  have hk := authenticate_tables _ store _ clock now token h ht
  refine sound_change _ store _ _ clock now _
    (fun pass => !(pass.hash = tokenHash crypto token && pass.expiresAt ≤ now)) _ h hc
    (by decide) hk.1 (fun e _ => rfl) (hk.2 ▸ grows_refl _)
    (fun e he _ => hk.2 ▸ h.owned e he) (fun _ e _ hp => ?_) (fun hst => by cases hst)
  exact of_decide_eq_true (Bool.and_eq_true_iff.mp hp).2

theorem sound_revoke (h : Sound crypto store ledger clock) (ht : token ≠ []) :
    Sound crypto (revoke crypto .ready store token).1
      (close .revoked (hasToken crypto token) ledger) clock := by
  rw [revoke, if_neg (by simp [Database.ready,Database.runs,ht])]
  refine sound_revoked crypto store ledger clock
    (fun pass => pass.hash ≠ tokenHash crypto token) _ h fun e _ => ?_
  by_cases hs : tokenHash crypto e.token = tokenHash crypto token <;> simp [entryPass,hasToken,hs]

theorem sound_purge (h : Sound crypto store ledger clock) (hc : clock ≤ now) :
    Sound crypto (purgeExpiredSessions .ready now store)
      (close .expired (fun e => e.expiresAt ≤ now) ledger) now := by
  refine sound_change crypto store _ ledger clock now .expired (fun pass => now < pass.expiresAt)
    _ h hc (by decide) rfl (fun e _ => ?_) (grows_refl _) (fun e he _ => h.owned e he)
    (fun _ e _ hp => of_decide_eq_true hp) (fun hst => by cases hst)
  show decide (now < e.expiresAt) = !decide (e.expiresAt ≤ now)
  rw [← decide_not]
  exact decide_eq_decide.mpr not_le.symm

theorem insert_user_tables (now : ℤ) (store : Store) (user hash : Text) (role : Role) :
    (insertUser db now store user hash role).1.sessions = store.sessions ∧
      Grows store.accounts (insertUser db now store user hash role).1.accounts ∧
      ∀ id, (store.accounts.get id).isSome = true →
        ((insertUser db now store user hash role).1.accounts.get id).isSome = true := by
  have hs : store.sessions = store.sessions ∧ Grows store.accounts store.accounts ∧
      ∀ id, (store.accounts.get id).isSome = true → (store.accounts.get id).isSome = true :=
    ⟨rfl,grows_refl _,fun _ hsm => hsm⟩
  rw [insertUser]
  split_ifs
  · exact hs
  · exact hs
  · exact hs
  · refine ⟨rfl,⟨Nat.le_succ _,fun id hid hn => ?_⟩,fun id hsm => ?_⟩
    · refine (get_insert _ (fun _ => rfl) id).trans ?_
      rw [if_neg (by omega),hn]
    · refine (congrArg Option.isSome (get_insert _ (fun _ => rfl) id)).trans ?_
      split_ifs
      · rfl
      · exact hsm

theorem sound_create_user (user password salt : Text) (role : Role)
    (h : Sound crypto store ledger clock) (hc : clock ≤ now) :
    Sound crypto (createUser crypto .ready now store user password salt role).1 ledger now := by
  have hs := sound_failures _ store h hc rfl rfl
  rw [createUser]
  cases validUsername user with
  | error error => exact hs
  | ok valid =>
    dsimp only
    split_ifs
    · exact hs
    · exact hs
    · obtain ⟨hss,hg,hsm⟩ := insert_user_tables _ now store user _ role
      have hi := sound_accounts _ store h hc hss hg hsm
      cases (insertUser .ready now store user ((crypto.str salt password).getD []) role).2 <;>
        exact hi

theorem sound_patch {f : Account → Account} (hf : ∀ row, (f row).id = row.id)
    (h : Sound crypto store ledger clock) (hc : clock ≤ now) :
    Sound crypto (store.patch userId f hf) ledger now :=
  sound_accounts crypto store h hc rfl (grows_patch store userId f hf)
    (patch_some store _ f hf)

theorem sound_set_password (password salt : Text) (h : Sound crypto store ledger clock)
    (hc : clock ≤ now) :
    Sound crypto (setPassword crypto now store userId password salt)
      (if (crypto.str salt password).getD [] = [] then ledger else revokeUser userId ledger)
      now := by
  rw [setPassword]
  split_ifs
  · exact sound_failures _ store h hc rfl rfl
  · refine sound_revoke_all _ _ _ now _ ?_
    exact sound_patch _ store _ clock now _ _ h hc

theorem sound_set_enabled (enabled : Bool) (h : Sound crypto store ledger clock) :
    Sound crypto (setEnabled store userId enabled)
      (if enabled then ledger else revokeUser userId ledger) clock := by
  have hp : Sound crypto (updateEnabled .ready store userId enabled).1 ledger clock :=
    sound_patch _ store _ clock clock _ _ h le_rfl
  rw [setEnabled]
  cases enabled with
  | true => exact hp
  | false => exact sound_revoke_all _ _ _ clock _ hp

theorem sound_set_role (role : Role) (h : Sound crypto store ledger clock) :
    Sound crypto (setRole store userId role)
      (if role = .kCount then ledger else revokeUser userId ledger) clock := by
  rw [setRole]
  split_ifs with hc
  · exact h
  · refine sound_revoke_all _ _ _ clock _ ?_
    rw [updateRole, if_neg (by simp [Database.ready,Database.runs,hc])]
    exact sound_patch _ store _ clock clock _ _ h le_rfl

theorem sound_delete_user (h : Sound crypto store ledger clock) :
    Sound crypto (deleteUser .ready store userId).1
      (close .deleted (fun e => e.userId = userId) ledger) clock := by
  have hgn : ∀ id, ((store.accounts.retain (fun row => row.id ≠ userId)).get id) =
      if id = userId then none else store.accounts.get id := by
    intro id
    rw [get_retain]
    cases hg : store.accounts.get id with
    | none => exact (ite_self none).symm
    | some acc =>
      have hid := ((get_some _ id acc).mp hg).2
      by_cases hs : id = userId <;> simp [Option.filter_some,hid,hs]
  refine sound_change _ store _ _ clock clock _
    (fun pass => pass.userId ≠ userId) _ h le_rfl (by decide) rfl (fun e _ => ?_)
    ⟨le_rfl,fun id _ hn => ?_⟩ (fun e he ho => ?_) (fun hst => by cases hst)
    (fun _ e he hm => ?_)
  · by_cases hu : e.userId = userId <;> simp [entryPass,hu]
  · exact (hgn id).trans (by rw [hn]; exact ite_self none)
  · refine (congrArg Option.isSome (hgn e.userId)).trans ?_
    rw [if_neg (of_decide_eq_false ho)]
    exact h.owned e he
  · obtain ⟨acc,ha⟩ := Option.isSome_iff_exists.mp (h.owned e he)
    obtain ⟨hmm,hid⟩ := (get_some _ _ acc).mp ha
    refine ⟨hid ▸ store.accounts.bounded acc hmm,(hgn e.userId).trans ?_⟩
    rw [if_pos (of_decide_eq_true hm)]

theorem sound_step (h : History) (e : Request) (hs : Sound crypto h.store h.ledger h.clock)
    (hf : Forward limit h e) :
    Sound crypto (step crypto h e).store (step crypto h e).ledger (step crypto h e).clock := by
  have hl : ∀ now, h.clock ≤ now → Sound crypto h.store h.ledger now := fun now hn =>
    sound_failures _ _ hs hn rfl rfl
  cases e with
  | login r asked answered tok =>
    exact sound_login _ r tok hs hf.1 hf.2.1
  | authenticate now tok =>
    by_cases ht : tok = []
    · simp only [step,ht,if_true,authenticate,true_or]
      exact hl now hf
    · simp only [step,ht,if_false]
      exact sound_authenticate _ _ _ _ now tok hs hf ht
  | revoke tok =>
    by_cases ht : tok = []
    · simp only [step,ht,if_true,revoke,true_or,or_true]
      exact hs
    · simp only [step,ht,if_false]
      exact sound_revoke _ _ _ _ tok hs ht
  | revokeAllForUser uid =>
    exact sound_revoke_all _ _ _ _ uid hs
  | purgeExpiredSessions now =>
    exact sound_purge _ _ _ _ now hs hf
  | createUser now username password salt role =>
    exact sound_create_user _ _ _ _ now _ _ salt role hs hf
  | setPassword now uid password salt =>
    exact sound_set_password _ _ _ _ now uid _ salt hs hf
  | setEnabled uid enabled =>
    exact sound_set_enabled _ _ _ _ uid _ hs
  | setRole uid role => exact sound_set_role _ _ _ _ uid role hs
  | deleteUser uid => exact sound_delete_user _ _ _ _ uid hs
  | wait now => exact hl now hf

theorem start_sound : Sound crypto (start store clock).store (start store clock).ledger clock := by
  have hn : (start store clock).store.sessions.rows = [] := by
    simp [start,Store.retain,Table.retain]
  have hem : ∀ e ∈ (start store clock).ledger, False := fun e he => not_mem_nil he
  refine ⟨?_,?_,?_,fun e he => (hem e he).elim,fun e he => ?_,fun e he => (hem e he).elim,
    fun e he => (hem e he).elim⟩
  · rw [hn]
    rfl
  · rw [hn]
    exact List.Pairwise.nil
  · rw [hn]
    exact nodup_nil
  · exact (hem e (mem_of_mem_filter he)).elim

/-! ## How many sessions a user has -/

def Limited (limit : ℤ) (ledger : List Entry) : Prop :=
  ∀ userId : ℕ, ((live ledger).countP (fun e => e.userId = userId) : ℤ) ≤ limit

variable {clock ledger}

theorem count_rows (h : Sound crypto store ledger clock) (uid : ℕ) :
    store.sessions.rows.countP (fun row => row.userId = uid) =
      (live ledger).countP (fun e => e.userId = uid) := by
  have hc := congrArg (List.countP (fun pass : Pass => pass.userId = uid)) h.rows
  rw [countP_map,countP_map] at hc
  exact hc

variable {limit}

theorem limited_close {ledger : List Entry} {standing : Standing} (p : Entry → Bool)
    (hs : standing ≠ .live) (h : Limited limit ledger) :
    Limited limit (close standing p ledger) := by
  intro uid
  rw [live_close p _ hs]
  have hle : ((live ledger).filter (fun e => !p e)).countP (fun e => e.userId = uid) ≤
      (live ledger).countP (fun e => e.userId = uid) :=
    filter_sublist.countP_le
  exact (Int.ofNat_le.mpr hle).trans (h uid)

theorem enforced_count {limit : ℤ} (h : 0 < limit) :
    (enforceSessionLimit .ready store userId limit).sessions.rows.countP
      (fun row => row.userId = userId) ≤ (limit-1).toNat := by
  rw [enforceSessionLimit,if_pos ⟨h,rfl⟩,countP_eq_length_filter]
  have hi : ∀ id ∈ (((store.retain fun row => row.userId ≠ userId ||
      (keptSessions store userId limit).contains row.id).sessions.rows.filter
        (fun row => row.userId = userId)).map SessionRow.id),
      id ∈ keptSessions store userId limit := by
    intro id hid
    obtain ⟨row,hr,rfl⟩ := mem_map.mp hid
    obtain ⟨hk,hu⟩ := mem_filter.mp hr
    have hkp := (mem_filter.mp hk).2
    simpa [of_decide_eq_true hu] using hkp
  have hn : ((((store.retain fun row => row.userId ≠ userId ||
      (keptSessions store userId limit).contains row.id).sessions.rows.filter
        (fun row => row.userId = userId)).map SessionRow.id)).Nodup :=
    (Table.nodup _).sublist (filter_sublist.map _)
  have hl := (hn.subperm hi).length_le
  rw [length_map] at hl
  refine hl.trans ?_
  rw [keptSessions,length_map,length_take]
  exact min_le_left _ _

variable {store}

theorem limited_evict {limit : ℤ} (uid : ℕ) (hs : Sound crypto store ledger clock)
    (hl : 0 < limit) (h : Limited limit ledger) :
    Limited limit (evict limit uid ledger) ∧
      (live (evict limit uid ledger)).countP (fun e => e.userId = uid) ≤ (limit-1).toNat := by
  constructor
  · rw [evict,if_pos hl]
    exact limited_close _ (by decide) h
  · rw [← count_rows _ _ (sound_evict _ store _ clock clock limit uid hs le_rfl) uid]
    exact enforced_count store uid hl

theorem opened_cases (now : ℤ) (tok : Text) (store : Store) (r : LoginRequest) (acc : Account) :
    opened (loginFinish crypto db now tok store r acc).2 = [] ∨
      ∃ e, opened (loginFinish crypto db now tok store r acc).2 = [e] ∧
        e.standing = .live ∧ e.userId = acc.id := by
  rw [loginFinish]
  split_ifs
  · exact .inl rfl
  · exact .inl rfl
  · exact .inl rfl
  · rw [openSession]
    split_ifs
    · exact .inl rfl
    · exact .inl rfl
    · exact .inr ⟨_,rfl,rfl,rfl⟩

variable {crypto}

theorem limited_login {h : History} {r : LoginRequest} (asked answered : ℤ) (tok : Text)
    (hlm : 0 < limit) (hs : Sound crypto h.store h.ledger h.clock)
    (hr : r.maxSessionsPerUser = limit) (hl : Limited limit h.ledger) :
    Limited limit (login crypto h r asked answered tok).ledger := by
  rw [login]
  cases (loginFind .ready asked h.store r).2 with
  | error res => exact hl
  | ok acc =>
    dsimp only
    rw [loginLedger]
    split_ifs
    · rw [hr]
      obtain ⟨he,hrm⟩ := limited_evict _ _ hs hlm hl
      obtain hn | ⟨e,ho,hlv,hu⟩ := opened_cases _ _ _ tok
        _ r acc
      · rw [hn,append_nil]
        exact he
      · rw [ho]
        intro uid
        rw [live_append _ hlv,countP_append,countP_singleton]
        have hold := he uid
        by_cases hsm : e.userId = uid
        · rw [← hsm,hu,if_pos (by simp)]
          omega
        · rw [if_neg (by simp [hsm])]
          exact hold
    · exact hl

theorem limited_step {h : History} {e : Request} (hlm : 0 < limit)
    (hs : Sound crypto h.store h.ledger h.clock) (hf : Forward limit h e)
    (hl : Limited limit h.ledger) :
    Limited limit (step crypto h e).ledger := by
  have hr : ∀ uid, Limited limit (revokeUser uid h.ledger) := fun uid =>
    limited_close _ (by decide) hl
  cases e with
  | login r asked answered tok =>
    exact limited_login asked _ tok hlm hs hf.2.2 hl
  | authenticate now tok =>
    rw [step]
    split_ifs
    · exact hl
    · exact limited_close _ (by decide) hl
  | revoke tok =>
    rw [step]
    split_ifs
    · exact hl
    · exact limited_close _ (by decide) hl
  | revokeAllForUser uid => exact hr uid
  | purgeExpiredSessions now => exact limited_close _ (by decide) hl
  | createUser now username password salt role => exact hl
  | setPassword now uid password salt =>
    rw [step]
    split_ifs
    · exact hl
    · exact hr uid
  | setEnabled uid enabled =>
    rw [step]
    split_ifs
    · exact hl
    · exact hr uid
  | setRole uid role =>
    rw [step]
    split_ifs
    · exact hl
    · exact hr uid
  | deleteUser uid => exact limited_close _ (by decide) hl
  | wait now => exact hl

/-! ## Who is let in -/

theorem authenticate_iff {h : History} {now : ℤ} {tok : Text} (session : Session)
    (hs : Sound crypto h.store h.ledger h.clock) (hn : h.clock ≤ now)
    (hc : ∀ e ∈ h.ledger, tokenHash crypto e.token = tokenHash crypto tok → e.token = tok) :
    (authenticate crypto .ready now h.store tok).2 = some session ↔
      ∃ e account, Usable h.ledger tok now e ∧
        h.store.accounts.get e.userId = some account ∧ account.enabled = true ∧
        session = ⟨e.id,e.userId,account.username,storedRole account.role,e.issuedAt,e.expiresAt,
          e.sourceIp⟩ := by
  constructor
  · intro hle
    obtain ⟨row,hr,account,hh,ha,hen,hlt,rfl⟩ := authenticate_some hle
    obtain ⟨e,he,hp,_⟩ := row_owned _ _ _ _ hs hr
    obtain ⟨hm,hl⟩ := (mem_live _ e).mp he
    injection hp with hid hsm hus hi hex hip
    refine ⟨e,account,⟨hm,hc e hm (hsm.trans hh),by simp [hl],by simp [hl],
      hex ▸ hlt⟩,hus ▸ ha,hen,?_⟩
    rw [sessionOf,hid,hus,hi,hex,hip]
  · rintro ⟨e,account,hu,ha,hen,rfl⟩
    have hl : e.standing = .live := by
      cases hst : e.standing with
      | live => rfl
      | revoked => exact absurd hst hu.not_revoked
      | evicted => exact absurd hst hu.not_evicted
      | expired =>
        have hep := hs.expired e hu.opened hst
        have hlt := hu.not_expired
        omega
      | deleted =>
        have hg := (hs.deleted e hu.opened hst).2
        rw [ha] at hg
        cases hg
    have hp : entryPass crypto e ∈ h.store.sessions.rows.map passOf :=
      hs.rows ▸ mem_map_of_mem ((mem_live _ e).mpr ⟨hu.opened,hl⟩)
    obtain ⟨row,hr,hsm⟩ := mem_map.mp hp
    injection hsm with hid hh hus hi hex hip
    have hle := authenticate_row crypto h.store tok row account .ready now
      (hu.token ▸ hs.tokens e hu.opened) rfl rfl hs.unique hr (hu.token ▸ hh)
      (hus ▸ ha) hen (hex ▸ hu.not_expired)
    rw [hle,sessionOf,hid,hus,hi,hex,hip]

/-- After every history of calls with one positive limit: no user has more sessions than the
limit, and a token lets a request in just when a login issued it, it was neither revoked nor
evicted, it has not expired, and its user is there and enabled; the role is the user's of now. -/
theorem sessions_exact (crypto : Crypto) (limit clock : ℤ) (store : Store)
    (requests : List Request) (hlimit : 0 < limit)
    (hforward : Meets (step crypto) (Forward limit) (start store clock) requests) :
    let h := run (step crypto) (start store clock) requests
    (∀ userId : ℕ,
        (h.store.sessions.rows.countP (fun row => row.userId = userId) : ℤ) ≤ limit) ∧
      ∀ (now : ℤ) (token : Text) (session : Session), h.clock ≤ now →
        (∀ e ∈ h.ledger, tokenHash crypto e.token = tokenHash crypto token → e.token = token) →
        ((authenticate crypto .ready now h.store token).2 = some session ↔
          ∃ e account, Usable h.ledger token now e ∧
            h.store.accounts.get e.userId = some account ∧ account.enabled = true ∧
            session = ⟨e.id,e.userId,account.username,storedRole account.role,e.issuedAt,
              e.expiresAt,e.sourceIp⟩) := by
  intro h
  have hi := run_invariant (step crypto) (Forward limit)
    (fun h => Sound crypto h.store h.ledger h.clock ∧ Limited limit h.ledger)
    (fun h e hs hn => ⟨sound_step crypto limit h e hs.1 hn,
      limited_step hlimit hs.1 hn hs.2⟩) (start store clock) requests
    ⟨start_sound crypto store clock,fun _ => hlimit.le⟩ hforward
  refine ⟨fun userId => ?_,fun now token session hnw hc => ?_⟩
  · rw [count_rows crypto h.store hi.1 userId]
    exact hi.2 userId
  · exact authenticate_iff session hi.1 hnw hc

def anna : LoginRequest := ⟨"anna","old","10.0.0.7",5,300,1800,1⟩

def twoLogins : List Request :=
  [.login anna 100 101 "first",.login anna 110 111 "second"]

/-- With one session allowed, the second login evicts the first. -/
theorem sessions_exact_two_logins :
    let h := run (step demoCrypto) (start demoStore 0) twoLogins
    h.ledger.map Entry.standing = [.evicted,.live] ∧
      (∀ userId : ℕ, (h.store.sessions.rows.countP (fun row => row.userId = userId) : ℤ) ≤ 1) ∧
      ((authenticate demoCrypto .ready 120 h.store "first").2 =
          some ⟨1,1,"anna",.kUser,101,1901,"10.0.0.7"⟩ ↔
        ∃ e account, Usable h.ledger "first" 120 e ∧
          h.store.accounts.get e.userId = some account ∧ account.enabled = true ∧
          (⟨1,1,"anna",.kUser,101,1901,"10.0.0.7"⟩ : Session) =
            ⟨e.id,e.userId,account.username,storedRole account.role,e.issuedAt,e.expiresAt,
              e.sourceIp⟩) := by
  have hf : Meets (step demoCrypto) (Forward 1)
      (start demoStore 0) twoLogins :=
    ⟨⟨by decide,by decide,rfl⟩,⟨by decide +kernel,by decide,rfl⟩,trivial⟩
  obtain ⟨hc,he⟩ := sessions_exact _ 1 0 _ _ (by decide) hf
  exact ⟨by decide +kernel,hc,he 120 "first" _ (by decide +kernel) (fun _ _ h => h)⟩

end EMaster.SessionHistory
