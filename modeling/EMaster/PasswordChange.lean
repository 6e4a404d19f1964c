import EMaster.Runs
import EMaster.SecurityStore

/-!
# Logins while a password changes

A login reads the stored hash under the store's lock, checks the password without it and takes it
again to open the session. A change of the password stores the new hash under the lock and takes
it again to revoke the user's sessions. The sections of all calls are interleaved with requests.
-/

set_option autoImplicit false

namespace EMaster.PasswordChange
open Runs KeyedTable SecurityStore List Function

/-- How far a call has come; a revocation has the number of the change it belongs to. -/
inductive Task where
  | find (r : LoginRequest)
  | finish (r : LoginRequest) (account : Account)
  | update (userId : ℕ) (hash : Text)
  | revoke (userId change : ℕ)
  | loggedIn (result : LoginResult)
  | changed (result : Except Text Unit)

/-- `retired` is the last change of a user's password whose call has returned. -/
structure Sys where
  store : Store
  tasks : List Task
  retired : ℕ → ℕ

inductive Event where
  | login (r : LoginRequest)
  | setPassword (userId : ℕ) (password salt : Text)
  | request (db : Database) (now : ℤ) (token : Text)
  | turn (i : ℕ) (db : Database) (now : ℤ) (token : Text)

def changesOf (store : Store) (userId : ℕ) : ℕ := (store.accounts.get userId).elim 0 Account.changes

def setPassword (crypto : Crypto) (userId : ℕ) (password salt : Text) : Task :=
  let hash := (crypto.str salt password).getD []
  if hash = [] then .changed (.error "could not hash the password")
  else .update userId hash

def advance (crypto : Crypto) (s : Sys) (i : ℕ) (db : Database) (now : ℤ) (token : Text) :
    Task → Sys
  | .find r =>
    let after := loginFind db now s.store r
    match after.2 with
    | .error result => ⟨after.1,s.tasks.set i (.loggedIn result),s.retired⟩
    | .ok account => ⟨after.1,s.tasks.set i (.finish r account),s.retired⟩
  | .finish r account =>
    let after := loginFinish crypto db now token s.store r account
    ⟨after.1,s.tasks.set i (.loggedIn after.2),s.retired⟩
  | .update userId hash =>
    let after := updatePassword db now s.store userId hash
    match after.2 with
    | .error error => ⟨after.1,s.tasks.set i (.changed (.error error)),s.retired⟩
    | .ok () => ⟨after.1,s.tasks.set i (.revoke userId (changesOf after.1 userId)),s.retired⟩
  | .revoke userId change =>
    ⟨revokeAllForUser db s.store userId,s.tasks.set i (.changed (.ok ())),
      Function.update s.retired userId (max (s.retired userId) change)⟩
  | .loggedIn _ => s
  | .changed _ => s

def step (crypto : Crypto) (s : Sys) : Event → Sys
  | .login r => { s with tasks := s.tasks++[.find r] }
  | .setPassword userId password salt =>
    { s with tasks := s.tasks++[setPassword crypto userId password salt] }
  | .request db now token => { s with store := (authenticate crypto db now s.store token).1 }
  | .turn i db now token =>
    match s.tasks[i]? with
    | none => s
    | some task => advance crypto s i db now token task

/-- The store as it is loaded: no session survives a restart. -/
def idle (store : Store) : Sys := ⟨store.retain (fun _ => false),[],fun _ => 0⟩

/-- No request is let in with a session that was opened with a password whose change has
returned. -/
def Shut (crypto : Crypto) (s : Sys) : Prop :=
  ∀ (db : Database) (now : ℤ) (token : Text) (session : Session) (row : SessionRow),
    (authenticate crypto db now s.store token).2 = some session → row ∈ s.store.sessions.rows →
      row.id = session.id → s.retired row.userId ≤ row.changes

/-- What a section must find: a login that opens a session was checked against a password whose
change has not returned, and a revocation deletes the sessions. -/
def InTime (crypto : Crypto) (s : Sys) (db : Database) (now : ℤ) (token : Text) : Task → Prop
  | .finish r account => (loginFinish crypto db now token s.store r account).2.isOk = true →
      s.retired account.id ≤ account.changes
  | .revoke userId change => (db.isOpen = true ∧ db.runs .revokeAll = true) ∨
      ∀ row ∈ s.store.sessions.rows, row.userId = userId → change ≤ row.changes
  | _ => True

def Timely (crypto : Crypto) (s : Sys) : Event → Prop
  | .turn i db now token => ∀ task, s.tasks[i]? = some task → InTime crypto s db now token task
  | _ => True

/-! ## Sessions that let requests in -/

def Fresh (s : Sys) : Prop := ∀ row ∈ s.store.sessions.rows, s.retired row.userId ≤ row.changes

/-- The account that a login has read is still there and as enabled as it was. -/
def Known (store : Store) : Task → Prop
  | .finish _ account =>
    (store.accounts.get account.id).map Account.enabled = some account.enabled
  | _ => True

structure Sound (crypto : Crypto) (s : Sys) : Prop where
  issued : ∀ row ∈ s.store.sessions.rows, ∃ token, token ≠ [] ∧
    row.tokenHash = tokenHash crypto token
  unique : (s.store.sessions.rows.map SessionRow.tokenHash).Nodup
  owned : ∀ row ∈ s.store.sessions.rows,
    (s.store.accounts.get row.userId).map Account.enabled = some true
  known : ∀ task ∈ s.tasks, Known s.store task

variable (crypto : Crypto) (s : Sys) (i : ℕ)

theorem shut_iff (h : Sound crypto s) : Shut crypto s ↔ Fresh s := by
  constructor
  · intro hs row hr
    obtain ⟨tok,ht,hh⟩ := h.issued row hr
    obtain ⟨acc,ha,he⟩ := Option.map_eq_some_iff.mp (h.owned row hr)
    have hl := authenticate_row _ _ tok row acc
      ⟨true,fun _ => true,fun _ => true⟩ (row.expiresAt-1) ht rfl rfl h.unique hr hh
      ha he (by omega)
    exact hs _ _ tok _ row hl hr rfl
  · exact fun hf _ _ _ _ row _ hr _ => hf row hr

theorem known_fewer {old new : Store} (hf : Fewer old new) {task : Task}
    (h : Known old task) : Known new task := by
  cases task with
  | finish r acc =>
    rw [Known] at h ⊢
    rw [hf.accounts,h]
  | _ => trivial

variable (db : Database) (now : ℤ) (new : Store) (tasks : List Task) (tok : Text) (task : Task)

theorem sound_fewer (retired : ℕ → ℕ) (hf : Fewer s.store new) (h : Sound crypto s)
    (hk : ∀ task ∈ tasks, Known new task) :
    Sound crypto ⟨new,tasks,retired⟩ := by
  refine ⟨?_,h.unique.sublist (hf.sessions.map _),?_,hk⟩
  · exact fun row hr => h.issued row (hf.sessions.subset hr)
  · intro row hr
    rw [hf.accounts]
    exact h.owned row (hf.sessions.subset hr)

theorem known_set {store : Store} {tasks : List Task} {i : ℕ} {task : Task}
    (hk : ∀ other ∈ tasks, Known store other) (ht : Known store task) :
    ∀ other ∈ tasks.set i task, Known store other := by
  intro other ho
  obtain hold | rfl := mem_or_eq_of_mem_set ho
  · exact hk other hold
  · exact ht

theorem sound_turn (retired : ℕ → ℕ) (hf : Fewer s.store new) (h : Sound crypto s)
    (ht : Known new task) : Sound crypto ⟨new,s.tasks.set i task,retired⟩ :=
  sound_fewer _ s new _ _ hf h
    (known_set (fun o ho => known_fewer hf (h.known o ho)) ht)

theorem sound_opened {new : Store} {r : LoginRequest} {acc : Account} (result : LoginResult)
    (h : Sound crypto s) (ht : Known s.store (.finish r acc))
    (ho : Opened crypto now tok s.store new r acc) :
    Sound crypto ⟨new,s.tasks.set i (.loggedIn result),s.retired⟩ := by
  obtain ⟨kept,id,hk,hot,hrw⟩ := ho.sessions
  refine ⟨?_,?_,?_,known_set ?_ trivial⟩
  · intro row hr
    rw [hrw] at hr
    obtain hold | hn := mem_append.mp hr
    · exact h.issued row (hk.subset hold)
    · rw [mem_singleton.mp hn]
      exact ⟨tok,ho.token_ne,rfl⟩
  · rw [hrw,map_append,nodup_append]
    refine ⟨h.unique.sublist (hk.map _),nodup_singleton _,?_⟩
    intro hash hh o hn
    obtain ⟨row,hr,rfl⟩ := mem_map.mp hh
    rw [mem_singleton.mp hn]
    exact hot row hr
  · intro row hr
    rw [hrw] at hr
    rw [ho.accounts]
    obtain hold | hn := mem_append.mp hr
    · exact h.owned row (hk.subset hold)
    · rw [mem_singleton.mp hn]
      exact ht.trans (congrArg some ho.enabled)
  · intro task hm
    have hkn := h.known task hm
    cases task with
    | finish o read =>
      rw [Known] at hkn ⊢
      rw [ho.accounts,hkn]
    | _ => trivial

theorem sound_advance (h : Sound crypto s) (ht : s.tasks[i]? = some task) :
    Sound crypto (advance crypto s i db now tok task) := by
  cases task with
  | find r =>
    obtain ⟨hf,hfn⟩ := login_find_cases db now _ r
    rw [advance]
    cases hr : (loginFind db now s.store r).2 with
    | error res => exact sound_turn _ s i _ _ _ hf h trivial
    | ok acc =>
      refine sound_turn _ s i _ _ _ hf h ?_
      rw [Known,hf.accounts,get_key _ acc (hfn acc hr)]
      rfl
  | finish r acc =>
    obtain ⟨_,hf⟩ | ⟨_,ho⟩ := login_finish_cases _ db now tok _ r acc
    · exact sound_turn _ s i _ _ _ hf h trivial
    · exact sound_opened _ s i now tok _ h (h.known _ (mem_of_getElem? ht)) ho
  | update uid hash =>
    have hf := (update_password_fewer db now s.store uid hash).1
    rw [advance]
    cases (updatePassword db now s.store uid hash).2 with
    | error error => exact sound_turn _ s i _ _ _ hf h trivial
    | ok done => exact sound_turn _ s i _ _ _ hf h trivial
  | revoke uid chg =>
    exact sound_turn _ s i _ _ _ (revoke_all_fewer db _ uid) h trivial
  | loggedIn res => exact h
  | changed res => exact h

theorem sound_step (e : Event) (h : Sound crypto s) : Sound crypto (step crypto s e) := by
  have hc : ∀ task, Known s.store task → Sound crypto { s with tasks := s.tasks++[task] } := by
    intro task ht
    refine sound_fewer _ s _ _ _ (fewer_refl _) h fun o ho => ?_
    obtain hold | hn := mem_append.mp ho
    · exact h.known o hold
    · exact mem_singleton.mp hn ▸ ht
  cases e with
  | login r => exact hc _ trivial
  | setPassword uid password salt =>
    refine hc _ ?_
    rw [setPassword]
    split_ifs <;> trivial
  | request db now tok =>
    have hf := authenticate_fewer crypto db now s.store tok
    exact sound_fewer _ s _ _ _ hf h (fun task ht => known_fewer hf (h.known task ht))
  | turn i db now tok =>
    rw [step]
    cases ht : s.tasks[i]? with
    | none => exact h
    | some task => exact sound_advance _ s i db now tok task h ht

/-! ## Sessions opened with an old password -/

theorem fresh_fewer (hf : Fewer s.store new) (h : Fresh s) : Fresh ⟨new,tasks,s.retired⟩ :=
  fun row hr => h row (hf.sessions.subset hr)

theorem fresh_opened_iff {new : Store} (tasks : List Task) {r : LoginRequest} {acc : Account}
    (h : Fresh s) (ho : Opened crypto now tok s.store new r acc) :
    Fresh ⟨new,tasks,s.retired⟩ ↔ s.retired acc.id ≤ acc.changes := by
  obtain ⟨kept,id,hk,_,hr⟩ := ho.sessions
  constructor
  · intro hf
    exact hf (sessionRow crypto now tok r acc id) (by rw [hr]; simp)
  · intro hle row hrw
    rw [hr] at hrw
    obtain hold | hn := mem_append.mp hrw
    · exact h row (hk.subset hold)
    · rw [mem_singleton.mp hn]
      exact hle

theorem fresh_revoke_iff (uid chg : ℕ) (h : Fresh s) :
    Fresh ⟨revokeAllForUser db s.store uid,tasks,
        update s.retired uid (max (s.retired uid) chg)⟩ ↔
      (db.isOpen = true ∧ db.runs .revokeAll = true) ∨
        ∀ row ∈ s.store.sessions.rows, row.userId = uid → chg ≤ row.changes := by
  rw [revokeAllForUser]
  split_ifs with hrn
  · refine iff_of_true ?_ (.inl hrn)
    intro row hr
    obtain ⟨hm,hk⟩ := mem_filter.mp hr
    show update s.retired uid _ row.userId ≤ row.changes
    rw [update_of_ne (by simpa using hk)]
    exact h row hm
  · constructor
    · intro hf
      refine .inr fun row hr hu => ?_
      have hle : update s.retired uid _ row.userId ≤ row.changes := hf row hr
      rw [hu,update_self] at hle
      exact (le_max_right _ _).trans hle
    · rintro (hd | hn) row hr
      · exact absurd hd hrn
      · show update s.retired uid _ row.userId ≤ row.changes
        by_cases hu : row.userId = uid
        · rw [hu,update_self]
          exact max_le (hu ▸ h row hr) (hn row hr hu)
        · rw [update_of_ne hu]
          exact h row hr

theorem fresh_advance_iff (h : Fresh s) :
    Fresh (advance crypto s i db now tok task) ↔ InTime crypto s db now tok task := by
  cases task with
  | find r =>
    have hf := (login_find_cases db now s.store r).1
    rw [advance]
    cases (loginFind db now s.store r).2 with
    | error res => exact iff_of_true (fresh_fewer s _ _ hf h) trivial
    | ok acc => exact iff_of_true (fresh_fewer s _ _ hf h) trivial
  | finish r acc =>
    rw [advance,InTime]
    obtain ⟨hfl,hf⟩ | ⟨hok,ho⟩ :=
      login_finish_cases crypto db now tok s.store r acc
    · refine iff_of_true (fresh_fewer s _ _ hf h) fun hok => ?_
      rw [hfl] at hok
      cases hok
    · rw [fresh_opened_iff crypto s now tok _ h ho]
      exact ⟨fun hle _ => hle,fun hi => hi hok⟩
  | update uid hash =>
    have hf := (update_password_fewer db now s.store uid hash).1
    rw [advance]
    cases (updatePassword db now s.store uid hash).2 with
    | error error => exact iff_of_true (fresh_fewer s _ _ hf h) trivial
    | ok done => exact iff_of_true (fresh_fewer s _ _ hf h) trivial
  | revoke uid chg => exact fresh_revoke_iff s db _ uid chg h
  | loggedIn res => exact iff_of_true h trivial
  | changed res => exact iff_of_true h trivial

theorem fresh_step_iff (e : Event) (h : Fresh s) : Fresh (step crypto s e) ↔ Timely crypto s e := by
  cases e with
  | login r => exact iff_of_true h trivial
  | setPassword uid password salt => exact iff_of_true h trivial
  | request db now tok =>
    exact iff_of_true (fresh_fewer s _ _ (authenticate_fewer crypto db now s.store tok) h) trivial
  | turn i db now tok =>
    rw [step,Timely]
    cases ht : s.tasks[i]? with
    | none => exact iff_of_true h (fun task hn => by cases hn)
    | some task =>
      refine (fresh_advance_iff crypto s i db now tok task h).trans ?_
      exact ⟨fun hin o ho => Option.some.inj ho ▸ hin,fun ha => ha task rfl⟩

theorem idle_sound (store : Store) : Sound crypto (idle store) := by
  have hn : (idle store).store.sessions.rows = [] := by
    simp [idle,Store.retain,Table.retain]
  refine ⟨?_,?_,?_,?_⟩
  · simp [hn]
  · simp [hn]
  · simp [hn]
  · simp [idle]

/-- Over every interleaving, no request is let in with a session that was opened with a password
whose change has returned, just when each login that opens a session was checked against a
password whose change has not returned by then and each revocation deletes what it should. -/
theorem old_sessions_shut_iff (crypto : Crypto) (store : Store) (events : List Event) :
    (∀ past rest, events = past++rest → Shut crypto (run (step crypto) (idle store) past)) ↔
      Meets (step crypto) (Timely crypto) (idle store) events := by
  apply always_iff_meets (step crypto) (Timely crypto) (fun s => Sound crypto s ∧ Fresh s)
    (Shut crypto)
  · exact fun s e hs ht =>
      ⟨sound_step crypto s e hs.1,(fresh_step_iff crypto s e hs.2).mpr ht⟩
  · exact fun s hs => (shut_iff crypto s hs.1).mpr hs.2
  · exact fun s e hs hn hsh => hn ((fresh_step_iff crypto s e hs.2).mp
      ((shut_iff crypto _ (sound_step crypto s e hs.1)).mp hsh))
  · exact ⟨idle_sound crypto store,fun row _ => Nat.zero_le row.changes⟩

/-! ## A login that is overtaken -/

def demoCrypto : Crypto := ⟨fun _ password => some password,fun hash password => hash = password,id⟩

def working : Database := ⟨true,fun _ => true,fun _ => true⟩

def demoStore : Store where
  accounts := ⟨[⟨1,"anna","USER",true,0,"old",0,false,0⟩],1,by simp,by simp⟩
  sessions := ⟨[],0,by simp,by simp⟩
  failures := []

/-- The password changes between the check of the old one and the opening of the session. -/
def overtaken : List Event :=
  [.login ⟨"anna","old","10.0.0.7",5,300,1800,0⟩,.turn 0 working 100 [],
    .setPassword 1 "new" [],.turn 1 working 101 [],.turn 1 working 102 [],
    .turn 0 working 103 "token"]

/-- The change has returned, and the session opened with the old password lets a request in. -/
theorem old_password_admitted :
    let s := run (step demoCrypto) (idle demoStore) overtaken
    s.retired 1 = 1 ∧ s.store.sessions.rows.map SessionRow.changes = [0] ∧
      ((authenticate demoCrypto working 104 s.store "token".toList).2.map Session.username) =
        some "anna".toList := by
  decide +kernel

end EMaster.PasswordChange
