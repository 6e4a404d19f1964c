import EMaster.PasswordChange

/-!
# The lockout after failed logins

A login is refused while too many failures of its name are recorded. The record is looked at
before the password is verified and written after it, and the lock is not held in between.
-/

set_option autoImplicit false

namespace EMaster.LoginLockout
open Runs KeyedTable SecurityStore PasswordChange List

/-- The calls, with the times at which a password given for the name was found to be wrong and
the time of the last section. -/
structure Watch where
  sys : Sys
  failed : List ℤ
  clock : ℤ

/-- The section of a login for the name whose password was verified and is wrong. -/
def failing (crypto : Crypto) (name : Text) : Task → Bool
  | .finish r account =>
    sameName r.username name && !verify crypto account.passwordHash r.password
  | _ => false

def watch (crypto : Crypto) (name : Text) (w : Watch) (e : Event) : Watch :=
  match e with
  | .turn i _ now _ =>
    ⟨step crypto w.sys e,
      if w.sys.tasks[i]?.any (failing crypto name) then w.failed++[now] else w.failed,now⟩
  | _ => ⟨step crypto w.sys e,w.failed,w.clock⟩

def quietStart (store : Store) (clock : ℤ) : Watch := ⟨idle { store with failures := [] },[],clock⟩

def recent (window now : ℤ) (times : List ℤ) : ℕ := times.countP (fun t => now-window ≤ t)

def Limited (name : Text) (limit window : ℤ) (r : LoginRequest) : Prop :=
  sameName r.username name = true → r.maxFailedAttempts = limit ∧ r.lockoutSeconds = window

/-- At most `limit` passwords were found wrong in the window before any time from now on, and when
it is that many the next login is refused as locked and goes no further. -/
def Guarded (name : Text) (limit window : ℤ) (w : Watch) : Prop :=
  ∀ now, w.clock ≤ now → (recent window now w.failed : ℤ) ≤ limit ∧
    ((recent window now w.failed : ℤ) = limit → ∀ (db : Database) (r : LoginRequest), db.Works →
      sameName r.username name = true → Limited name limit window r →
      ∃ remaining, loginFind db now w.sys.store r = (w.sys.store,.error (.kLockedOut remaining)))

def timesOf (name : Text) (failures : List Failure) : List ℤ :=
  (failures.filter (fun failure => sameName failure.username name)).map Failure.time

/-- The second section of a login for the name: with a wrong password the check of the record
would still let it pass, and with the right one of an enabled account no failure counts, since it
clears them. -/
def Rechecked (crypto : Crypto) (name : Text) (window : ℤ) (db : Database) (now : ℤ)
    (store : Store) : Task → Prop
  | .finish r account => sameName r.username name = true →
      if verify crypto account.passwordHash r.password then
        account.enabled = true → recent window now (timesOf name store.failures) = 0
      else lockout db now store r = none
  | _ => True

/-- The limits stay as they are, the clock does not run backwards, the statements are carried
out, and logins finish as they would pass the check. -/
def InTurn (crypto : Crypto) (name : Text) (limit window : ℤ) (w : Watch) : Event → Prop
  | .login r => Limited name limit window r
  | .turn i db now _ => w.clock ≤ now ∧ db.Works ∧
      ∀ task ∈ w.sys.tasks[i]?, Rechecked crypto name window db now w.sys.store task
  | _ => True

/-! ## Counting -/

theorem recent_append (window now t : ℤ) (times : List ℤ) :
    recent window now (times++[t]) = recent window now times+(if now-window ≤ t then 1 else 0) := by
  simp [recent,countP_append,countP_cons]

theorem recent_later (window now later : ℤ) (times : List ℤ) (h : now ≤ later) :
    recent window later times ≤ recent window now times := by
  apply countP_mono_left
  intro t _ ht
  have hle := of_decide_eq_true ht
  exact decide_eq_true (by omega)

variable {a b : Text}

theorem same_name_congr (h : sameName a b = true) (o : Text) : sameName o a = sameName o b := by
  simp only [sameName,decide_eq_true_eq] at h
  simp [sameName,h]

theorem times_append (name user ip : Text) (now : ℤ) (failures : List Failure) :
    timesOf name (failures++[⟨user,ip,now⟩]) =
      timesOf name failures++(if sameName user name then [now] else []) := by
  rw [timesOf,filter_append,map_append,timesOf]
  cases hs : sameName user name <;> simp [hs]

theorem times_clear (name user : Text) (failures : List Failure) :
    timesOf name (failures.filter (fun failure => !sameName failure.username user)) =
      if sameName user name then [] else timesOf name failures := by
  rw [timesOf,filter_filter]
  split_ifs with hs
  · simp [same_name_congr hs]
  · rw [timesOf]
    congr 2
    funext failure
    cases hn : sameName failure.username name with
    | false => rfl
    | true =>
      have ho : sameName failure.username user = false := by
        by_contra hc
        rw [Bool.not_eq_false] at hc
        apply hs
        simp only [sameName,decide_eq_true_eq] at hn hc ⊢
        rw [← hc,hn]
      rw [ho]
      rfl

variable (db : Database) (store : Store) (now : ℤ)

theorem failed_attempts_eq {name user : Text} (window : ℤ) (hdb : db.Works)
    (h : sameName user name = true) :
    failedAttempts db store user (now-window) =
      recent window now (timesOf name store.failures) := by
  rw [failedAttempts,if_pos (hdb.runs _),failuresSince,recent,timesOf,countP_map,
    countP_filter,← countP_eq_length_filter]
  congr 2
  funext failure
  rw [same_name_congr h,Bool.and_comm]
  rfl

theorem lockout_none_iff (name : Text) (limit window now : ℤ) (r : LoginRequest)
    (hlm : 0 < limit) (hw : 0 < window) (hdb : db.Works)
    (hsm : sameName r.username name = true) (hr : Limited name limit window r) :
    lockout db now store r = none ↔
      (recent window now (timesOf name store.failures) : ℤ) < limit := by
  obtain ⟨hm,hs⟩ := hr hsm
  rw [lockout,hm,hs,failed_attempts_eq db store now _ hdb hsm]
  split_ifs with hl
  · simp only [false_iff,not_lt]
    exact hl.2.2
  · simp only [true_iff]
    by_contra hn
    exact hl ⟨hlm,hw,not_lt.mp hn⟩

/-! ## What the sections record -/

theorem find_records (r : LoginRequest) (hdb : db.Works) :
    (loginFind db now store r).1.failures = store.failures ∨
      (loginFind db now store r).1.failures = store.failures++[⟨r.username,r.sourceIp,now⟩] := by
  rw [loginFind, if_neg (by simp [hdb.isOpen]), if_neg (by simp [hdb.prepares])]
  cases lockout db now store r with
  | some remaining => exact .inl rfl
  | none =>
    cases findAccount db store r.username with
    | some acc => exact .inl rfl
    | none =>
      dsimp only
      rw [recordFailure,if_pos (hdb.runs _)]
      exact .inr rfl

theorem open_session_records (crypto : Crypto) (tok : Text) (r : LoginRequest) (acc : Account) :
    (openSession crypto db now tok store r acc).1.failures = store.failures := by
  rw [openSession]
  split_ifs
  · rfl
  · rfl
  · dsimp only
    rw [setLastLogin]
    split_ifs <;> rfl

/-- The second half records a failure or, with the right password of an enabled account, clears
the failures of the name. -/
theorem finish_records (crypto : Crypto) {db : Database} (tok : Text) (r : LoginRequest)
    (acc : Account) (hdb : db.Works) : (loginFinish crypto db now tok store r acc).1.failures =
      if verify crypto acc.passwordHash r.password = true ∧ acc.enabled = true then
        store.failures.filter (fun failure => !sameName failure.username r.username)
      else store.failures++[⟨r.username,r.sourceIp,now⟩] := by
  rw [loginFinish, if_neg (by simp [hdb.isOpen])]
  cases hv : verify crypto acc.passwordHash r.password with
  | false => simp [recordFailure,hdb.runs]
  | true =>
    cases he : acc.enabled with
    | false => simp [recordFailure,hdb.runs]
    | true =>
      simp only [Bool.true_eq_false,if_false,and_self,if_true]
      rw [open_session_records,enforceSessionLimit,clearFailures,if_pos (hdb.runs _)]
      split_ifs <;> rfl

theorem update_password_records (uid : ℕ) (hash : Text) :
    (updatePassword db now store uid hash).1.failures = store.failures := by
  rw [updatePassword]
  split_ifs <;> rfl

theorem revoke_all_records (uid : ℕ) :
    (revokeAllForUser db store uid).failures = store.failures := by
  rw [revokeAllForUser]
  split_ifs <;> rfl

theorem authenticate_records (crypto : Crypto) (tok : Text) :
    (authenticate crypto db now store tok).1.failures = store.failures := by
  rw [authenticate]
  cases findSession db store (tokenHash crypto tok) with
  | none => split_ifs <;> rfl
  | some found =>
    dsimp only
    split_ifs <;> rfl

/-- What a section writes under the name: its failure, perhaps another one, or nothing where no
failure counts. -/
theorem advance_records {crypto : Crypto} {name : Text} {window now : ℤ} (s : Sys) (i : ℕ)
    {db : Database} (tok : Text) {task : Task} (hdb : db.Works)
    (hq : Rechecked crypto name window db now s.store task) :
    let old := timesOf name s.store.failures
    let new := timesOf name (advance crypto s i db now tok task).store.failures
    failing crypto name task = true ∧ new = old++[now] ∨ failing crypto name task = false ∧
      (new = old ∨ new = old++[now] ∨ new = [] ∧ recent window now old = 0) := by
  dsimp only
  cases task with
  | find r =>
    have hst : (advance crypto s i db now tok (.find r)).store =
        (loginFind db now s.store r).1 := by
      rw [advance]
      cases (loginFind db now s.store r).2 <;> rfl
    refine .inr ⟨rfl,?_⟩
    rw [hst]
    obtain hs | hm := find_records db s.store now r hdb
    · exact .inl (by rw [hs])
    · rw [hm,times_append]
      cases sameName r.username name with
      | false => exact .inl (append_nil _)
      | true => exact .inr (.inl rfl)
  | finish r acc =>
    have hst : (advance crypto s i db now tok (.finish r acc)).store =
        (loginFinish crypto db now tok s.store r acc).1 := rfl
    rw [hst,finish_records s.store now crypto tok r acc hdb,failing]
    cases hnm : sameName r.username name with
    | false =>
      refine .inr ⟨rfl,.inl ?_⟩
      split_ifs
      · rw [times_clear,hnm]
        rfl
      · rw [times_append,hnm]
        exact append_nil _
    | true =>
      have hr := hq hnm
      cases hv : verify crypto acc.passwordHash r.password with
      | false =>
        refine .inl ⟨rfl,?_⟩
        rw [if_neg (by simp),times_append,hnm]
        rfl
      | true =>
        rw [hv] at hr
        refine .inr ⟨rfl,.inr ?_⟩
        cases he : acc.enabled with
        | false =>
          rw [if_neg (by simp),times_append,hnm]
          exact .inl rfl
        | true =>
          rw [if_pos ⟨rfl,rfl⟩,times_clear,hnm]
          exact .inr ⟨rfl,hr he⟩
  | update uid hash =>
    have hst : (advance crypto s i db now tok (.update uid hash)).store =
        (updatePassword db now s.store uid hash).1 := by
      rw [advance]
      cases (updatePassword db now s.store uid hash).2 <;> rfl
    rw [hst]
    exact .inr ⟨rfl,.inl (by rw [update_password_records])⟩
  | revoke uid chg =>
    exact .inr ⟨rfl,.inl (congrArg (timesOf name) (revoke_all_records db s.store uid))⟩
  | loggedIn res => exact .inr ⟨rfl,.inl rfl⟩
  | changed res => exact .inr ⟨rfl,.inl rfl⟩

/-! ## The record and the count -/

section Invariant
variable (crypto : Crypto) (name : Text) (limit window : ℤ)

/-- A login for the name is made with the limits. -/
def Fits : Task → Prop
  | .find r | .finish r _ => Limited name limit window r
  | _ => True

/-- No more passwords were found wrong than the limit allows, and those of the window are
recorded. -/
structure Recorded (w : Watch) : Prop where
  covered : ∀ now, w.clock ≤ now →
    recent window now w.failed ≤ recent window now (timesOf name w.sys.store.failures)
  bounded : ∀ now, w.clock ≤ now → (recent window now w.failed : ℤ) ≤ limit
  fits : ∀ task ∈ w.sys.tasks, Fits name limit window task

variable {task : Task} {i : ℕ} {now : ℤ} {s : Sys} {tok : Text}

theorem fits_set {tasks : List Task} (ha : ∀ other ∈ tasks, Fits name limit window other)
    (ht : Fits name limit window task) : ∀ other ∈ tasks.set i task, Fits name limit window other := by
  intro other ho
  obtain hold | rfl := mem_or_eq_of_mem_set ho
  · exact ha other hold
  · exact ht

theorem advance_fits {db : Database} (ha : ∀ other ∈ s.tasks, Fits name limit window other)
    (ht : Fits name limit window task) :
    ∀ other ∈ (advance crypto s i db now tok task).tasks, Fits name limit window other := by
  cases task with
  | find r =>
    rw [advance]
    cases (loginFind db now s.store r).2 with
    | error res => exact fits_set name limit _ ha trivial
    | ok acc => exact fits_set name limit _ ha ht
  | finish r acc => exact fits_set name limit _ ha trivial
  | update uid hash =>
    rw [advance]
    cases (updatePassword db now s.store uid hash).2 <;> exact fits_set name limit _ ha trivial
  | revoke uid chg => exact fits_set name limit _ ha trivial
  | loggedIn res => exact ha
  | changed res => exact ha

variable {limit name window} {w : Watch}

theorem recorded_other {new : Sys} (hcl : w.clock ≤ now) (h : Recorded name limit window w)
    (ht : timesOf name new.store.failures = timesOf name w.sys.store.failures ∨
      timesOf name new.store.failures = timesOf name w.sys.store.failures++[now] ∨
      timesOf name new.store.failures = [] ∧
        recent window now (timesOf name w.sys.store.failures) = 0)
    (hf : ∀ task ∈ new.tasks, Fits name limit window task) :
    Recorded name limit window ⟨new,w.failed,now⟩ := by
  refine ⟨fun later hl => ?_,fun later hl => h.bounded later (hcl.trans hl),hf⟩
  have hc := h.covered later (hcl.trans hl)
  dsimp only
  obtain hs | hm | ⟨_,hz⟩ := ht
  · rw [hs]
    exact hc
  · rw [hm,recent_append]
    exact hc.trans (Nat.le_add_right _ _)
  · -- what was cleared does not count any more
    have hr := recent_later window now later (timesOf name w.sys.store.failures) hl
    rw [hz] at hr
    exact (hc.trans hr).trans (Nat.zero_le _)

theorem recorded_failed {new : Sys} (hcl : w.clock ≤ now) (h : Recorded name limit window w)
    (hl : (recent window now (timesOf name w.sys.store.failures) : ℤ) < limit)
    (ht : timesOf name new.store.failures = timesOf name w.sys.store.failures++[now])
    (hf : ∀ task ∈ new.tasks, Fits name limit window task) :
    Recorded name limit window ⟨new,w.failed++[now],now⟩ := by
  refine ⟨fun later hlt => ?_,fun later hlt => ?_,hf⟩
  · have hcv := h.covered later (hcl.trans hlt)
    dsimp only
    rw [ht,recent_append,recent_append]
    omega
  · have hcv := h.covered now hcl
    have hlater := recent_later window now later w.failed hlt
    dsimp only
    rw [recent_append]
    split_ifs <;> omega

variable (hlm : 0 < limit) (hwn : 0 < window)
include hlm hwn

theorem recorded_turn {db : Database} (h : Recorded name limit window w)
    (hu : InTurn crypto name limit window w (.turn i db now tok)) :
    Recorded name limit window (watch crypto name w (.turn i db now tok)) := by
  obtain ⟨hc,hdb,hq⟩ := hu
  rw [watch,step]
  cases hts : w.sys.tasks[i]? with
  | none => exact recorded_other hc h (.inl rfl) h.fits
  | some task =>
    have hft : ∀ other ∈ (advance crypto w.sys i db now tok task).tasks,
        Fits name limit window other :=
      advance_fits crypto name limit window h.fits (h.fits task (mem_of_getElem? hts))
    simp only [Option.any_some]
    obtain ⟨hf,ht⟩ | ⟨ho,ht⟩ := advance_records w.sys i tok hdb (hq task hts)
    · rw [if_pos hf]
      refine recorded_failed hc h ?_ ht hft
      cases task with
      | finish r acc =>
        obtain ⟨hs,hv⟩ := Bool.and_eq_true_iff.mp hf
        have hr := hq _ hts hs
        rw [if_neg (by simpa using hv)] at hr
        exact (lockout_none_iff db w.sys.store name limit window now r hlm hwn hdb hs
          (h.fits _ (mem_of_getElem? hts))).mp hr
      | _ => cases hf
    · rw [if_neg (by simp [ho])]
      exact recorded_other hc h ht hft

theorem recorded_step (w : Watch) (e : Event) (h : Recorded name limit window w)
    (hu : InTurn crypto name limit window w e) :
    Recorded name limit window (watch crypto name w e) := by
  have hc : ∀ task, Fits name limit window task → Recorded name limit window
      ⟨{ w.sys with tasks := w.sys.tasks++[task] },w.failed,w.clock⟩ := by
    intro task ht
    refine ⟨h.covered,h.bounded,fun o ho => ?_⟩
    obtain hold | hnw := mem_append.mp ho
    · exact h.fits o hold
    · exact mem_singleton.mp hnw ▸ ht
  cases e with
  | login r => exact hc _ hu
  | setPassword uid password salt =>
    refine hc _ ?_
    rw [setPassword]
    split_ifs <;> trivial
  | request db now tok =>
    have htm := congrArg (timesOf name) (authenticate_records db w.sys.store now crypto tok)
    refine ⟨fun later hl => ?_,h.bounded,h.fits⟩
    exact (h.covered later hl).trans_eq (congrArg _ htm.symm)
  | turn i db now tok => exact recorded_turn crypto hlm hwn h hu

theorem guarded_of_recorded (h : Recorded name limit window w) : Guarded name limit window w := by
  intro now hn
  refine ⟨h.bounded now hn,fun hrc db r hdb hs hr => ?_⟩
  have hnn := lockout_none_iff db w.sys.store name limit window now r hlm hwn hdb hs hr
  have hc := h.covered now hn
  cases hl : lockout db now w.sys.store r with
  | none =>
    have hls := hnn.mp hl
    omega
  | some remaining =>
    refine ⟨remaining,?_⟩
    rw [loginFind, if_neg (by simp [hdb.isOpen]), hl]

end Invariant

/-- Over every interleaving of the calls: no more passwords are found wrong in one window than the
limit allows, with every login refused from then on, if each login finishes in a store whose
record would still let it pass, or has no failure to clear. -/
theorem lockout_holds (crypto : Crypto) (name : Text) (limit window clock : ℤ)
    (store : Store) (past rest : List Event) (hlimit : 0 < limit) (hwindow : 0 < window)
    (h : Meets (watch crypto name) (InTurn crypto name limit window) (quietStart store clock)
      (past++rest)) :
    Guarded name limit window (run (watch crypto name) (quietStart store clock) past) :=
  guarded_of_recorded hlimit hwindow (run_always (watch crypto name)
    (InTurn crypto name limit window) (Recorded name limit window)
    (recorded_step crypto hlimit hwindow) _ past rest
    ⟨fun _ _ => le_rfl,fun _ _ => hlimit.le,fun _ ht => absurd ht not_mem_nil⟩ h)

/-! ## Two logins at once -/

def guess : LoginRequest := ⟨"anna","guess","10.0.0.7",1,300,1800,0⟩

def oneGuess : List Event := [.login guess,.turn 0 .ready 100 [],.turn 0 .ready 101 []]

/-- One password is found wrong and the name is locked. -/
theorem lockout_holds_guess :
    Meets (watch demoCrypto "anna") (InTurn demoCrypto "anna" 1 300) (quietStart demoStore 0)
        oneGuess ∧
      Guarded "anna" 1 300
        (run (watch demoCrypto "anna") (quietStart demoStore 0) oneGuess) := by
  have hu : Meets (watch demoCrypto "anna") (InTurn demoCrypto "anna" 1 300)
      (quietStart demoStore 0) oneGuess := by
    refine ⟨fun _ => ⟨rfl,rfl⟩,⟨by decide,ready_works,?_⟩,⟨by decide,ready_works,?_⟩,trivial⟩
    · intro task ht
      obtain rfl := Option.some.inj ht
      trivial
    · intro task ht
      obtain rfl := Option.some.inj ht
      intro _
      rw [if_neg (by decide)]
      decide +kernel
  exact ⟨hu,lockout_holds _ _ 1 300 0 _ oneGuess [] (by decide) (by decide) hu⟩

/-- Both logins pass the check before either writes its failure. -/
theorem two_guesses_verified :
    let w := run (watch demoCrypto "anna") (quietStart demoStore 0)
      [.login guess,.login guess,.turn 0 working 100 [],.turn 1 working 100 [],
        .turn 0 working 101 [],.turn 1 working 101 []]
    guess.maxFailedAttempts = 1 ∧ recent guess.lockoutSeconds w.clock w.failed = 2 ∧
      ¬Guarded "anna" guess.maxFailedAttempts guess.lockoutSeconds w := by
  refine ⟨rfl,by decide +kernel,fun h => ?_⟩
  exact absurd (h _ le_rfl).1 (by decide +kernel)

end EMaster.LoginLockout
