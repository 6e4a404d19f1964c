import Mathlib
import EMaster.Text

/-!
# Transactions over one connection

The handle counts how deep transactions are nested and issues one BEGIN and one COMMIT
for the outermost. What SQLite answers to each call is supplied, in the order of the
calls; a failing call may also have rolled the open transaction back. A body is a
program that sees the answer to each statement and to each transaction inside it.
-/

set_option autoImplicit false

namespace EMaster.SqlDatabase
open Text

variable {Stmt : Type}

/-- A call that is aborted fails, and the open transaction is gone. -/
inductive Answer where
  | ok
  | failed (message : Text)
  | aborted (message : Text)
  deriving DecidableEq

/-- The statements that are durable, those of the open transaction, and the nesting as
the handle counts it. -/
structure Conn (Stmt : Type) where
  committed : List Stmt
  pending : Option (List Stmt)
  transactionDepth : ℕ
  answers : ℕ → Answer

structure Reply (Stmt : Type) where
  conn : Conn Stmt
  result : Except Text Unit

def asked (c : Conn Stmt) : Conn Stmt := { c with answers := fun n => c.answers (n+1) }

def dropped (c : Conn Stmt) : Conn Stmt := { c with pending := none }

/-- One call of SQLite. What it does when it is accepted is supplied. -/
def call (c : Conn Stmt) (accept : Conn Stmt → Reply Stmt) : Reply Stmt :=
  match c.answers 0 with
  | .ok => accept (asked c)
  | .failed message => ⟨asked c,.error message⟩
  | .aborted message => ⟨dropped (asked c),.error message⟩

def beginImmediate (c : Conn Stmt) : Reply Stmt :=
  call c fun c => match c.pending with
    | none => ⟨{ c with pending := some [] },.ok ()⟩
    | some _ => ⟨c,.error "cannot start a transaction within a transaction"⟩

def commitPending (c : Conn Stmt) : Reply Stmt :=
  call c fun c => match c.pending with
    | none => ⟨c,.error "cannot commit - no transaction is active"⟩
    | some stmts => ⟨{ c with committed := c.committed++stmts,pending := none },.ok ()⟩

def rollbackPending (c : Conn Stmt) : Reply Stmt :=
  call c fun c => match c.pending with
    | none => ⟨c,.error "cannot rollback - no transaction is active"⟩
    | some _ => ⟨dropped c,.ok ()⟩

/-- Outside a transaction a statement is durable at once. -/
def execute (c : Conn Stmt) (stmt : Stmt) : Reply Stmt :=
  call c fun c => match c.pending with
    | none => ⟨{ c with committed := c.committed++[stmt] },.ok ()⟩
    | some stmts => ⟨{ c with pending := some (stmts++[stmt]) },.ok ()⟩

def withDepth (depth : ℕ) (c : Conn Stmt) : Conn Stmt := { c with transactionDepth := depth }

def begin (c : Conn Stmt) : Reply Stmt :=
  if 0 < c.transactionDepth then ⟨withDepth (c.transactionDepth+1) c,.ok ()⟩
  else match beginImmediate c with
    | ⟨c',.error message⟩ => ⟨c',.error message⟩
    | ⟨c',.ok ()⟩ => ⟨withDepth 1 c',.ok ()⟩

def noTransaction : Text := "no transaction in progress"

def commit (c : Conn Stmt) : Reply Stmt :=
  if c.transactionDepth = 0 then ⟨c,.error noTransaction⟩
  else if 1 < c.transactionDepth then ⟨withDepth (c.transactionDepth-1) c,.ok ()⟩
  else match commitPending c with
    | ⟨c',.error message⟩ => ⟨c',.error message⟩
    | ⟨c',.ok ()⟩ => ⟨withDepth 0 c',.ok ()⟩

def rollback (c : Conn Stmt) : Reply Stmt :=
  if c.transactionDepth = 0 then ⟨c,.error noTransaction⟩
  else rollbackPending (withDepth 0 c)

/-- What a body has done: the statements it executed, and what it returned or raised. -/
structure Ran (Stmt : Type) where
  conn : Conn Stmt
  executed : List Stmt
  result : Except Text Bool

structure Done (Stmt : Type) where
  conn : Conn Stmt
  executed : List Stmt
  result : Except Text Unit

/-- Commits after a body that neither raised nor reported failure. -/
def finish (ran : Ran Stmt) : Done Stmt :=
  match ran.result with
  | .error message => ⟨(rollback ran.conn).conn,ran.executed,.error message⟩
  | .ok false =>
    ⟨(rollback ran.conn).conn,ran.executed,.error "transaction body reported failure"⟩
  | .ok true => ⟨(commit ran.conn).conn,ran.executed,(commit ran.conn).result⟩

def transactionDo (fn : Conn Stmt → Ran Stmt) (c : Conn Stmt) : Done Stmt :=
  match begin c with
  | ⟨c',.error message⟩ => ⟨c',[],.error message⟩
  | ⟨c',.ok ()⟩ => finish (fn c')

/-- A body returns, raises, executes a statement or runs a transaction of its own. -/
inductive Body (Stmt : Type) where
  | done (ok : Bool)
  | raise (message : Text)
  | exec (stmt : Stmt) (next : Except Text Unit → Body Stmt)
  | nested (inner : Body Stmt) (next : Except Text Unit → Body Stmt)

def ifOk (result : Except Text Unit) (stmt : Stmt) : List Stmt :=
  match result with
  | .ok () => [stmt]
  | .error _ => []

def runBody : Body Stmt → Conn Stmt → Ran Stmt
  | .done ok, c => ⟨c,[],.ok ok⟩
  | .raise message, c => ⟨c,[],.error message⟩
  | .exec stmt next, c =>
    let reply := execute c stmt
    let rest := runBody (next reply.result) reply.conn
    ⟨rest.conn,ifOk reply.result stmt++rest.executed,rest.result⟩
  | .nested inner next, c =>
    let tried := transactionDo (runBody inner) c
    let rest := runBody (next tried.result) tried.conn
    ⟨rest.conn,tried.executed++rest.executed,rest.result⟩

def Clean (c : Conn Stmt) : Prop := c.transactionDepth = 0 ∧ c.pending = none

/-- The transaction left nothing open, and made all or none of its statements durable as
it reported. -/
structure AllOrNothing (c : Conn Stmt) (finished : Done Stmt) : Prop where
  closed : Clean finished.conn
  kept : finished.result = .ok () → finished.conn.committed = c.committed++finished.executed
  undone : ∀ message, finished.result = .error message → finished.conn.committed = c.committed

/-! ## The course of a body by the answers of SQLite -/

/-- The transaction is whole, or SQLite has rolled it back by itself, or an inner one that
failed has unwound it. -/
inductive Left where
  | whole
  | gone
  | unwound
  deriving DecidableEq

/-- How a body ends, what is left of the transaction then, and the answers to come. -/
structure Ending where
  result : Except Text Bool
  left : Left
  answers : ℕ → Answer

def later (answers : ℕ → Answer) : ℕ → Answer := fun n => answers (n+1)

def Answer.refuses : Answer → Bool
  | .failed _ => true
  | _ => false

def reason : Except Text Bool → Text
  | .error message => message
  | .ok _ => "transaction body reported failure"

/-- An inner transaction ends: what it returns, and what it leaves of the outer one. There is none
where its ROLLBACK is refused. -/
def Ending.inner (e : Ending) : Option (Except Text Unit×Left×(ℕ → Answer)) :=
  if e.result = .ok true then
    match e.left with
    | .unwound => some (.error noTransaction,.unwound,e.answers)
    | left => some (.ok (),left,e.answers)
  else
    match e.left with
    | .unwound => some (.error (reason e.result),.unwound,e.answers)
    | .gone => some (.error (reason e.result),.unwound,later e.answers)
    | .whole =>
      if (e.answers 0).refuses then none
      else some (.error (reason e.result),.unwound,later e.answers)

/-- The course of a body. There is none where a statement is accepted or a transaction is begun
after the transaction was lost. -/
def course : Body Stmt → Left → (ℕ → Answer) → Option Ending
  | .done ok, left, answers => some ⟨.ok ok,left,answers⟩
  | .raise message, left, answers => some ⟨.error message,left,answers⟩
  | .exec _ next, left, answers =>
    match answers 0 with
    | .ok => if left = .whole then course (next (.ok ())) .whole (later answers) else none
    | .failed message => course (next (.error message)) left (later answers)
    | .aborted message =>
      course (next (.error message)) (if left = .unwound then .unwound else .gone) (later answers)
  | .nested inner next, left, answers =>
    if left = .unwound then
      match answers 0 with
      | .ok => none
      | .failed message => course (next (.error message)) .unwound (later answers)
      | .aborted message => course (next (.error message)) .unwound (later answers)
    else
      match (course inner left answers).bind Ending.inner with
      | none => none
      | some (result,left',answers') => course (next result) left' answers'

/-- The COMMIT of a whole transaction is accepted, and its ROLLBACK is not refused; one that is
gone is not to be committed. -/
def Ending.EndsWell (e : Ending) : Prop :=
  match e.left with
  | .whole => if e.result = .ok true then e.answers 0 = .ok else (e.answers 0).refuses = false
  | .gone => e.result ≠ .ok true
  | .unwound => True

/-- BEGIN is refused, or the body has a course. -/
def Followed (body : Body Stmt) (answers : ℕ → Answer) : Prop :=
  answers 0 = .ok → (course body .whole (later answers)).isSome = true

def Orderly (body : Body Stmt) (answers : ℕ → Answer) : Prop :=
  answers 0 = .ok → ∃ e, course body .whole (later answers) = some e ∧ e.EndsWell

/-! ## The handle follows the course -/

section Course
variable {base done : List Stmt} {depth : ℕ} {c : Conn Stmt} {left : Left}

/-- The connection where so much is left of the transaction. -/
def Stands (base done : List Stmt) (depth : ℕ) (c : Conn Stmt) : Left → Prop
  | .whole => c.pending = some done ∧ c.committed = base ∧ c.transactionDepth = depth
  | .gone => c.pending = none ∧ c.committed = base ∧ c.transactionDepth = depth
  | .unwound => c.pending = none ∧ c.committed = base ∧ c.transactionDepth = 0

/-- A statement moves along the course. -/
theorem execute_stands {stmt : Stmt} {next : Except Text Unit → Body Stmt} {e : Ending}
    (h : Stands base done depth c left) (he : course (.exec stmt next) left c.answers = some e) :
    ∃ left', Stands base (done++ifOk (execute c stmt).result stmt) depth (execute c stmt).conn
        left' ∧
      course (next (execute c stmt).result) left' (execute c stmt).conn.answers = some e := by
  rw [course] at he
  rw [execute,call]
  cases ha : c.answers 0 with
  | ok =>
    rw [ha] at he
    dsimp only at he ⊢
    split_ifs at he with hl
    subst hl
    have hp : (asked c).pending = some done := h.1
    rw [hp]
    exact ⟨.whole,⟨rfl,h.2⟩,he⟩
  | failed message =>
    rw [ha] at he
    refine ⟨left,?_,he⟩
    rw [show ifOk (Except.error message) stmt = [] from rfl,List.append_nil]
    cases left <;> exact h
  | aborted message =>
    rw [ha] at he
    refine ⟨_,?_,he⟩
    split_ifs with hl
    · rw [hl] at h
      exact ⟨rfl,h.2⟩
    · cases left with
      | unwound => exact absurd rfl hl
      | _ => exact ⟨rfl,h.2⟩

theorem rollback_whole (h : Stands base done (depth+1) c .whole)
    (hr : (c.answers 0).refuses = false) :
    Stands base done depth (rollback c).conn .unwound ∧
      (rollback c).conn.answers = later c.answers := by
  obtain ⟨hp,hb,hd⟩ := h
  rw [rollback,if_neg (by omega),rollbackPending,call]
  cases ha : c.answers 0 with
  | failed message =>
    rw [ha] at hr
    cases hr
  | _ =>
    simp [withDepth,asked,dropped,Stands,hp,hb,ha]
    rfl

theorem rollback_gone (h : Stands base done (depth+1) c .gone) :
    Stands base done depth (rollback c).conn .unwound ∧
      (rollback c).conn.answers = later c.answers := by
  obtain ⟨hp,hb,hd⟩ := h
  rw [rollback,if_neg (by omega),rollbackPending,call]
  cases ha : c.answers 0 <;> simp [withDepth,asked,dropped,Stands,hp,hb,ha] <;> rfl

theorem finish_failed {ran : Ran Stmt} (hr : ran.result ≠ .ok true) :
    finish ran = ⟨(rollback ran.conn).conn,ran.executed,.error (reason ran.result)⟩ := by
  rw [finish]
  rcases hx : ran.result with message | ⟨_ | _⟩
  · rfl
  · rfl
  · exact absurd hx hr

theorem finish_done {ran : Ran Stmt} (hr : ran.result = .ok true) :
    finish ran = ⟨(commit ran.conn).conn,ran.executed,(commit ran.conn).result⟩ := by
  rw [finish,hr]

/-- The end of an inner transaction moves along the course. -/
theorem inner_stands {ran : Ran Stmt} {e : Ending} {result : Except Text Unit} {left' : Left}
    {answers : ℕ → Answer} (hd : 1 ≤ depth) (hr : ran.result = e.result)
    (ha : ran.conn.answers = e.answers) (h : Stands base done (depth+1) ran.conn e.left)
    (he : e.inner = some (result,left',answers)) :
    (finish ran).result = result ∧ (finish ran).conn.answers = answers ∧
      Stands base done depth (finish ran).conn left' := by
  rw [Ending.inner] at he
  by_cases ht : e.result = .ok true
  · rw [if_pos ht] at he
    rw [finish_done (hr.trans ht),commit]
    cases hl : e.left with
    | unwound =>
      rw [hl] at h he
      obtain ⟨rfl,rfl,rfl⟩ := he
      rw [if_pos h.2.2]
      exact ⟨rfl,ha,h⟩
    | whole =>
      rw [hl] at h he
      obtain ⟨rfl,rfl,rfl⟩ := he
      rw [if_neg (by rw [h.2.2]; omega),if_pos (by rw [h.2.2]; omega)]
      exact ⟨rfl,ha,h.1,h.2.1,by rw [h.2.2]; rfl⟩
    | gone =>
      rw [hl] at h he
      obtain ⟨rfl,rfl,rfl⟩ := he
      rw [if_neg (by rw [h.2.2]; omega),if_pos (by rw [h.2.2]; omega)]
      exact ⟨rfl,ha,h.1,h.2.1,by rw [h.2.2]; rfl⟩
  · rw [if_neg ht] at he
    rw [finish_failed (hr ▸ ht),hr]
    cases hl : e.left with
    | unwound =>
      rw [hl] at h he
      obtain ⟨rfl,rfl,rfl⟩ := he
      rw [rollback,if_pos h.2.2]
      exact ⟨rfl,ha,h⟩
    | gone =>
      rw [hl] at h he
      obtain ⟨rfl,rfl,rfl⟩ := he
      obtain ⟨hs,hn⟩ := rollback_gone h
      exact ⟨rfl,hn.trans (congrArg later ha),hs⟩
    | whole =>
      rw [hl] at h he
      dsimp only at he
      split_ifs at he with hf
      obtain ⟨rfl,rfl,rfl⟩ := he
      obtain ⟨hs,hn⟩ := rollback_whole h (by rw [ha]; exact Bool.eq_false_iff.mpr hf)
      exact ⟨rfl,hn.trans (congrArg later ha),hs⟩

/-- The handle runs a body along its course. -/
theorem run_stands (body : Body Stmt) {e : Ending} (hd : 1 ≤ depth)
    (h : Stands base done depth c left) (he : course body left c.answers = some e) :
    (runBody body c).result = e.result ∧ (runBody body c).conn.answers = e.answers ∧
      Stands base (done++(runBody body c).executed) depth (runBody body c).conn e.left := by
  induction body generalizing c left done depth e with
  | done ok =>
    obtain rfl := Option.some.inj he
    exact ⟨rfl,rfl,by rw [runBody,List.append_nil]; exact h⟩
  | raise message =>
    obtain rfl := Option.some.inj he
    exact ⟨rfl,rfl,by rw [runBody,List.append_nil]; exact h⟩
  | exec stmt next ih =>
    obtain ⟨left',hs,hn⟩ := execute_stands h he
    obtain ⟨h1,h2,h3⟩ := ih _ hd hs hn
    rw [List.append_assoc] at h3
    exact ⟨h1,h2,h3⟩
  | nested inner next ihinner ihnext =>
    rw [course] at he
    split_ifs at he with hl
    · -- the real BEGIN of another transaction is refused
      subst hl
      have hb : ∃ message, transactionDo (runBody inner) c = ⟨(begin c).conn,[],.error message⟩ ∧
          (begin c).conn.answers = later c.answers ∧
          Stands base done depth (begin c).conn .unwound ∧
          course (next (.error message)) .unwound (later c.answers) = some e := by
        obtain ⟨hp,hb,hz⟩ := h
        rw [transactionDo,begin,if_neg (by omega),beginImmediate,call]
        cases ha : c.answers 0 with
        | ok =>
          rw [ha] at he
          cases he
        | failed message =>
          rw [ha] at he
          exact ⟨message,rfl,rfl,⟨hp,hb,hz⟩,he⟩
        | aborted message =>
          rw [ha] at he
          exact ⟨message,rfl,rfl,⟨rfl,hb,hz⟩,he⟩
      obtain ⟨message,ht,hn,hs,hc⟩ := hb
      rw [runBody,ht]
      rw [← hn] at hc
      exact ihnext _ hd hs hc
    · cases hi : (course inner left c.answers).bind Ending.inner with
      | none =>
        rw [hi] at he
        cases he
      | some closed =>
        obtain ⟨result,left',answers⟩ := closed
        rw [hi] at he
        obtain ⟨e',he',hin⟩ := Option.bind_eq_some_iff.mp hi
        have hdc : c.transactionDepth = depth := by
          cases left with
          | unwound => exact absurd rfl hl
          | _ => exact h.2.2
        have hb : begin c = ⟨withDepth (depth+1) c,.ok ()⟩ := by
          rw [begin,if_pos (by omega),hdc]
        have hs : Stands base done (depth+1) (withDepth (depth+1) c) left := by
          cases left with
          | unwound => exact absurd rfl hl
          | _ => exact ⟨h.1,h.2.1,rfl⟩
        have ht : transactionDo (runBody inner) c =
            finish (runBody inner (withDepth (depth+1) c)) := by
          rw [transactionDo,hb]
        obtain ⟨h1,h2,h3⟩ := ihinner (Nat.le_add_left 1 depth) hs he'
        obtain ⟨k1,k2,k3⟩ := inner_stands hd h1 h2 h3 hin
        have hx : (finish (runBody inner (withDepth (depth+1) c))).executed =
            (runBody inner (withDepth (depth+1) c)).executed := by
          rw [finish]
          split <;> rfl
        rw [runBody,ht,hx,k1]
        rw [← k2] at he
        have hr := ihnext _ hd k3 he
        rw [List.append_assoc] at hr
        exact hr

end Course

variable {c : Conn Stmt}

theorem begin_refused (h : Clean c) (hn : c.answers 0 ≠ .ok) (fn : Conn Stmt → Ran Stmt) :
    AllOrNothing c (transactionDo fn c) := by
  obtain ⟨hd,hp⟩ := h
  rw [transactionDo,begin,if_neg (by omega),beginImmediate,call]
  cases ha : c.answers 0 with
  | ok => exact absurd ha hn
  | failed message => exact ⟨⟨hd,hp⟩,nofun,fun _ _ => rfl⟩
  | aborted message => exact ⟨⟨hd,rfl⟩,nofun,fun _ _ => rfl⟩

/-- The last COMMIT is all or nothing just if it is accepted and there is something to commit. -/
theorem commit_last {ran : Ran Stmt} (hr : ran.result = .ok true) {e : Ending}
    (ha : ran.conn.answers = e.answers) (he : e.result = .ok true)
    (h : Stands c.committed ran.executed 1 ran.conn e.left) :
    AllOrNothing c (finish ran) ↔ e.EndsWell := by
  rw [finish_done hr,Ending.EndsWell,commit]
  cases hl : e.left with
  | unwound =>
    rw [hl] at h
    rw [if_pos h.2.2]
    exact iff_of_true ⟨⟨h.2.2,h.1⟩,nofun,fun _ _ => h.2.1⟩ trivial
  | whole =>
    rw [hl] at h
    obtain ⟨hp,hb,hd⟩ := h
    rw [if_neg (by omega),if_neg (by omega),commitPending,call]
    dsimp only
    rw [if_pos he,← ha]
    cases hx : ran.conn.answers 0 with
    | ok =>
      have hpend : (asked ran.conn).pending = some ran.executed := hp
      rw [hpend]
      exact iff_of_true ⟨⟨rfl,rfl⟩,fun _ => congrArg (·++ran.executed) hb,nofun⟩ rfl
    | _ => exact iff_of_false (fun hall => by cases hd.symm.trans hall.closed.1) nofun
  | gone =>
    rw [hl] at h
    obtain ⟨hp,hb,hd⟩ := h
    rw [if_neg (by omega),if_neg (by omega),commitPending,call]
    refine iff_of_false (fun hall => ?_) (fun hn => hn he)
    have hz := hall.closed.1
    have hpend : (asked ran.conn).pending = none := hp
    cases hx : ran.conn.answers 0 with
    | ok =>
      rw [hx,hpend] at hz
      cases hd.symm.trans hz
    | _ =>
      rw [hx] at hz
      cases hd.symm.trans hz

/-- The last ROLLBACK is all or nothing just if it is not refused while there is a transaction. -/
theorem rollback_last {ran : Ran Stmt} (hr : ran.result ≠ .ok true) {e : Ending}
    (ha : ran.conn.answers = e.answers) (he : e.result ≠ .ok true)
    (h : Stands c.committed ran.executed 1 ran.conn e.left) :
    AllOrNothing c (finish ran) ↔ e.EndsWell := by
  have hu : ∀ {c' : Conn Stmt}, Stands c.committed ran.executed 0 c' .unwound →
      AllOrNothing c ⟨c',ran.executed,.error (reason ran.result)⟩ :=
    fun hs => ⟨⟨hs.2.2,hs.1⟩,nofun,fun _ _ => hs.2.1⟩
  rw [finish_failed hr,Ending.EndsWell]
  cases hl : e.left with
  | unwound =>
    rw [hl] at h
    rw [rollback,if_pos h.2.2]
    exact iff_of_true (hu h) trivial
  | gone =>
    rw [hl] at h
    exact iff_of_true (hu (rollback_gone h).1) he
  | whole =>
    rw [hl] at h
    dsimp only
    rw [if_neg he,← ha]
    cases hx : (ran.conn.answers 0).refuses with
    | false => exact iff_of_true (hu (rollback_whole h hx).1) rfl
    | true =>
      refine iff_of_false (fun hall => ?_) nofun
      have hp := hall.closed.2
      rw [rollback,if_neg (by rw [h.2.2]; omega),rollbackPending,call] at hp
      cases hm : ran.conn.answers 0 with
      | failed message =>
        rw [show (withDepth 0 ran.conn).answers 0 = .failed message from hm] at hp
        cases h.1.symm.trans hp
      | _ =>
        rw [hm] at hx
        cases hx

/-- From a connection without a transaction, a transaction is all or nothing if its BEGIN is
refused or its body has a course that ends well; and if its body has a course, only then. -/
theorem all_or_nothing (body : Body Stmt) (c : Conn Stmt) (h : Clean c) :
    (Orderly body c.answers → AllOrNothing c (transactionDo (runBody body) c)) ∧
      (Followed body c.answers → AllOrNothing c (transactionDo (runBody body) c) →
        Orderly body c.answers) := by
  by_cases ha : c.answers 0 = .ok
  · have hb : begin c = ⟨withDepth 1 { asked c with pending := some [] },.ok ()⟩ := by
      have hp : (asked c).pending = none := h.2
      rw [begin,if_neg (by rw [h.1]; omega),beginImmediate,call,ha]
      dsimp only
      rw [hp]
    have hiff : ∀ e, course body .whole (later c.answers) = some e →
        (AllOrNothing c (transactionDo (runBody body) c) ↔ e.EndsWell) := by
      intro e he
      rw [transactionDo,hb]
      have hs : Stands c.committed [] 1 (withDepth 1 { asked c with pending := some [] }) .whole :=
        ⟨rfl,rfl,rfl⟩
      obtain ⟨h1,h2,h3⟩ := run_stands body le_rfl hs he
      by_cases hr : e.result = .ok true
      · exact commit_last (h1.trans hr) h2 hr h3
      · exact rollback_last (h1 ▸ hr) h2 hr h3
    refine ⟨fun ho => ?_,fun hf hall _ => ?_⟩
    · obtain ⟨e,he,hw⟩ := ho ha
      exact (hiff e he).mpr hw
    · obtain ⟨e,he⟩ := Option.isSome_iff_exists.mp (hf ha)
      exact ⟨e,he,(hiff e he).mp hall⟩
  · exact ⟨fun _ => begin_refused h ha _,fun _ _ hn => absurd hn ha⟩

def fresh (answers : ℕ → Answer) : Conn ℕ := ⟨[],none,0,answers⟩

def oneStatement : Body ℕ := .exec 7 fun _ => .done true

def goesOn : Body ℕ := .nested (.done false) fun _ => .exec 7 fun _ => .done true

theorem one_statement_all_or_nothing :
    Clean (fresh fun _ => .ok) ∧
      AllOrNothing (fresh fun _ => .ok) (transactionDo (runBody oneStatement) (fresh fun _ => .ok)) :=
  ⟨⟨rfl,rfl⟩,(all_or_nothing oneStatement (fresh fun _ => .ok) ⟨rfl,rfl⟩).1 fun _ => ⟨_,rfl,rfl⟩⟩

/-- A COMMIT that fails leaves the transaction open. A transaction that fails inside
another lets the rest of the outer body become durable, and the outer one reports
failure. -/
theorem half_transactions :
    (transactionDo (runBody oneStatement)
        (fresh fun n => if n = 2 then .failed [] else .ok)).conn.transactionDepth = 1 ∧
      ¬AllOrNothing (fresh fun n => if n = 2 then .failed [] else .ok)
        (transactionDo (runBody oneStatement) (fresh fun n => if n = 2 then .failed [] else .ok)) ∧
      (transactionDo (runBody goesOn) (fresh fun _ => .ok)).result = .error noTransaction ∧
      (transactionDo (runBody goesOn) (fresh fun _ => .ok)).conn.committed = [7] ∧
      ¬AllOrNothing (fresh fun _ => .ok) (transactionDo (runBody goesOn) (fresh fun _ => .ok)) := by
  have ho : (transactionDo (runBody oneStatement)
      (fresh fun n => if n = 2 then .failed [] else .ok)).conn.transactionDepth = 1 := by decide
  have hr : (transactionDo (runBody goesOn) (fresh fun _ => .ok)).result =
      .error noTransaction := rfl
  have hd : (transactionDo (runBody goesOn) (fresh fun _ => .ok)).conn.committed = [7] := rfl
  refine ⟨ho,?_,hr,hd,?_⟩
  · intro ha
    have hz := ha.closed.1
    rw [ho] at hz
    cases hz
  · intro ha
    have hs := ha.undone noTransaction hr
    rw [hd] at hs
    cases hs

end EMaster.SqlDatabase
