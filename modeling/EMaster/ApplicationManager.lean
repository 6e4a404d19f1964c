import EMaster.Runs
import EMaster.Text

/-!
# The resources of an application

A stop changes the state of an application in one locked section and cleans up in another.
Between the two the application can be removed and another one registered under its name.
-/

set_option autoImplicit false

namespace EMaster.Applications
open Text List AList

inductive ApplicationState where
  | registered
  | running
  | stopped
  | failed
  deriving DecidableEq, Repr

/-- The serial number tells the applications registered under one name apart. -/
structure Application where
  serial : ℕ
  version : Text
  state : ApplicationState
  vars : List (Text×Text)
  (configurations connections : List Text)
  resources : List ℕ
  deriving DecidableEq, Repr

/-- Resources are numbered as they are offered. Beside the applications stand the resources that
were accepted, with the application each went to, the cleanups run so far, and the stops that
have yet to clean up, with the name they have and the application they stopped. -/
structure Manager where
  applications : AList (fun _ : Text => Application)
  (serials offered : ℕ)
  accepted : List (ℕ×ℕ)
  cleaned : List ℕ
  pending : List (Text×ℕ)

def Manager.new : Manager := ⟨∅,0,0,[],[],[]⟩

inductive Section where
  | register (id version : Text)
  | start (id : Text)
  | fail (id : Text)
  | stop (id : Text)
  | cleanup (call : ℕ)
  | remove (id : Text)
  | addResource (id : Text)
  | setVariable (id key value : Text)
  | ownConfiguration (id configuration : Text)
  | ownConnection (id connection : Text)

variable (s : Manager) (id : Text) (app : Application) (f : Application → Application)

def Manager.resources : List ℕ := (s.applications.lookup id).elim [] Application.resources

def Manager.modify : Manager :=
  match s.applications.lookup id with
  | none => s
  | some app => { s with applications := s.applications.insert id (f app) }

def Manager.transition (source target : ApplicationState) : Manager :=
  s.modify id (fun app => if app.state = source then { app with state := target } else app)

def Application.cleanup : Application := { app with resources := [], connections := [] }

def step : Section → Manager
  | .register id version =>
    if id ∈ s.applications then s
    else { s with
      applications := s.applications.insert id ⟨s.serials,version,.registered,[],[],[],[]⟩
      serials := s.serials+1 }
  | .start id => s.transition id .registered .running
  | .fail id => s.transition id .running .failed
  | .stop id =>
    match s.applications.lookup id with
    | none => s
    | some app =>
      if app.state = .running then
        { s.transition id .running .stopped with pending := s.pending++[(id,app.serial)] }
      else s
  | .cleanup call =>
    match s.pending[call]? with
    | none => s
    | some (id,_) =>
      { s.modify id Application.cleanup with
        pending := s.pending.eraseIdx call
        cleaned := s.cleaned++s.resources id }
  | .remove id =>
    { s with
      applications := s.applications.erase id
      cleaned := s.cleaned++s.resources id }
  | .addResource id =>
    { s.modify id (fun app => { app with resources := app.resources++[s.offered] }) with
      offered := s.offered+1
      accepted := s.accepted++((s.applications.lookup id).elim [] fun app =>
        [(s.offered,app.serial)]) }
  | .setVariable id key value =>
    s.modify id fun app =>
      { app with vars := app.vars.filter (fun v => v.1 ≠ key)++[(key,value)] }
  | .ownConfiguration id name =>
    s.modify id fun app =>
      { app with configurations := app.configurations.filter (· ≠ name)++[name] }
  | .ownConnection id name =>
    s.modify id fun app => { app with connections := app.connections.filter (· ≠ name)++[name] }

/-- The application that the call of a section is for. A cleanup is for the one that was stopped,
whatever is registered under its name by then. -/
def Manager.subject : Section → Option ℕ
  | .cleanup call => (s.pending[call]?).map Prod.snd
  | .register id _ | .start id | .fail id | .stop id | .remove id | .addResource id
  | .setVariable id _ _ | .ownConfiguration id _ | .ownConnection id _ =>
    (s.applications.lookup id).map Application.serial

/-- A section changes nothing of the applications that its call is not for. -/
def OthersKept (turn : Section) : Prop :=
  ∀ name app, s.applications.lookup name = some app → s.subject turn ≠ some app.serial →
    (step s turn).applications.lookup name = some app

/-- A cleanup finds the stopped application under its name, or none, or one that has neither
resources nor connections. -/
def Spared (turn : Section) : Prop :=
  ∀ call id serial app, turn = .cleanup call → s.pending[call]? = some (id,serial) →
    s.applications.lookup id = some app →
      app.serial = serial ∨ app.resources = [] ∧ app.connections = []

abbrev Entry := Sigma (fun _ : Text => Application)

def held (entries : List Entry) : List ℕ := entries.flatMap (fun e => e.2.resources)

/-- Each accepted resource has been cleaned up or is held by one application, the one that
accepted it, and there is nothing else. -/
structure Manager.Sound : Prop where
  apart : (s.accepted.map Prod.fst).Nodup
  fresh : ∀ e ∈ s.accepted, e.1 < s.offered
  kept : (s.accepted.map Prod.fst).Perm (s.cleaned++held s.applications.entries)
  owned : ∀ e ∈ s.applications.entries, ∀ r ∈ e.2.resources, (r,e.2.serial) ∈ s.accepted

variable {s id app f}

/-- The application found is one of the entries, and the others are those an erasure leaves. -/
theorem entries_perm (h : s.applications.lookup id = some app) :
    s.applications.entries.Perm (⟨id,app⟩::s.applications.entries.kerase id) := by
  have hk : id ∈ s.applications.entries.keys :=
    mem_keys.mp (lookup_isSome.mp (by rw [h]; rfl))
  obtain ⟨b,xs,ys,hn,he,hr⟩ := exists_of_kerase hk
  have hb : app = b := by
    have hm : (⟨id,b⟩ : Entry) ∈ s.applications.entries := by rw [he]; simp
    exact Option.some_injective _ (h.symm.trans (mem_lookup_iff.mpr hm))
  rw [hb,hr,he]
  exact perm_middle

theorem held_perm (s : Manager) (id : Text) :
    (held s.applications.entries).Perm
      (s.resources id++held (s.applications.entries.kerase id)) := by
  unfold Manager.resources
  cases hl : s.applications.lookup id with
  | none =>
    rw [kerase_of_notMem_keys (lookup_eq_none.mp hl)]
    exact List.Perm.refl _
  | some app => exact (entries_perm hl).flatMap_right _

theorem resources_some (h : s.applications.lookup id = some app) :
    s.resources id = app.resources := by
  rw [Manager.resources,h]
  rfl

theorem mem_kerase {e : Entry} (h : e ∈ s.applications.entries.kerase id) :
    e ∈ s.applications.entries :=
  (kerase_sublist _ _).subset h

/-- A section that changes one application and neither takes nor releases a resource. -/
theorem sound_modify (h : s.Sound) (hf : ∀ app, (f app).resources = app.resources)
    (hn : ∀ app, (f app).serial = app.serial) : (s.modify id f).Sound := by
  unfold Manager.modify
  cases hl : s.applications.lookup id with
  | none => exact h
  | some app =>
    refine ⟨h.apart,h.fresh,h.kept.trans ((held_perm s id).append_left _ |>.trans ?_),?_⟩
    · simp only [held,entries_insert,flatMap_cons,hf,resources_some hl]
      rfl
    · intro e he r hr
      rcases mem_cons.mp he with rfl | he
      · rw [hn]
        exact h.owned ⟨id,app⟩ (mem_lookup_iff.mp hl) r (hf app ▸ hr)
      · exact h.owned e (mem_kerase he) r hr

theorem sound_transition (id : Text) (src target : ApplicationState) (h : s.Sound) :
    (s.transition id src target).Sound :=
  sound_modify h (fun app => by split <;> rfl) (fun app => by split <;> rfl)

theorem sound_register (version : Text) (h : s.Sound) (hn : id ∉ s.applications) :
    Manager.Sound { s with
      applications := s.applications.insert id ⟨s.serials,version,.registered,[],[],[],[]⟩
      serials := s.serials+1 } := by
  have hk := kerase_of_notMem_keys (show id ∉ s.applications.entries.keys from hn)
  refine ⟨h.apart,h.fresh,?_,?_⟩
  · rw [entries_insert,hk]
    exact h.kept
  · intro e he r hr
    rcases mem_cons.mp he with rfl | he
    · exact absurd hr not_mem_nil
    · exact h.owned e (mem_kerase he) r hr

/-- The resources under one name are cleaned up, and its application gives them away. -/
theorem sound_release {apps : AList (fun _ : Text => Application)} {pending : List (Text×ℕ)}
    (h : s.Sound) (hh : held apps.entries = held (s.applications.entries.kerase id))
    (ho : ∀ e ∈ apps.entries, ∀ r ∈ e.2.resources, e ∈ s.applications.entries) :
    Manager.Sound { s with
      applications := apps
      pending := pending
      cleaned := s.cleaned++s.resources id } := by
  refine ⟨h.apart,h.fresh,?_,fun e he r hr => h.owned e (ho e he r hr) r hr⟩
  dsimp only
  rw [hh,append_assoc]
  exact h.kept.trans ((held_perm s id).append_left _)

theorem sound_cleanup (pending : List (Text×ℕ)) (h : s.Sound) :
    Manager.Sound { s.modify id Application.cleanup with
      pending := pending
      cleaned := s.cleaned++s.resources id } := by
  unfold Manager.modify
  cases hl : s.applications.lookup id with
  | none =>
    refine sound_release h ?_ (fun e he _ _ => he)
    rw [kerase_of_notMem_keys (lookup_eq_none.mp hl)]
  | some app =>
    refine sound_release h rfl fun e he r hr => ?_
    rcases mem_cons.mp he with rfl | he
    · exact absurd hr not_mem_nil
    · exact mem_kerase he

theorem sound_add (h : s.Sound) : (step s (.addResource id)).Sound := by
  have hx : s.offered ∉ s.accepted.map Prod.fst := fun hm => by
    obtain ⟨e,he,hr⟩ := mem_map.mp hm
    exact absurd (h.fresh e he) (by omega)
  simp only [step,Manager.modify]
  cases hl : s.applications.lookup id with
  | none =>
    simp only [Option.elim,append_nil]
    exact ⟨h.apart,fun e he => Nat.lt_succ_of_lt (h.fresh e he),h.kept,h.owned⟩
  | some app =>
    simp only [Option.elim]
    refine ⟨?_,?_,?_,?_⟩
    · rw [map_append]
      exact nodup_append_comm.mp (nodup_cons.mpr ⟨hx,h.apart⟩)
    · intro e he
      rcases mem_append.mp he with he | he
      · exact Nat.lt_succ_of_lt (h.fresh e he)
      · rw [mem_singleton.mp he]
        exact Nat.lt_succ_self _
    · have hp := (h.kept.trans ((held_perm s id).append_left _)).append_right [s.offered]
      rw [resources_some hl] at hp
      simp only [map_append,held,entries_insert,flatMap_cons]
      refine hp.trans ?_
      simp only [append_assoc]
      exact (perm_append_comm.append_left _).append_left _
    · intro e he r hr
      refine mem_append.mpr ?_
      rcases mem_cons.mp he with rfl | he
      · rcases mem_append.mp hr with hr | hr
        · exact .inl (h.owned ⟨id,app⟩ (mem_lookup_iff.mp hl) r hr)
        · exact .inr (by rw [mem_singleton.mp hr]; exact mem_singleton_self _)
      · exact .inl (h.owned e (mem_kerase he) r hr)

theorem sound_step (turn : Section) (h : s.Sound) : (step s turn).Sound := by
  cases turn with
  | register id version =>
    simp only [step]
    split_ifs with hm
    · exact h
    · exact sound_register version h hm
  | start id => exact sound_transition id _ _ h
  | fail id => exact sound_transition id _ _ h
  | stop id =>
    simp only [step]
    split
    · exact h
    · split_ifs
      · have hs := sound_transition id .running .stopped h
        exact ⟨hs.apart,hs.fresh,hs.kept,hs.owned⟩
      · exact h
  | cleanup call =>
    simp only [step]
    split
    · exact h
    · exact sound_cleanup _ h
  | remove id => exact sound_release h rfl (fun e he _ _ => mem_kerase he)
  | addResource id => exact sound_add h
  | setVariable id key value => exact sound_modify h (fun _ => rfl) (fun _ => rfl)
  | ownConfiguration id name => exact sound_modify h (fun _ => rfl) (fun _ => rfl)
  | ownConnection id name => exact sound_modify h (fun _ => rfl) (fun _ => rfl)

theorem run_sound (turns : List Section) : (Runs.run step .new turns).Sound :=
  Runs.run_invariant step _ _ (fun _ turn h _ => sound_step turn h) .new
    turns ⟨nodup_nil,nofun,List.Perm.nil,nofun⟩
    (Runs.meets_of_forall step _ _ turns (fun _ _ _ => trivial))

theorem modify_other {other : Text} (s : Manager) (f : Application → Application)
    (h : id ≠ other) : (s.modify id f).applications.lookup other = s.applications.lookup other := by
  unfold Manager.modify
  cases s.applications.lookup id with
  | none => rfl
  | some app => exact lookup_insert_ne h.symm

theorem call_others_kept {turn : Section} (h : ∀ call, turn ≠ .cleanup call) :
    OthersKept s turn := by
  intro name app hl hn
  have hne : ∀ id, (s.applications.lookup id).map Application.serial ≠ some app.serial →
      id ≠ name := by
    rintro id hid rfl
    exact hid (by rw [hl]; rfl)
  rw [← hl]
  cases turn with
  | register id version =>
    simp only [step]
    split_ifs
    · rfl
    · exact lookup_insert_ne (hne id hn).symm
  | start id => exact modify_other s _ (hne id hn)
  | fail id => exact modify_other s _ (hne id hn)
  | stop id =>
    simp only [step]
    split
    · rfl
    · split_ifs
      · exact modify_other s _ (hne id hn)
      · rfl
  | cleanup call => exact absurd rfl (h call)
  | remove id => exact lookup_erase_ne (hne id hn).symm
  | addResource id => exact modify_other s _ (hne id hn)
  | setVariable id key value => exact modify_other s _ (hne id hn)
  | ownConfiguration id name => exact modify_other s _ (hne id hn)
  | ownConnection id name => exact modify_other s _ (hne id hn)

theorem cleanup_lookup {call serial : ℕ} (hp : s.pending[call]? = some (id,serial))
    (hl : s.applications.lookup id = some app) :
    (step s (.cleanup call)).applications.lookup id = some app.cleanup := by
  simp only [step,hp,Manager.modify,hl]
  exact lookup_insert _

theorem cleaned_same : app.cleanup = app ↔ app.resources = [] ∧ app.connections = [] := by
  obtain ⟨serial,version,state,vars,configurations,connections,resources⟩ := app
  simp [Application.cleanup,eq_comm,and_comm]

/-- Only a late cleanup touches another application. -/
theorem others_kept_iff (turn : Section) : OthersKept s turn ↔ Spared s turn := by
  by_cases hc : ∃ call, turn = .cleanup call
  · obtain ⟨call,rfl⟩ := hc
    constructor
    · rintro hk _ id serial app ⟨⟩ hp hl
      by_cases hs : app.serial = serial
      · exact .inl hs
      · have ho := hk id app hl (by simp [Manager.subject,hp,Ne.symm hs])
        rw [cleanup_lookup hp hl,Option.some.injEq] at ho
        exact .inr (cleaned_same.mp ho)
    · intro hsp name app hl hn
      cases hp : s.pending[call]? with
      | none => simpa only [step,hp] using hl
      | some entry =>
        obtain ⟨id,serial⟩ := entry
        by_cases he : id = name
        · subst he
          rw [cleanup_lookup hp hl]
          refine congrArg some (cleaned_same.mpr ((hsp call id serial app rfl hp hl).resolve_left ?_))
          rintro rfl
          exact hn (by simp [Manager.subject,hp])
        · rw [← hl]
          simp only [step,hp]
          exact modify_other s _ he
  · rw [not_exists] at hc
    exact iff_of_true (call_others_kept hc) fun call _ _ _ ht => absurd ht (hc call)

/-- A resource is cleaned up at most once, and once if the application that accepted it has been
removed; one that was refused is never cleaned up. -/
structure CleanedOnce (s : Manager) : Prop where
  most : ∀ r, s.cleaned.count r ≤ 1
  removed : ∀ r serial, (r,serial) ∈ s.accepted →
    (∀ e ∈ s.applications.entries, e.2.serial ≠ serial) → s.cleaned.count r = 1
  refused : ∀ r, (∀ serial, (r,serial) ∉ s.accepted) → r ∉ s.cleaned

theorem sound_cleaned_once (h : s.Sound) : CleanedOnce s := by
  have hc := (nodup_append.mp (h.kept.nodup_iff.mp h.apart)).1
  refine ⟨nodup_iff_count_le_one.mp hc,?_,?_⟩
  · intro r serial hr hn
    refine count_eq_one_of_mem hc ?_
    rcases mem_append.mp (h.kept.subset (mem_map.mpr ⟨_,hr,rfl⟩)) with hm | hm
    · exact hm
    · -- the holder is the application that accepted it
      obtain ⟨e,he,hm⟩ := mem_flatMap.mp hm
      have := inj_on_of_nodup_map h.apart (h.owned e he r hm) hr rfl
      exact absurd (congrArg Prod.snd this) (hn e he)
  · intro r hn hm
    obtain ⟨e,he,rfl⟩ := mem_map.mp (h.kept.symm.subset (mem_append_left _ hm))
    exact hn e.2 he

/-- However the sections of the calls interleave, resources are cleaned up as they should; and no
section touches an application that its call is not for exactly if each cleanup finds the
application that was stopped, or nothing to clean up. -/
theorem resources_cleaned_once_iff (turns : List Section) :
    ((∀ before after, turns = before++after → CleanedOnce (Runs.run step .new before)) ∧
        Runs.Meets step OthersKept .new turns) ↔
      Runs.Meets step Spared .new turns := by
  have he : OthersKept = Spared :=
    funext fun s => funext fun turn => propext (others_kept_iff turn)
  rw [he]
  exact and_iff_right fun before _ _ => sound_cleaned_once (run_sound before)

def lateCleanup : List Section :=
  [.register "plc" "1.0",.start "plc",.stop "plc",.remove "plc",.register "plc" "2.0",
    .addResource "plc",.cleanup 0]

/-- The cleanup of a stop comes when another application has been registered under the name, and
cleans up what was added to that one. -/
theorem late_cleanup_hits_other : ¬Runs.Meets step OthersKept .new lateCleanup := by
  intro h
  obtain ⟨_,_,_,_,_,_,hk,_⟩ := h
  have ho := hk "plc" ⟨1,"2.0",.registered,[],[],[],[0]⟩ (by decide) (by decide)
  revert ho
  decide

end EMaster.Applications
