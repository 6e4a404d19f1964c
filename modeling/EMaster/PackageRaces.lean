import EMaster.PackageRuns

/-!
# Calls on the package store at the same time

A call is cut where it takes or gives back the lock: a deployment opens the package, reads which
one is active, opens that one, and publishes under the lock. Between two cuts other calls go on.
-/

set_option autoImplicit false

namespace EMaster
namespace Packages
open Runs List
open LuaPackage (Metadata)

inductive Request where
  | deploy (file byUser time : Text)
  | rollback (byUser time : Text)
  | setRunOnStartup (file : Text) (enabled : Bool) (byUser time : Text)
  | remove (file : Text)
  deriving DecidableEq, Repr

inductive Task where
  | deployOpen (file byUser time : Text)
  | deployRead (file byUser time appId : Text)
  | deployOutgoing (file byUser time appId currentActive : Text)
  | deployPublish (file byUser time appId outgoing : Text)
  | rollbackRead (byUser time : Text)
  | rollbackOpen (byUser time target : Text)
  | rollbackPublish (byUser time target : Text)
  | startupOpen (file byUser time : Text)
  | startupList (file byUser time appId : Text)
  | startupPublish (file : Text) (enabled : Bool) (byUser time appId : Text) (known : List Listed)
  | removeFile (file : Text)
  | done (reply : Except Refusal Unit)

def enter : Request → Task
  | .deploy file byUser time => .deployOpen file byUser time
  | .rollback byUser time => .rollbackRead byUser time
  | .setRunOnStartup file enabled byUser time =>
    if enabled then .startupOpen file byUser time
    else .startupPublish file false byUser time [] []
  | .remove file => .removeFile file

def finish (w : World) : Except Refusal World → World×Task
  | .ok next => (next,.done (.ok ()))
  | .error refusal => (w,.done (.error refusal))

/-- A section that changes nothing: the call goes on with what it found. -/
def goOn {α : Type} (w : World) (found : Except Refusal α) (next : α → Task) : World×Task :=
  match found with
  | .ok a => (w,next a)
  | .error refusal => (w,.done (.error refusal))

def finishRollback (site : Site) (w : World) (byUser time target : Text) (saved : Bool) :
    Except Refusal World :=
  if w.state.previous ≠ target then
    .error (.error "the rollback target changed while it was being verified; try again")
  else
    writeState w (recordHistory site (publishRollback w.state) time "rollback"
      w.state.previous byUser) saved "could not record the rollback"

/-- One section of a call; a file operation in it succeeds or not. -/
def advance (site : Site) (w : World) (succeeds : Bool) : Task → World×Task
  | .deployOpen file byUser time =>
    goOn w (openBundle site w file) (fun metadata => .deployRead file byUser time metadata.appId)
  | .deployRead file byUser time appId =>
    (w,.deployOutgoing file byUser time appId w.state.active)
  | .deployOutgoing file byUser time appId currentActive =>
    goOn w (outgoingAppId site w currentActive file)
      (fun outgoing => .deployPublish file byUser time appId outgoing)
  | .deployPublish file byUser time appId outgoing =>
    finish w (writeState w (recordHistory site (publishDeploy w.state file appId outgoing) time
      "deploy" file byUser) succeeds "could not record the deployment")
  | .rollbackRead byUser time =>
    if w.state.previous = [] then
      (w,.done (.error (.error "there is no previous package to roll back to")))
    else (w,.rollbackOpen byUser time w.state.previous)
  | .rollbackOpen byUser time target =>
    goOn w ((openBundle site w target).mapError previousRefusal)
      (fun _ => .rollbackPublish byUser time target)
  | .rollbackPublish byUser time target =>
    finish w (finishRollback site w byUser time target succeeds)
  | .startupOpen file byUser time =>
    goOn w (openBundle site w file) (fun metadata => .startupList file byUser time metadata.appId)
  | .startupList file byUser time appId =>
    goOn w (list site w) (fun known => .startupPublish file true byUser time appId known)
  | .startupPublish file enabled byUser time appId known =>
    finish w (startupSaved site w file enabled appId known byUser time succeeds)
  | .removeFile file => finish w (remove site w file succeeds)
  | .done reply => (w,.done reply)

structure Sys where
  world : World
  tasks : List Task

inductive Event where
  | call (request : Request)
  | turn (i : ℕ) (succeeds : Bool)
  deriving DecidableEq, Repr

def step (site : Site) (s : Sys) : Event → Sys
  | .call request => { s with tasks := s.tasks++[enter request] }
  | .turn i succeeds =>
    match s.tasks[i]? with
    | none => s
    | some task =>
      let (world,next) := advance site s.world succeeds task
      ⟨world,s.tasks.set i next⟩

def idle (disk : Disk) : Sys := ⟨start disk,[]⟩

def Mentioned (w : World) (file : Text) : Prop :=
  file ≠ [] ∧ (file = w.state.active ∨ file = w.state.previous ∨ file ∈ w.state.running)

def SameApp (site : Site) (w : World) (f g : Text) : Prop :=
  ∃ a, appOf site w f = some a ∧ appOf site w g = some a

/-- Every named file is there, and the previous package is of the active one's application. -/
structure Sound (site : Site) (w : World) : Prop where
  present : ∀ file, Mentioned w file → w.read site file ≠ none
  previous : w.state.previous ≠ [] →
    w.state.active ≠ [] ∧ SameApp site w w.state.active w.state.previous

/-- What a section must still find when it publishes or deletes. -/
def StillTrue (site : Site) (w : World) (succeeds : Bool) : Task → Prop
  | .deployPublish file _ _ appId outgoing => succeeds = true →
      w.read site file ≠ none ∧
        (w.state.active ≠ file → sameApplication w.state appId outgoing →
          SameApp site w file w.state.active)
  | .startupPublish file enabled _ _ _ _ => succeeds = true → enabled = true →
      w.read site file ≠ none
  | .removeFile file => ∀ next, remove site w file succeeds = .ok next →
      ∀ named, Mentioned w named → site.directory.locate named ≠ site.directory.locate file
  | _ => True

def Timely (site : Site) (s : Sys) : Event → Prop
  | .call _ => True
  | .turn i succeeds => ∀ task, s.tasks[i]? = some task → StillTrue site s.world succeeds task

/-- The files that a call is about were opened and so have names. -/
def TaskNamed : Task → Prop
  | .deployRead file _ _ _ => file ≠ []
  | .deployOutgoing file _ _ _ _ => file ≠ []
  | .deployPublish file _ _ _ _ => file ≠ []
  | .rollbackOpen _ _ target => target ≠ []
  | .rollbackPublish _ _ target => target ≠ []
  | .startupList file _ _ _ => file ≠ []
  | .startupPublish file enabled _ _ _ _ => enabled = true → file ≠ []
  | _ => True

variable (site : Site) (w : World) (succeeds : Bool) (file : Text)

theorem opened_named {md : Metadata} (h : openBundle site w file = .ok md) : file ≠ [] := by
  rintro rfl
  cases h

variable {α : Type}

theorem go_on_named (w : World) {found : Except Refusal α} {next : α → Task}
    (h : ∀ a, found = .ok a → TaskNamed (next a)) : TaskNamed (goOn w found next).2 := by
  cases found with
  | ok a => exact h a rfl
  | error ref => trivial

theorem go_on_world (w : World) (found : Except Refusal α) (next : α → Task) :
    (goOn w found next).1 = w := by
  cases found <;> rfl

variable {task : Task}

theorem advance_named (h : TaskNamed task) : TaskNamed (advance site w succeeds task).2 := by
  have hf : ∀ res, TaskNamed (finish w res).2 := by
    intro res
    cases res <;> trivial
  cases task with
  | deployOpen file byUser time =>
    exact go_on_named w (fun md ho => opened_named site w file ho)
  | deployRead file byUser time appId => exact h
  | deployOutgoing file byUser time appId currentActive =>
    exact go_on_named w (fun _ _ => h)
  | deployPublish file byUser time appId outg => exact hf _
  | rollbackRead byUser time =>
    rw [advance]
    split_ifs with hp
    · trivial
    · exact hp
  | rollbackOpen byUser time target => exact go_on_named w (fun _ _ => h)
  | rollbackPublish byUser time target => exact hf _
  | startupOpen file byUser time =>
    exact go_on_named w (fun md ho => opened_named site w file ho)
  | startupList file byUser time appId => exact go_on_named w (fun _ _ _ => h)
  | startupPublish file enabled byUser time appId known => exact hf _
  | removeFile file => exact hf _
  | done reply => trivial

theorem app_of_state (state : State) : appOf site ⟨w.disk,state⟩ = appOf site w :=
  app_of_disk site w _ rfl

variable {w} (byUser time : Text)

/-- After a deployment is recorded the store is sound just when the package is still there and
the one it replaces is of its application if it was taken to be. -/
theorem deploy_sound_iff (appId outgoing : Text) (hs : Sound site w) (hf : file ≠ []) :
    Sound site ⟨w.disk,recordHistory site (publishDeploy w.state file appId outgoing) time
        "deploy" file byUser⟩ ↔
      w.read site file ≠ none ∧ (w.state.active ≠ file →
        sameApplication w.state appId outgoing → SameApp site w file w.state.active) := by
  constructor
  · intro ha
    refine ⟨ha.present file ⟨hf,.inl rfl⟩,?_⟩
    intro ho hsm
    have hp := ha.previous
    simp only [recordHistory,publishDeploy,SameApp,app_of_state,if_pos ho,if_pos hsm] at hp
    exact (hp hsm.1).2
  · rintro ⟨hpr,hsm⟩
    refine ⟨?_,?_⟩
    · rintro named ⟨hn,hw⟩
      simp only [recordHistory,publishDeploy] at hw
      obtain rfl | hp | hr := hw
      · exact hpr
      · split_ifs at hp
        · exact hs.present named ⟨hn,.inl hp⟩
        · exact absurd hp hn
        · exact hs.present named ⟨hn,.inr (.inl hp)⟩
      · split_ifs at hr
        · obtain hr | rfl := (mem_push _ _ _).mp hr
          · exact hs.present named ⟨hn,.inr (.inr (mem_filter.mp hr).1)⟩
          · exact hpr
        · obtain hr | rfl := (mem_push _ _ _).mp hr
          · exact hs.present named ⟨hn,.inr (.inr hr)⟩
          · exact hpr
        · exact hs.present named ⟨hn,.inr (.inr hr)⟩
    · simp only [recordHistory,publishDeploy,SameApp,app_of_state]
      split_ifs with ho hap
      · exact fun _ => ⟨hf,hsm ho hap⟩
      · exact fun hnl => absurd rfl hnl
      · rw [← not_not.mp ho]
        exact hs.previous

theorem rollback_sound (hs : Sound site w) (hpr : w.state.previous ≠ []) :
    Sound site ⟨w.disk,recordHistory site (publishRollback w.state) time "rollback"
        w.state.previous byUser⟩ := by
  refine ⟨?_,?_⟩
  · rintro named ⟨hn,hw⟩
    simp only [recordHistory,publishRollback] at hw
    obtain ha | hp | hr := hw
    · exact hs.present named ⟨hn,.inr (.inl ha)⟩
    · exact hs.present named ⟨hn,.inl hp⟩
    · split_ifs at hr
      · obtain hr | hp := (mem_push _ _ _).mp hr
        · exact hs.present named ⟨hn,.inr (.inr (mem_filter.mp hr).1)⟩
        · exact hs.present named ⟨hn,.inr (.inl hp)⟩
      · exact hs.present named ⟨hn,.inr (.inr hr)⟩
  · intro _
    obtain ⟨_,a,ha,hp⟩ := hs.previous hpr
    simp only [recordHistory,publishRollback,SameApp,app_of_state]
    exact ⟨hpr,a,hp,ha⟩

theorem startup_sound_iff {enabled : Bool} (appId : Text) (known : List Listed) (hs : Sound site w)
    (hf : enabled = true → file ≠ []) :
    Sound site ⟨w.disk,recordHistory site (publishStartup w.state file enabled appId known) time
        (startupAction enabled) file byUser⟩ ↔
      (enabled = true → w.read site file ≠ none) := by
  constructor
  · intro haf he
    refine haf.present file ⟨hf he,.inr (.inr ?_)⟩
    simp only [recordHistory,publishStartup,he,if_true]
    exact (mem_push _ _ _).mpr (.inr rfl)
  · intro hp
    refine ⟨?_,?_⟩
    · rintro named ⟨hn,hw⟩
      simp only [recordHistory,publishStartup] at hw
      obtain ha | hpr | hr := hw
      · exact hs.present named ⟨hn,.inl ha⟩
      · exact hs.present named ⟨hn,.inr (.inl hpr)⟩
      · split_ifs at hr with he
        · obtain hr | rfl := (mem_push _ _ _).mp hr
          · exact hs.present named ⟨hn,.inr (.inr (mem_filter.mp hr).1)⟩
          · exact hp he
        · exact hs.present named ⟨hn,.inr (.inr (mem_of_mem_erase hr))⟩
    · simp only [recordHistory,publishStartup,SameApp,app_of_state]
      exact hs.previous

theorem erase_sound_iff (hs : Sound site w) :
    Sound site (w.erase site file) ↔ ∀ named, Mentioned w named →
      site.directory.locate named ≠ site.directory.locate file := by
  constructor
  · intro haf named hn hpl
    apply haf.present named hn
    rw [read_erase,if_pos hpl]
  · intro ho
    have hr : ∀ named, Mentioned w named →
        (w.erase site file).read site named = w.read site named := by
      intro named hn
      rw [read_erase,if_neg (ho named hn)]
    refine ⟨fun named hn => by rw [hr named hn]; exact hs.present named hn,?_⟩
    intro hp
    obtain ⟨hsm,a,ha,hpr⟩ := hs.previous hp
    have hap : ∀ named, Mentioned w named →
        appOf site (w.erase site file) named = appOf site w named :=
      fun named hn => by rw [appOf,hr named hn,appOf]
    exact ⟨hsm,a,(hap w.state.active ⟨hsm,.inl rfl⟩).trans ha,
      (hap w.state.previous ⟨hp,.inr (.inl rfl)⟩).trans hpr⟩

theorem advance_sound_iff (hs : Sound site w) (hn : TaskNamed task) :
    Sound site (advance site w succeeds task).1 ↔ StillTrue site w succeeds task := by
  have hsm : ∀ {α : Type} (found : Except Refusal α) (next : α → Task),
      Sound site (goOn w found next).1 ↔ True :=
    fun found next => iff_of_true (by rw [go_on_world]; exact hs) trivial
  cases task with
  | deployOpen file byUser time => exact hsm _ _
  | deployRead file byUser time appId => exact iff_of_true hs trivial
  | deployOutgoing file byUser time appId currentActive => exact hsm _ _
  | deployPublish file byUser time appId outg =>
    cases succeeds with
    | false => exact iff_of_true hs (fun h => by cases h)
    | true =>
      refine (deploy_sound_iff site file byUser time appId _ hs hn).trans ?_
      exact ⟨fun h _ => h,fun h => h rfl⟩
  | rollbackRead byUser time =>
    rw [advance]
    split_ifs <;> exact iff_of_true hs trivial
  | rollbackOpen byUser time target => exact hsm _ _
  | rollbackPublish byUser time target =>
    refine iff_of_true ?_ trivial
    rw [advance,finishRollback]
    split_ifs with hc
    · exact hs
    · cases succeeds with
      | false => exact hs
      | true =>
        exact rollback_sound site byUser time hs (not_not.mp hc ▸ hn)
  | startupOpen file byUser time => exact hsm _ _
  | startupList file byUser time appId => exact hsm _ _
  | startupPublish file enabled byUser time appId known =>
    cases succeeds with
    | false => exact iff_of_true hs (fun h => by cases h)
    | true =>
      refine (startup_sound_iff site file byUser time appId known hs hn).trans ?_
      exact ⟨fun h _ => h,fun h => h rfl⟩
  | removeFile file =>
    rw [advance,StillTrue]
    cases hr : remove site w file succeeds with
    | error ref => exact iff_of_true hs (fun next h => by cases h)
    | ok next =>
      rw [(remove_ok site w next file hr).2.2.2]
      refine (erase_sound_iff site file hs).trans ?_
      exact ⟨fun h _ _ => h,fun h => h _ rfl⟩
  | done reply => exact iff_of_true hs trivial

/-- Sound, and every call under way knows which file it is about. -/
def Steady (site : Site) (s : Sys) : Prop := Sound site s.world ∧ ∀ task ∈ s.tasks, TaskNamed task

theorem enter_named (req : Request) : TaskNamed (enter req) := by
  cases req with
  | deploy file byUser time => trivial
  | rollback byUser time => trivial
  | setRunOnStartup file enabled byUser time =>
    cases enabled with
    | true => trivial
    | false => exact fun h => by cases h
  | remove file => trivial

variable {site} {s : Sys}

theorem step_named {event : Event} (h : ∀ task ∈ s.tasks, TaskNamed task) :
    ∀ task ∈ (step site s event).tasks, TaskNamed task := by
  cases event with
  | call req =>
    intro task ht
    obtain ht | ht := mem_append.mp ht
    · exact h task ht
    · rw [mem_singleton.mp ht]
      exact enter_named req
  | turn i succeeds =>
    rw [step]
    cases ht : s.tasks[i]? with
    | none => exact h
    | some task =>
      intro o ho
      obtain ho | rfl := mem_or_eq_of_mem_set ho
      · exact h o ho
      · exact advance_named site s.world succeeds (h task (mem_of_getElem? ht))

theorem step_sound_iff (event : Event) (h : Steady site s) :
    Sound site (step site s event).world ↔ Timely site s event := by
  cases event with
  | call req => exact iff_of_true h.1 trivial
  | turn i succeeds =>
    rw [step,Timely]
    cases ht : s.tasks[i]? with
    | none => exact iff_of_true h.1 (fun task h => by cases h)
    | some task =>
      refine (advance_sound_iff site succeeds h.1 (h.2 task (mem_of_getElem? ht))).trans ?_
      exact ⟨fun h o ho => Option.some.inj ho ▸ h,fun h => h task rfl⟩

/-- Over every interleaving, every file the state names is there and the previous package is of
the active one's application, just when what a call has found out still holds when it publishes
and nothing is deleted under another spelling of a named file. -/
theorem sound_iff (site : Site) (disk : Disk) (events : List Event) :
    (∀ past rest, events = past++rest →
        Sound site (run (step site) (idle disk) past).world) ↔
      Meets (step site) (Timely site) (idle disk) events := by
  apply always_iff_meets (step site) (Timely site) (Steady site) (fun s => Sound site s.world)
  · intro s event hs ht
    exact ⟨(step_sound_iff event hs).mpr ht,step_named hs.2⟩
  · exact fun s hs => hs.1
  · exact fun s event hs hn hsn => hn ((step_sound_iff event hs).mp hsn)
  · refine ⟨⟨?_,fun h => absurd rfl h⟩,fun task hts => absurd hts List.not_mem_nil⟩
    rintro file ⟨hf,ha | hp | hr⟩
    · exact absurd ha hf
    · exact absurd hp hf
    · exact absurd hr List.not_mem_nil

def deletedMeanwhile : List Event :=
  [.call (.deploy (demoVersion 'a' "1.0.0") "admin" []),.turn 0 true,
    .call (.remove (demoVersion 'a' "1.0.0")),.turn 1 true,.turn 0 true,.turn 0 true,.turn 0 true]

/-- The active package is not in the store. -/
theorem missing_deployed :
    ¬∀ past rest, deletedMeanwhile = past++rest →
      Sound demoSite (run (step demoSite) (idle threePackages) past).world := by
  intro h
  have hs := h deletedMeanwhile [] rfl
  refine hs.present (demoVersion 'a' "1.0.0") ⟨by decide,.inl ?_⟩ ?_
  · decide +kernel
  · decide +kernel

end Packages
end EMaster
