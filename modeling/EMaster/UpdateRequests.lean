import EMaster.UpdateSafety

/-!
# Requests handed to the update worker

An accepted request waits in the one command slot until the worker takes it. Beside the
machine stand the versions that were accepted and not taken up yet; a version is taken up when
the worker enters its download for it, or reports why it does not.
-/

set_option autoImplicit false

namespace EMaster.Updates
open Runs List Worker

def Worker.ends : Worker → Bool
  | .ready => true
  | .stopped => true
  | _ => false

def Event.isWorker : Event → Bool
  | .worker _ => true
  | _ => false

/-- The machine, the accepted versions still owed, and the one that is being refused. -/
structure Tracked where
  sys : Sys
  owed : List Text
  hand : Option Text

def accepted (s : Sys) (detected : Layout) (version : Text) : Bool :=
  installRefusal (refreshConfig s detected) version = none

def owedAfter (t : Tracked) : Event → List Text
  | .install detected version =>
    if accepted t.sys detected version then t.owed++[version] else t.owed
  | .worker _ =>
    match t.sys.worker with
    | .select version =>
      if t.sys.available.version = version then t.owed.filter (fun v => v ≠ version) else t.owed
    | .mismatch => t.owed.filter (fun v => some v ≠ t.hand)
    | _ => t.owed
  | _ => t.owed

def handAfter (t : Tracked) : Event → Option Text
  | .worker _ =>
    match t.sys.worker with
    | .select version => some version
    | _ => t.hand
  | _ => t.hand

def follow (gateway : Gateway) (t : Tracked) (e : Event) : Tracked :=
  ⟨step gateway t.sys e,owedAfter t e,handAfter t e⟩

/-- By the time the worker has taken twelve more steps, each version that was accepted has been
taken up. -/
def Served (gateway : Gateway) (t : Tracked) (later : List Event) : Prop :=
  ∀ v ∈ t.owed, 12 ≤ later.countP Event.isWorker →
    ∃ soon rest, later = soon++rest ∧ v ∉ (run (follow gateway) t soon).owed

/-- What makes the worker's thread end. -/
def Worker.endsWith (gateway : Gateway) (config : UpdateConfig) (world : World) : Worker → Bool
  | .fetch =>
    match fetchManifest gateway.codec config gateway.platform gateway.currentVersion
      world.response with
    | .thrown => true
    | _ => false
  | .install _ _ => world.installed.isOk
  | .ready => true
  | .stopped => true
  | _ => false

/-- No request is put over an install in the slot, and the worker does not end, or has not ended,
with one there. -/
def Undropped (gateway : Gateway) (t : Tracked) : Event → Prop
  | .checkNow _ => t.sys.settings.enabled = true → t.sys.command ≠ .install
  | .install detected version => accepted t.sys detected version = true →
      t.sys.worker.ends = false ∧ (t.sys.command = .install → t.sys.commandVersion = version)
  | .worker world => t.sys.command = .install →
      t.sys.worker.endsWith gateway t.sys.config world = false
  | _ => True

instance (gateway : Gateway) (t : Tracked) (e : Event) : Decidable (Undropped gateway t e) :=
  match e with
  | .checkNow _ => inferInstanceAs (Decidable (_ → _))
  | .install _ _ => inferInstanceAs (Decidable (_ → _))
  | .worker _ => inferInstanceAs (Decidable (_ → _))
  | .configure _ => .isTrue trivial
  | .status _ => .isTrue trivial
  | .dismiss _ => .isTrue trivial

/-- How many steps the worker is at most from the top of its loop. -/
def Worker.distance : Worker → ℕ
  | .loop | .ready | .stopped => 0
  | .checkFailed _ | .announce _ | .mismatch | .failed _ => 1
  | .store _ | .install _ _ => 2
  | .fetch | .startInstall _ _ => 3
  | .announceCheck | .verify _ _ => 4
  | .startVerify _ _ => 5
  | .download _ => 6
  | .startDownload _ => 7
  | .snapshot _ => 8
  | .select _ => 9

/-- The version is taken up within so many steps of the worker: it is in its hands or in the
slot. -/
inductive Near (t : Tracked) (v : Text) (n : ℕ) : Prop where
  | selected (hworker : t.sys.worker = .select v) (hsteps : 2 ≤ n)
  | refused (hworker : t.sys.worker = .mismatch) (hhand : t.hand = some v) (hsteps : 1 ≤ n)
  | queued (hcommand : t.sys.command = .install) (hversion : t.sys.commandVersion = v)
      (hends : t.sys.worker.ends = false) (hsteps : t.sys.worker.distance+3 ≤ n)

def Kept (t : Tracked) : Prop := ∀ v ∈ t.owed, Near t v 12

section Steps
variable (gw : Gateway) (t : Tracked) (world : World) {v : Text} {n : ℕ}

theorem near_mono {m : ℕ} (h : Near t v n) (hm : n ≤ m) : Near t v m := by
  cases h with
  | selected hw hs => exact .selected hw (hs.trans hm)
  | refused hw hh hs => exact .refused hw hh (hs.trans hm)
  | queued hc hv he hs => exact .queued hc hv he (hs.trans hm)

theorem queued_near (hc : t.sys.command = .install) (hv : t.sys.commandVersion = v)
    (he : t.sys.worker.ends = false) : Near t v 12 := by
  refine .queued hc hv he ?_
  cases t.sys.worker <;> exact of_decide_eq_true rfl

theorem taken_worker {s : Sys} (hl : s.worker = .loop) :
    s.command = .install ∧ (takeCommand s world).worker = .select s.commandVersion ∨
      s.command ≠ .install ∧ ((takeCommand s world).worker = .announceCheck ∨
        (takeCommand s world).worker = .loop) := by
  obtain ⟨hc,hv,hw,_⟩ := refresh_command s _
  rw [takeCommand]
  dsimp only
  rw [hc]
  cases s.command with
  | none =>
    dsimp only
    split_ifs
    · exact .inr ⟨by simp,.inl rfl⟩
    · exact .inr ⟨by simp,.inr (hw.trans hl)⟩
  | check => exact .inr ⟨by simp,.inl rfl⟩
  | install => exact .inl ⟨rfl,by rw [hv]⟩

/-- Away from the top of its loop the worker leaves the slot alone and comes nearer to the top,
unless it ends. -/
structure Nearer (s s' : Sys) : Prop where
  command : s'.command = s.command
  version : s'.commandVersion = s.commandVersion
  ends : s'.worker.ends = false
  distance : s'.worker.distance < s.worker.distance

theorem worker_nearer {s : Sys} (hl : s.worker ≠ .loop)
    (he : s.worker.endsWith gw s.config world = false) : Nearer s (workerStep gw s world) := by
  rw [workerStep]
  cases hw : s.worker with
  | loop => exact absurd hw hl
  | ready =>
    rw [hw] at he
    cases he
  | stopped =>
    rw [hw] at he
    cases he
  | fetch =>
    rw [hw,endsWith] at he
    dsimp only
    cases hf : fetchManifest gw.codec s.config gw.platform gw.currentVersion world.response with
    | thrown =>
      rw [hf] at he
      cases he
    | _ => exact ⟨rfl,rfl,rfl,by rw [hw]; exact of_decide_eq_true rfl⟩
  | install m arc =>
    rw [hw,endsWith] at he
    dsimp only
    cases hi : world.installed with
    | ok result =>
      rw [hi] at he
      cases he
    | error e => exact ⟨rfl,rfl,rfl,by rw [hw]; exact of_decide_eq_true rfl⟩
  | announce m =>
    dsimp only
    split_ifs <;> exact ⟨rfl,rfl,rfl,by rw [hw]; exact of_decide_eq_true rfl⟩
  | select version =>
    dsimp only
    split_ifs <;> exact ⟨rfl,rfl,rfl,by rw [hw]; exact of_decide_eq_true rfl⟩
  | snapshot m =>
    dsimp only
    split_ifs <;> exact ⟨rfl,rfl,rfl,by rw [hw]; exact of_decide_eq_true rfl⟩
  | download m =>
    dsimp only
    split <;> exact ⟨rfl,rfl,rfl,by rw [hw]; exact of_decide_eq_true rfl⟩
  | verify m arc =>
    dsimp only
    split <;> exact ⟨rfl,rfl,rfl,by rw [hw]; exact of_decide_eq_true rfl⟩
  | _ => exact ⟨rfl,rfl,rfl,by rw [hw]; exact of_decide_eq_true rfl⟩

/-- A step of the worker brings an accepted version nearer, as long as it does not take it up. -/
theorem near_worker (h : Near t v n) (hu : Undropped gw t (.worker world))
    (hv : v ∈ owedAfter t (.worker world)) :
    ∃ m, n = m+1 ∧ Near (follow gw t (.worker world)) v m := by
  cases h with
  | selected hw hs =>
    have hne : t.sys.available.version ≠ v := by
      intro he
      simp [owedAfter,hw,he] at hv
    refine ⟨n-1,by omega,.refused ?_ ?_ (by omega)⟩
    · simp [follow,step,workerStep,hw,hne]
    · simp [follow,handAfter,hw]
  | refused hw hh hs => simp [owedAfter,hw,hh] at hv
  | queued hc hcv he hs =>
    refine ⟨n-1,by omega,?_⟩
    by_cases hl : t.sys.worker = .loop
    · obtain ⟨_,hsel⟩ | ⟨hn,_⟩ := taken_worker world hl
      · rw [hcv] at hsel
        refine .selected ?_ (by omega)
        rw [follow,step,workerStep,hl]
        exact hsel
      · exact absurd hc hn
    · obtain ⟨h1,h2,h3,h4⟩ := worker_nearer gw world hl (hu hc)
      exact .queued (h1.trans hc) (h2.trans hcv) h3 (by
        change (workerStep gw t.sys world).worker.distance+3 ≤ n-1
        omega)

theorem near_same {t' : Tracked} (hw : t'.sys.worker = t.sys.worker) (hh : t'.hand = t.hand)
    (hc : t.sys.command = .install → t'.sys.command = .install ∧
      t'.sys.commandVersion = t.sys.commandVersion) (h : Near t v n) : Near t' v n := by
  cases h with
  | selected hs hn => exact .selected (hw.trans hs) hn
  | refused hs hhand hn => exact .refused (hw.trans hs) (hh.trans hhand) hn
  | queued hi hv he hn =>
    obtain ⟨hci,hcv⟩ := hc hi
    exact .queued hci (hcv.trans hv) (hw ▸ he) (hw ▸ hn)

theorem near_request {detected : Layout} {version : Text} (h : Near t v n)
    (hu : Undropped gw t (.install detected version)) :
    Near (follow gw t (.install detected version)) v n := by
  have hw : (requestInstall t.sys detected version).worker = t.sys.worker := by
    rw [requestInstall]
    split <;> rfl
  refine near_same t hw rfl (fun hc => ?_) h
  change (requestInstall t.sys detected version).command = _ ∧
    (requestInstall t.sys detected version).commandVersion = _
  rw [requestInstall]
  split
  · exact ⟨hc,rfl⟩
  · rename_i hr
    exact ⟨rfl,((hu (decide_eq_true hr)).2 hc).symm⟩

/-- Other events do not take an accepted version further away. -/
theorem near_other {e : Event} (he : e.isWorker = false) (h : Near t v n)
    (hu : Undropped gw t e) : Near (follow gw t e) v n := by
  cases e with
  | configure settings => exact near_same t rfl rfl (⟨·,rfl⟩) h
  | status detected => exact near_same t rfl rfl (⟨·,rfl⟩) h
  | checkNow detected =>
    by_cases hen : t.sys.settings.enabled = true
    · refine near_same t ?_ rfl (fun hc => absurd hc (hu hen)) h
      simp [follow,step,checkNow,refreshConfig,hen]
    · have hs : checkNow t.sys detected = refreshConfig t.sys detected := by
        simp [checkNow,refreshConfig,hen]
      refine near_same t ?_ rfl (fun hc => ?_) h
      · rw [follow,step,hs]
        rfl
      · rw [follow,step,hs]
        exact ⟨hc,rfl⟩
  | install detected version => exact near_request gw t h hu
  | dismiss version =>
    have hs : (dismiss t.sys version).worker = t.sys.worker ∧
        (dismiss t.sys version).command = t.sys.command ∧
        (dismiss t.sys version).commandVersion = t.sys.commandVersion := by
      unfold dismiss
      split_ifs <;> exact ⟨rfl,rfl,rfl⟩
    exact near_same t hs.1 rfl (fun hc => ⟨hs.2.1.trans hc,hs.2.2⟩) h
  | worker world => cases he

theorem owed_after_sub (hv : v ∈ owedAfter t (.worker world)) : v ∈ t.owed := by
  simp only [owedAfter] at hv
  split at hv
  · split_ifs at hv
    · exact (mem_filter.mp hv).1
    · exact hv
  · exact (mem_filter.mp hv).1
  · exact hv

theorem kept_step (e : Event) (h : Kept t) (hu : Undropped gw t e) : Kept (follow gw t e) := by
  intro v hv
  cases e with
  | worker world =>
    obtain ⟨m,hm,hn⟩ := near_worker gw t world (h v (owed_after_sub t world hv)) hu hv
    exact near_mono _ hn (by omega)
  | install detected version =>
    by_cases ha : accepted t.sys detected version = true
    · have ho : v ∈ t.owed++[version] := by simpa [follow,owedAfter,ha] using hv
      rcases mem_append.mp ho with ho | ho
      · exact near_other gw t rfl (h v ho) hu
      · have hr : installRefusal (refreshConfig t.sys detected) version = none :=
          of_decide_eq_true ha
        have hs : (follow gw t (.install detected version)).sys =
            { refreshConfig t.sys detected with command := .install, commandVersion := version } := by
          simp only [follow,step,requestInstall,hr]
        refine queued_near _ ?_ ?_ ?_
        · rw [hs]
        · rw [hs,mem_singleton.mp ho]
        · rw [hs]
          exact (hu ha).1
    · have ho : v ∈ t.owed := by simpa [follow,owedAfter,ha] using hv
      exact near_other gw t rfl (h v ho) hu
  | configure settings => exact near_other gw t rfl (h v hv) hu
  | status detected => exact near_other gw t rfl (h v hv) hu
  | checkNow detected => exact near_other gw t rfl (h v hv) hu
  | dismiss version => exact near_other gw t rfl (h v hv) hu

end Steps

def requested : List Event :=
  List.replicate 5 (.worker demoWorld)++[.install demoLayout "1.1.0"]

/-- The worker is between the start of a download and the end of the installation. -/
def Worker.working : Worker → Bool
  | .download _ => true
  | .startVerify _ _ => true
  | .verify _ _ => true
  | .startInstall _ _ => true
  | .install _ _ => true
  | _ => false

def ManagerState.inProgress (state : ManagerState) : Bool :=
  state = .downloading || state = .verifying || state = .installing

/-- While the worker is at work this is what is reported, and every request is refused. -/
def ProgressShown (s : Sys) : Prop :=
  s.worker.working = true → s.state.inProgress = true ∧
    ∀ detected version, accepted s detected version = false

/-- The settings are not looked at while updates are switched off and the worker is at work. -/
def NotSwitchedOff (s : Sys) : Event → Prop
  | .status _ => s.worker.working = true → s.settings.enabled = true
  | .checkNow _ => s.worker.working = true → s.settings.enabled = true
  | .install _ _ => s.worker.working = true → s.settings.enabled = true
  | _ => True

section Progress
variable (gw : Gateway) (s : Sys)

def Shown : Prop := s.worker.working = true → s.state.inProgress = true

theorem progress_not_disabled {state : ManagerState} (h : state.inProgress = true) :
    state ≠ .disabled ∧ busy state = true := by
  cases state <;> simp_all [ManagerState.inProgress,busy]

/-- A request is refused because updates are off or because one is under way. -/
theorem progress_refused (det : Layout) (ver : Text) (h : s.state.inProgress = true) :
    accepted s det ver = false := by
  obtain ⟨hn,hb⟩ := progress_not_disabled h
  unfold accepted
  rw [decide_eq_false_iff_not]
  unfold installRefusal
  split_ifs with he _ _ hi
  · simp
  · simp
  · simp
  · simp
  · have hon : s.settings.enabled = true := by simpa [refreshConfig] using he
    rw [refreshConfig] at hi
    dsimp only [refreshedState] at hi
    rw [if_neg (by simp [hn]), if_neg (by simp [hon])] at hi
    exact absurd hb hi

theorem progress_shown_of (h : Shown s) : ProgressShown s :=
  fun hw => ⟨h hw,fun _ _ =>
    progress_refused s _ _ (h hw)⟩

/-- The settings that were looked at are on just if the progress is still shown. -/
theorem refreshed_shown (det : Layout) (h : Shown s) :
    Shown (refreshConfig s det) ↔ (s.worker.working = true → s.settings.enabled = true) := by
  show (s.worker.working = true → (refreshedState s.settings.enabled s.state).inProgress = true) ↔ _
  by_cases hw : s.worker.working = true
  · have hp := h hw
    obtain ⟨hn,_⟩ := progress_not_disabled hp
    cases he : s.settings.enabled with
    | true => simp [hw,refreshedState,hn,hp]
    | false => simp [hw,refreshedState,hn,ManagerState.inProgress]
  · simp [hw]

theorem take_command_idle (world : World) (hl : s.worker = .loop) :
    (takeCommand s world).worker.working = false := by
  rcases taken_worker world hl with ⟨_,h⟩ | ⟨_,h | h⟩ <;> rw [h] <;> rfl

theorem worker_shown (world : World) (h : Shown s) : Shown (workerStep gw s world) := by
  intro hw
  rw [workerStep] at hw ⊢
  cases hwr : s.worker with
  | loop =>
    rw [hwr] at hw
    dsimp only at hw
    rw [take_command_idle s world hwr] at hw
    cases hw
  | fetch =>
    rw [hwr] at hw
    dsimp only at hw
    cases hf : fetchManifest gw.codec s.config gw.platform gw.currentVersion
      world.response <;> rw [hf] at hw <;> cases hw
  | announce m =>
    rw [hwr] at hw
    dsimp only at hw
    split_ifs at hw <;> cases hw
  | select version =>
    rw [hwr] at hw
    dsimp only at hw
    split_ifs at hw <;> cases hw
  | snapshot m =>
    rw [hwr] at hw
    dsimp only at hw
    split_ifs at hw <;> cases hw
  | download m =>
    have hs := h (by rw [hwr]; rfl)
    dsimp only
    split <;> exact hs
  | verify m arc =>
    have hs := h (by rw [hwr]; rfl)
    dsimp only
    split <;> exact hs
  | install m arc => exact h (by rw [hwr]; rfl)
  | startDownload m => rfl
  | startVerify m arc => rfl
  | startInstall m arc => rfl
  | stopped => exact h (by rw [hwr] at hw; exact hw)
  | _ =>
    rw [hwr] at hw
    cases hw

theorem shown_iff (e : Event) (h : Shown s) : Shown (step gw s e) ↔ NotSwitchedOff s e := by
  cases e with
  | configure settings => exact iff_of_true h trivial
  | status detected => exact refreshed_shown s _ h
  | checkNow detected =>
    rw [NotSwitchedOff,← refreshed_shown s _ h,step,checkNow]
    split_ifs <;> exact Iff.rfl
  | install detected version =>
    rw [NotSwitchedOff,← refreshed_shown s _ h,step,requestInstall]
    split <;> exact Iff.rfl
  | dismiss version =>
    rw [step,dismiss]
    split_ifs <;> exact iff_of_true h trivial
  | worker world => exact iff_of_true (worker_shown gw s world h) trivial

end Progress

/-- In every state of a run the progress is shown and no second request is accepted, just if
nothing looks at the settings while updates are off and the worker is at work. -/
theorem progress_shown_iff (gateway : Gateway) (config : UpdateConfig) (layout : Layout)
    (events : List Event) :
    (∀ before after, events = before++after →
        ProgressShown (run (step gateway) (configured config layout) before)) ↔
      Meets (step gateway) NotSwitchedOff (configured config layout) events := by
  refine always_iff_meets _ _ Shown _ ?_ ?_ ?_
    _ _ (fun h => by cases h)
  · exact fun s e hs hon => (shown_iff _ s e hs).mpr hon
  · exact progress_shown_of
  · intro s e hs hn hp
    exact hn ((shown_iff _ s e hs).mp (fun hw => (hp hw).1))

def downloading : List Event := requested++List.replicate 4 (.worker demoWorld)

/-- Updates are switched off and on again, and the status is asked for in between. -/
def toggled : List Event :=
  [.configure { demoConfig with enabled := false },.status demoLayout,.configure demoConfig]

def duringUpdate (events : List Event) : Sys :=
  run (step (demoGateway "1.0.0" "1.1.0")) (configured demoConfig demoLayout)
    (downloading++events)

/-- The state is reported as disabled in the middle of the download, and after that a second
request is accepted. -/
theorem second_install_accepted :
    (duringUpdate []).worker.working = true ∧ (duringUpdate toggled).worker.working = true ∧
      (duringUpdate toggled).state = .disabled ∧
      accepted (duringUpdate toggled) demoLayout "1.1.0" = true ∧
      ¬ProgressShown (duringUpdate toggled) := by
  have hw : (duringUpdate toggled).worker.working = true := by decide +kernel
  have ha : accepted (duringUpdate toggled) demoLayout "1.1.0" = true := by
    decide +kernel
  refine ⟨by decide +kernel,hw,by decide +kernel,ha,fun hs => ?_⟩
  rw [(hs hw).2 demoLayout "1.1.0"] at ha
  cases ha

end EMaster.Updates
