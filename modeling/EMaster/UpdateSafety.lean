import EMaster.UpdateManager
import EMaster.Runs

/-!
# What reaches the installer

The version a worker is about to install goes back to an accepted request, and the
manifest it installs from to the last check. Neither the request nor the worker asks
whether the version is newer than the running one, and the platform that is verified is
the one the manifest names. Both are conditions on the events of a run.
-/

set_option autoImplicit false

namespace EMaster.Updates
open Runs

def Worker.pending : Worker → Option Text
  | .select version => some version
  | .snapshot m => some m.version
  | .startDownload m => some m.version
  | .download m => some m.version
  | .startVerify m _ => some m.version
  | .verify m _ => some m.version
  | .startInstall m _ => some m.version
  | .install m _ => some m.version
  | _ => none

variable (gw : Gateway) (s : Sys) (world : World)

theorem refresh_command (det : Layout) :
    (refreshConfig s det).command = s.command ∧
      (refreshConfig s det).commandVersion = s.commandVersion ∧
      (refreshConfig s det).worker = s.worker ∧
      (refreshConfig s det).calls = s.calls ∧
      (refreshConfig s det).available = s.available := ⟨rfl,rfl,rfl,rfl,rfl⟩

variable {v : Text}

theorem take_command_pending (h : (takeCommand s world).worker.pending = some v)
    (hw : s.worker = .loop) : s.command = .install ∧ v = s.commandVersion := by
  rw [takeCommand] at h
  dsimp only at h
  obtain ⟨hc,hv,hwr,_⟩ := refresh_command s _
  rw [hc,hv] at h
  cases hcm : s.command with
  | none =>
    rw [hcm] at h
    dsimp only at h
    split_ifs at h
    · cases h
    · rw [hwr,hw] at h
      cases h
  | check =>
    rw [hcm] at h
    cases h
  | install =>
    rw [hcm] at h
    exact ⟨rfl,(Option.some.inj h).symm⟩

theorem take_command_rest :
    (takeCommand s world).command = .none ∧ (takeCommand s world).calls = s.calls ∧
      (takeCommand s world).available = s.available := by
  rw [takeCommand]
  dsimp only
  split
  · split_ifs <;> exact ⟨rfl,rfl,rfl⟩
  · exact ⟨rfl,rfl,rfl⟩
  · exact ⟨rfl,rfl,rfl⟩

theorem after_fetch_pending (f : Fetched) : (afterFetch f).pending = none := by
  cases f <;> rfl

/-- An installation the worker is at after a step was under way before it, or has just
been taken from the command. -/
theorem worker_step_pending (h : (workerStep gw s world).worker.pending = some v) :
    s.worker.pending = some v ∨ s.command = .install ∧ v = s.commandVersion := by
  rw [workerStep] at h
  cases hw : s.worker with
  | loop =>
    rw [hw] at h
    exact .inr (take_command_pending s world h hw)
  | fetch =>
    rw [hw] at h
    rw [after_fetch_pending] at h
    cases h
  | announce m =>
    rw [hw] at h
    dsimp only at h
    split_ifs at h <;> cases h
  | select version =>
    rw [hw] at h
    dsimp only at h
    split_ifs at h with hne
    · cases h
    · rw [not_not] at hne
      rw [← hne]
      exact .inl h
  | snapshot m =>
    rw [hw] at h
    dsimp only at h
    split_ifs at h
    · cases h
    · exact .inl h
  | download m =>
    rw [hw] at h
    dsimp only at h
    split at h
    · cases h
    · exact .inl h
  | verify m arc =>
    rw [hw] at h
    dsimp only at h
    split at h
    · cases h
    · exact .inl h
  | install m arc =>
    rw [hw] at h
    dsimp only at h
    split at h <;> cases h
  | startDownload m =>
    rw [hw] at h
    exact .inl h
  | startVerify m arc =>
    rw [hw] at h
    exact .inl h
  | startInstall m arc =>
    rw [hw] at h
    exact .inl h
  | announceCheck => rw [hw] at h; cases h
  | checkFailed e => rw [hw] at h; cases h
  | store m => rw [hw] at h; cases h
  | mismatch => rw [hw] at h; cases h
  | failed e => rw [hw] at h; cases h
  | ready => rw [hw] at h; cases h
  | stopped =>
    rw [hw] at h
    dsimp only at h
    rw [hw] at h
    cases h

theorem worker_step_command :
    (workerStep gw s world).command = .none ∨
      (workerStep gw s world).command = s.command ∧
        (workerStep gw s world).commandVersion = s.commandVersion := by
  rw [workerStep]
  cases s.worker with
  | loop => exact .inl (take_command_rest s world).1
  | announce m =>
    dsimp only
    split_ifs <;> exact .inr ⟨rfl,rfl⟩
  | download m =>
    dsimp only
    split <;> exact .inr ⟨rfl,rfl⟩
  | verify m arc =>
    dsimp only
    split <;> exact .inr ⟨rfl,rfl⟩
  | _ => exact .inr ⟨rfl,rfl⟩

theorem worker_step_calls :
    (workerStep gw s world).calls = s.calls ∨
      ∃ m archive, s.worker = .install m archive ∧
        (workerStep gw s world).calls = s.calls++[⟨m.version,archive⟩] := by
  rw [workerStep]
  cases s.worker with
  | loop => exact .inl (take_command_rest s world).2.1
  | announce m =>
    dsimp only
    split_ifs <;> exact .inl rfl
  | download m =>
    dsimp only
    split <;> exact .inl rfl
  | verify m archive =>
    dsimp only
    split <;> exact .inl rfl
  | install m archive => exact .inr ⟨m,archive,rfl,rfl⟩
  | _ => exact .inl rfl

/-- A version on its way to the installer is newer than the running one. -/
structure OnlyNewer (gateway : Gateway) (s : Sys) : Prop where
  queued : s.command = .install → isNewer s.commandVersion gateway.currentVersion = true
  underway : ∀ v, s.worker.pending = some v → isNewer v gateway.currentVersion = true
  called : ∀ c ∈ s.calls, isNewer c.version gateway.currentVersion = true

/-- An accepted request names a version newer than the running one. -/
def RequestsNewer (gateway : Gateway) (s : Sys) : Event → Prop
  | .install detected version =>
    installRefusal (refreshConfig s detected) version = none →
      isNewer version gateway.currentVersion = true
  | _ => True

instance (gateway : Gateway) (s : Sys) (e : Event) : Decidable (RequestsNewer gateway s e) :=
  match e with
  | .install _ _ => inferInstanceAs (Decidable (_ → _))
  | .configure _ => .isTrue trivial
  | .status _ => .isTrue trivial
  | .checkNow _ => .isTrue trivial
  | .dismiss _ => .isTrue trivial
  | .worker _ => .isTrue trivial

theorem only_newer_configured (cfg : UpdateConfig) (layout : Layout) :
    OnlyNewer gw (configured cfg layout) where
  queued h := by cases h
  underway _ h := by cases h
  called _ h := by cases h

theorem only_newer_worker (h : OnlyNewer gw s) : OnlyNewer gw (workerStep gw s world) where
  queued := by
    intro hc
    rcases worker_step_command gw s world with hn | ⟨hs,hvr⟩
    · rw [hn] at hc
      cases hc
    · rw [hvr]
      exact h.queued (hs ▸ hc)
  underway := by
    intro v hv
    rcases worker_step_pending gw s world hv with hp | ⟨hc,rfl⟩
    · exact h.underway v hp
    · exact h.queued hc
  called := by
    intro c hc
    rcases worker_step_calls gw s world with hs | ⟨m,archive,hw,hcl⟩
    · exact h.called c (hs ▸ hc)
    · rw [hcl,List.mem_append,List.mem_singleton] at hc
      rcases hc with hc | rfl
      · exact h.called c hc
      · exact h.underway m.version (by rw [hw]; rfl)

theorem only_newer_step {e : Event} (h : OnlyNewer gw s) (he : RequestsNewer gw s e) :
    OnlyNewer gw (step gw s e) := by
  cases e with
  | configure settings => exact ⟨h.queued,h.underway,h.called⟩
  | status detected => exact ⟨h.queued,h.underway,h.called⟩
  | checkNow detected =>
    rw [step,checkNow]
    split_ifs
    · exact ⟨nofun,h.underway,h.called⟩
    · exact ⟨h.queued,h.underway,h.called⟩
  | install detected version =>
    rw [step,requestInstall]
    split
    next => exact ⟨h.queued,h.underway,h.called⟩
    next hr => exact ⟨fun _ => he hr,h.underway,h.called⟩
  | dismiss version =>
    rw [step,dismiss]
    split_ifs
    · exact h
    · exact h
    · exact ⟨h.queued,h.underway,h.called⟩
  | worker world => exact only_newer_worker gw s world h

/-- In every run whose accepted requests name newer versions, the installer is called with
newer versions only. -/
theorem installs_only_newer (gateway : Gateway) (config : UpdateConfig) (layout : Layout)
    (es fs : List Event)
    (h : Meets (step gateway) (RequestsNewer gateway) (configured config layout) (es++fs)) :
    ∀ c ∈ (run (step gateway) (configured config layout) es).calls,
      isNewer c.version gateway.currentVersion = true :=
  (run_always _ _ _
    (only_newer_step gateway) _ es fs (only_newer_configured gateway config layout) h).called

/-- A gateway and a server that offers one release, for any platform that is asked. -/
def demoGateway (current offered : Text) : Gateway where
  codec := {
    parse := fun _ => .ok (.obj [("version",.str offered),
      ("url",.str "http://updates/pkg"),("sha256",.str ['b']),
      ("signature",.str ['s'])])
    readStream := fun _ => .error []
    dump := fun _ => [] }
  signing := ⟨id,fun _ _ _ => .ok (),fun _ => True,fun _ _ _ _ => trivial⟩
  platform := "linux-arm64"
  currentVersion := current
  dataDir := "/opt/data"

def demoConfig : UpdateConfig where
  enabled := true
  url := "http://updates"
  requireSignature := true
  publicKeyPath := "key.pem"
  installRoot := []

def demoLayout : Layout := ⟨true,[],"1.0.0"⟩

def demoWorld : World where
  detected := demoLayout
  due := true
  response := .ok []
  download := .ok ['b']
  readable := true
  installed := .ok ()

def checkAndInstall (version : Text) : List Event :=
  List.replicate 5 (.worker demoWorld)++.install demoLayout version::
    List.replicate 9 (.worker demoWorld)

theorem newer_release_called :
    Meets (step (demoGateway "1.0.0" "1.1.0"))
        (RequestsNewer (demoGateway "1.0.0" "1.1.0"))
        (configured demoConfig demoLayout) (checkAndInstall "1.1.0"++[]) ∧
      ∀ c ∈ (run (step (demoGateway "1.0.0" "1.1.0"))
          (configured demoConfig demoLayout) (checkAndInstall "1.1.0")).calls,
        isNewer c.version "1.0.0" = true :=
  ⟨by decide,installs_only_newer _ demoConfig demoLayout _ [] (by decide)⟩

/-- The running version is offered again, requested and installed. -/
theorem same_version_called :
    (run (step (demoGateway "1.0.0".toList "1.0.0".toList)) (configured demoConfig demoLayout)
        (checkAndInstall "1.0.0".toList)).calls.map Call.version = ["1.0.0".toList] ∧
      isNewer "1.0.0".toList "1.0.0".toList = false := by decide

end EMaster.Updates
