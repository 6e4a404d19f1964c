import EMaster.UpdateSafety

/-!
# What is signed when the installer is called

The signed message names a version, a platform and a digest. The version and the digest
are those of the package that is installed. The platform is the manifest's own field, so
that it is this gateway's only if the manifests say so or say nothing.
-/

set_option autoImplicit false

namespace EMaster.Updates
open Runs List Option

/-- The release an answer describes names this gateway's platform or none. -/
def OwnPlatform (gateway : Gateway) (response : Except Text Text) : Prop :=
  ∀ body fields entry, response = .ok body → gateway.codec.parse body = .ok (.obj fields) →
    releaseEntry fields gateway.platform = .ok entry →
    entry.field "platform" = none ∨
      entry.field "platform" = some (.str gateway.platform)

variable {platform : Text} {en : Json}

theorem value_platform {named : Text} (h : en.valueText "platform" platform = some named)
    (ho : en.field "platform" = none ∨ en.field "platform" = some (.str platform)) : named = platform := by
  cases en with
  | obj fields =>
    rw [Json.valueText] at h
    rcases ho with hn | hs
    · rw [hn] at h
      exact (some.inj h).symm
    · rw [hs] at h
      exact (some.inj h).symm
  | _ => cases h

theorem read_manifest_platform (en : Json) (url platform : Text) (m : Manifest)
    (h : readManifest en url platform = some m)
    (ho : en.field "platform" = none ∨
      en.field "platform" = some (.str platform)) : m.platform = platform := by
  simp only [readManifest,bind_eq_bind,bind_eq_some_iff] at h
  obtain ⟨_,_,named,hn,_,_,_,_,_,_,_,_,_,_,_,_,hm⟩ := h
  rw [← some.inj hm]
  exact value_platform hn ho

variable {m : Manifest}

theorem accept_entry_platform {url : Text} {current : Text}
    (h : acceptEntry en url platform current = .offered m)
    (ho : en.field "platform" = none ∨ en.field "platform" = some (.str platform)) : m.platform = platform := by
  rw [acceptEntry] at h
  split_ifs at h
  split at h
  · cases h
  next read hr =>
    split_ifs at h
    rw [← Fetched.offered.inj h,escalate]
    split_ifs <;> exact read_manifest_platform en url _ read hr ho

theorem release_entry_error {fields : List (Text×Json)} {out : Fetched} (m : Manifest)
    (h : releaseEntry fields platform = .error out) : out ≠ .offered m := by
  rintro rfl
  rw [releaseEntry.eq_def] at h
  split at h
  · split at h
    · cases h
    · cases h
    · split_ifs at h
      cases h
    · cases h
  · cases h

variable (gw : Gateway) (s : Sys) (world : World) {cfg : UpdateConfig}

theorem fetched_platform {resp : Except Text Text} (ho : OwnPlatform gw resp)
    (h : fetchManifest gw.codec cfg gw.platform gw.currentVersion resp = .offered m) :
    m.platform = gw.platform := by
  rw [fetchManifest.eq_def] at h
  split_ifs at h
  split at h
  · cases h
  next body =>
    split at h
    · cases h
    next fields hp =>
      split at h
      next outcome he =>
        exact absurd h (release_entry_error m he)
      next en he =>
        exact accept_entry_platform h (ho body fields en rfl hp he)
    · cases h

variable {archive : Text}

theorem verify_package_signed {readable : Bool} (hon : cfg.requireSignature = true)
    (h : verifyPackage gw cfg m archive readable = .ok ()) :
    gw.signing.signed (buildSignedMessage m.version m.platform (gw.signing.sha256Hex archive)) := by
  rw [verifyPackage,hon,if_neg (c := true = false) nofun] at h
  split_ifs at h
  split at h
  next hv => exact gw.signing.unforgeable _ _ _ hv
  next => cases h

/-- The manifest an installation in progress is for. -/
def Worker.carried : Worker → Option Manifest
  | .snapshot m => some m
  | .startDownload m => some m
  | .download m => some m
  | .startVerify m _ => some m
  | .verify m _ => some m
  | .startInstall m _ => some m
  | .install m _ => some m
  | _ => none

def Worker.verified : Worker → Option (Manifest×Text)
  | .startInstall m archive => some (m,archive)
  | .install m archive => some (m,archive)
  | _ => none

def Worker.fetched : Worker → Option Manifest
  | .store m => some m
  | _ => none

theorem take_command_worker (hw : s.worker = .loop) :
    (takeCommand s world).worker.carried = none ∧
      (takeCommand s world).worker.verified = none ∧
      (takeCommand s world).worker.fetched = none := by
  rw [takeCommand]
  dsimp only
  split
  · split_ifs
    · exact ⟨rfl,rfl,rfl⟩
    · change s.worker.carried = none ∧ s.worker.verified = none ∧ s.worker.fetched = none
      rw [hw]
      exact ⟨rfl,rfl,rfl⟩
  · exact ⟨rfl,rfl,rfl⟩
  · exact ⟨rfl,rfl,rfl⟩

theorem after_fetch_worker (f : Fetched) :
    (afterFetch f).carried = none ∧ (afterFetch f).verified = none ∧
      ∀ m, (afterFetch f).fetched = some m → m.version = [] ∨ f = .offered m := by
  cases f with
  | nothing =>
    refine ⟨rfl,rfl,?_⟩
    rintro m ⟨⟩
    exact .inl rfl
  | offered offer =>
    refine ⟨rfl,rfl,?_⟩
    rintro m ⟨⟩
    exact .inr rfl
  | failed e => exact ⟨rfl,rfl,nofun⟩
  | thrown => exact ⟨rfl,rfl,nofun⟩

/-- Where the manifests and packages of the worker come from in one step. -/
structure Moves (gateway : Gateway) (s t : Sys) (world : World) : Prop where
  carried : ∀ m, t.worker.carried = some m → s.worker.carried = some m ∨
    s.worker.pending = some s.available.version ∧ m = s.available
  verified : ∀ m archive, t.worker.verified = some (m,archive) →
    s.worker.verified = some (m,archive) ∨ s.worker.carried = some m ∧
      verifyPackage gateway s.config m archive world.readable = .ok ()
  fetched : ∀ m, t.worker.fetched = some m → s.worker = .fetch ∧
    (m.version = [] ∨ fetchManifest gateway.codec s.config gateway.platform
      gateway.currentVersion world.response = .offered m)
  available : t.available = s.available ∨ s.worker.fetched = some t.available
  config : t.config = s.config ∨ t.config = s.settings
  settings : t.settings = s.settings

variable {t : Sys}

theorem moves_quiet (world : World) (hc : t.worker.carried = none) (hv : t.worker.verified = none)
    (hf : t.worker.fetched = none) (ha : t.available = s.available)
    (hcn : t.config = s.config ∨ t.config = s.settings) (hs : t.settings = s.settings) :
    Moves gw s t world where
  carried m h := by rw [hc] at h; cases h
  verified m archive h := by rw [hv] at h; cases h
  fetched m h := by rw [hf] at h; cases h
  available := .inl ha
  config := hcn
  settings := hs

theorem moves_take (hw : s.worker = .loop) : Moves gw s (takeCommand s world) world := by
  obtain ⟨hc,hv,hf⟩ := take_command_worker s world hw
  apply moves_quiet gw s world hc hv hf (take_command_rest s world).2.2
  · right
    rw [takeCommand]
    dsimp only
    split
    · split_ifs <;> rfl
    · rfl
    · rfl
  · rw [takeCommand]
    dsimp only
    split
    · split_ifs <;> rfl
    · rfl
    · rfl

theorem moves_carried (world : World) (hc : t.worker.carried = s.worker.carried)
    (hv : t.worker.verified = s.worker.verified) (hf : t.worker.fetched = none)
    (ha : t.available = s.available) (hcn : t.config = s.config) (hs : t.settings = s.settings) :
    Moves gw s t world where
  carried m h := .inl (hc ▸ h)
  verified m archive h := .inl (hv ▸ h)
  fetched m h := by rw [hf] at h; cases h
  available := .inl ha
  config := .inl hcn
  settings := hs

theorem moves_fetch (hw : s.worker = .fetch) :
    Moves gw s { s with worker := afterFetch (fetchManifest gw.codec s.config
      gw.platform gw.currentVersion world.response) } world := by
  obtain ⟨hc,hv,hf⟩ := after_fetch_worker _
  exact {
    carried := fun m h => absurd (hc.symm.trans h) nofun
    verified := fun m arc h => absurd (hv.symm.trans h) nofun
    fetched := fun m h => ⟨hw,hf m h⟩
    available := .inl rfl
    config := .inl rfl
    settings := rfl }

variable {ver : Text}

theorem moves_select (hw : s.worker = .select ver) :
    Moves gw s { s with worker :=
        if s.available.version ≠ ver then .mismatch else .snapshot s.available } world := by
  split_ifs with hne
  · exact moves_quiet gw s world rfl rfl rfl rfl (.inl rfl) rfl
  · rw [not_not] at hne
    exact {
      carried := fun m h => .inr ⟨by rw [hw,hne]; rfl,(some.inj h).symm⟩
      verified := nofun
      fetched := nofun
      available := .inl rfl
      config := .inl rfl
      settings := rfl }

theorem moves_verify (hw : s.worker = .verify m archive)
    (hok : verifyPackage gw s.config m archive world.readable = .ok ()) :
    Moves gw s { s with worker := .startInstall m archive } world where
  carried n h := by
    left
    rw [hw]
    exact h
  verified n other h := by
    right
    obtain ⟨rfl,rfl⟩ := Prod.mk.inj (some.inj h)
    rw [hw]
    exact ⟨rfl,hok⟩
  fetched n h := by cases h
  available := .inl rfl
  config := .inl rfl
  settings := rfl

theorem worker_step_moves : Moves gw s (workerStep gw s world) world := by
  rw [workerStep]
  cases hw : s.worker with
  | loop => exact moves_take gw s world hw
  | fetch => exact moves_fetch gw s world hw
  | select version => exact moves_select gw s world hw
  | store m =>
    refine ⟨?_,?_,?_,.inr (by rw [hw]; rfl),.inl rfl,rfl⟩
    · intro n hn
      cases hn
    · intro n arc hn
      cases hn
    · intro n hn
      cases hn
  | announce m =>
    dsimp only
    split_ifs <;> exact moves_quiet gw s world rfl rfl rfl rfl (.inl rfl) rfl
  | snapshot m =>
    dsimp only
    split_ifs
    · exact moves_quiet gw s world rfl rfl rfl rfl (.inl rfl) rfl
    · apply moves_carried <;> first | rfl | rw [hw]; rfl
  | download m =>
    dsimp only
    split
    · exact moves_quiet gw s world rfl rfl rfl rfl (.inl rfl) rfl
    · apply moves_carried <;> first | rfl | rw [hw]; rfl
  | startDownload m => apply moves_carried <;> first | rfl | rw [hw]; rfl
  | startVerify m arc => apply moves_carried <;> first | rfl | rw [hw]; rfl
  | verify m arc =>
    dsimp only
    split
    next => exact moves_quiet gw s world rfl rfl rfl rfl (.inl rfl) rfl
    next hok => exact moves_verify gw s world hw hok
  | startInstall m arc => apply moves_carried <;> first | rfl | rw [hw]; rfl
  | install m arc =>
    cases world.installed <;> exact moves_quiet gw s world rfl rfl rfl rfl (.inl rfl) rfl
  | stopped => apply moves_carried <;> first | rfl | rw [hw]; rfl
  | _ => exact moves_quiet gw s world rfl rfl rfl rfl (.inl rfl) rfl

def releaseMessage (gateway : Gateway) (version archive : Text) : Text :=
  buildSignedMessage version gateway.platform (gateway.signing.sha256Hex archive)

structure OnlySigned (gateway : Gateway) (s : Sys) : Prop where
  required : s.config.requireSignature = true ∧ s.settings.requireSignature = true
  queued : s.command = .install → s.commandVersion ≠ []
  underway : ∀ v, s.worker.pending = some v → v ≠ []
  offered : s.available.version ≠ [] → s.available.platform = gateway.platform
  fetched : ∀ m, s.worker.fetched = some m → m.version ≠ [] → m.platform = gateway.platform
  carried : ∀ m, s.worker.carried = some m → m.platform = gateway.platform
  verified : ∀ m archive, s.worker.verified = some (m,archive) →
    gateway.signing.signed (releaseMessage gateway m.version archive)
  called : ∀ c ∈ s.calls, gateway.signing.signed (releaseMessage gateway c.version c.archive)

/-- Signatures stay required, and manifests name this platform or none. -/
def KeepsPlatform (gateway : Gateway) (s : Sys) : Event → Prop
  | .configure settings => settings.requireSignature = true
  | .worker world => s.worker = .fetch → OwnPlatform gateway world.response
  | _ => True

variable {world}

theorem only_signed_worker (h : OnlySigned gw s)
    (how : s.worker = .fetch → OwnPlatform gw world.response) :
    OnlySigned gw (workerStep gw s world) := by
  have hm := worker_step_moves gw s world
  refine ⟨⟨?_,?_⟩,?_,?_,?_,?_,?_,?_,?_⟩
  · rcases hm.config with hc | hc
    · rw [hc]
      exact h.required.1
    · rw [hc]
      exact h.required.2
  · rw [hm.settings]
    exact h.required.2
  · intro hc
    rcases worker_step_command gw s world with hn | ⟨hsm,hvr⟩
    · rw [hn] at hc
      cases hc
    · rw [hvr]
      exact h.queued (hsm ▸ hc)
  · intro v hv
    rcases worker_step_pending gw s world hv with hp | ⟨hc,rfl⟩
    · exact h.underway v hp
    · exact h.queued hc
  · intro hv
    rcases hm.available with ha | hf
    · rw [ha] at hv ⊢
      exact h.offered hv
    · exact h.fetched _ hf hv
  · intro m hf hv
    obtain ⟨hw,he | ho⟩ := hm.fetched m hf
    · exact absurd he hv
    · exact fetched_platform gw (how hw) ho
  · intro m hc
    rcases hm.carried m hc with hc | ⟨hp,rfl⟩
    · exact h.carried m hc
    · exact h.offered (h.underway _ hp)
  · intro m archive hv
    rcases hm.verified m archive hv with hv | ⟨hc,hok⟩
    · exact h.verified m _ hv
    · have hs := verify_package_signed gw h.required.1 hok
      rwa [h.carried m hc] at hs
  · intro c hc
    rcases worker_step_calls gw s world with hsm | ⟨m,archive,hw,hcl⟩
    · exact h.called c (hsm ▸ hc)
    · rw [hcl,mem_append,mem_singleton] at hc
      rcases hc with hc | rfl
      · exact h.called c hc
      · exact h.verified m _ (by rw [hw]; rfl)

theorem accepted_version (h : installRefusal s ver = none) : ver ≠ [] := by
  rw [installRefusal] at h
  split_ifs at h with _ _ hno
  rw [not_or,not_not] at hno
  rw [← hno.2]
  exact hno.1

variable {e : Event}

theorem only_signed_step (h : OnlySigned gw s) (he : KeepsPlatform gw s e) :
    OnlySigned gw (step gw s e) := by
  cases e with
  | configure settings => exact { h with required := ⟨h.required.1,he⟩ }
  | status detected => exact { h with required := ⟨h.required.2,h.required.2⟩ }
  | checkNow detected =>
    rw [step,checkNow]
    split_ifs
    · have hch : Command.check ≠ .install := by decide
      exact { h with
        required := ⟨h.required.2,h.required.2⟩
        queued := fun hc => absurd hc hch }
    · exact { h with required := ⟨h.required.2,h.required.2⟩ }
  | install detected version =>
    rw [step,requestInstall]
    split
    next => exact { h with required := ⟨h.required.2,h.required.2⟩ }
    next hr =>
      exact { h with
        required := ⟨h.required.2,h.required.2⟩
        queued := fun _ => accepted_version _ hr }
  | dismiss version =>
    rw [step,dismiss]
    split_ifs
    · exact h
    · exact h
    · exact { h with }
  | worker world => exact only_signed_worker gw s h he

theorem only_signed_configured (layout : Layout) (h : cfg.requireSignature = true) : OnlySigned gw (configured cfg layout) where
  required := ⟨h,h⟩
  queued := nofun
  underway := nofun
  offered hne := absurd rfl hne
  fetched := nofun
  carried := nofun
  verified := nofun
  called := nofun

/-- In every run that keeps requiring signatures and whose manifests name this gateway's
platform or none, whatever reaches the installer was signed for its version, this platform
and its bytes. -/
theorem installs_only_signed (gateway : Gateway) (config : UpdateConfig) (layout : Layout)
    (es fs : List Event) (hconfig : config.requireSignature = true)
    (h : Meets (step gateway) (KeepsPlatform gateway) (configured config layout) (es++fs)) :
    ∀ c ∈ (run (step gateway) (configured config layout) es).calls,
      gateway.signing.signed (releaseMessage gateway c.version c.archive) :=
  (run_always _ _ _
    (only_signed_step _) _ es fs
    (only_signed_configured _ _ hconfig) h).called

def oneSigned (message : Text) : Signing where
  sha256Hex := id
  verify _ m _ := if m = message then .ok () else .error "signature does not match"
  signed m := m = message
  unforgeable := by
    intro _ m _ h
    by_cases hm : m = message
    · exact hm
    · rw [if_neg hm] at h
      cases h

def armGateway : Gateway :=
  { demoGateway "1.0.0" "1.1.0" with
    signing := oneSigned (buildSignedMessage "1.1.0" "linux-arm64" ['b']) }

theorem arm_keeps_platform (h : e ∈ checkAndInstall "1.1.0"++[]) :
    KeepsPlatform armGateway s e := by
  simp only [checkAndInstall,append_nil,mem_append,mem_cons,mem_replicate] at h
  rcases h with ⟨_,rfl⟩ | rfl | ⟨_,rfl⟩
  · rintro _ body fields en _ ⟨⟩ ⟨⟩
    exact .inl rfl
  · trivial
  · rintro _ body fields en _ ⟨⟩ ⟨⟩
    exact .inl rfl

theorem arm_release_signed :
    (run (step armGateway) (configured demoConfig demoLayout)
        (checkAndInstall "1.1.0".toList)).calls.map Call.version = ["1.1.0".toList] ∧
      ∀ c ∈ (run (step armGateway) (configured demoConfig demoLayout)
          (checkAndInstall "1.1.0".toList)).calls,
        armGateway.signing.signed (releaseMessage armGateway c.version c.archive) :=
  ⟨by decide,installs_only_signed _ _ _ _ [] rfl
    (meets_of_forall _ _ _ _ (fun e he s => arm_keeps_platform s he))⟩

/-- The same server, its manifest naming another platform, and a key that signed for that. -/
def foreignGateway : Gateway :=
  { demoGateway "1.0.0" "1.1.0" with
    codec := {
      parse := fun _ => .ok (.obj [("version",.str "1.1.0"),
        ("platform",.str "linux-x64"),
        ("url",.str "http://updates/pkg"),("sha256",.str ['b']),
        ("signature",.str ['s'])])
      readStream := fun _ => .error []
      dump := fun _ => [] }
    signing := oneSigned (buildSignedMessage "1.1.0" "linux-x64" ['b']) }

/-- A release signed for another platform only reaches the installer. -/
theorem foreign_release_called :
    (run (step foreignGateway) (configured demoConfig demoLayout)
        (checkAndInstall "1.1.0")).calls.map (fun c => (c.version,c.archive)) =
          [("1.1.0".toList,['b'])] ∧
      ¬foreignGateway.signing.signed (releaseMessage foreignGateway "1.1.0" ['b']) := by
  constructor
  · decide
  · change ¬releaseMessage foreignGateway "1.1.0" ['b'] = _
    decide

end EMaster.Updates
