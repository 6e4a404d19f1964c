import EMaster.UpdateManifest

/-!
# The update manager

The shared state and the worker thread as one machine. Requests are critical sections
of their own; the worker advances from one critical section or outside call to the
next, so that requests and configuration changes fall between any two of them. What
the server, the download and the installer answer comes with the worker's event. The
digest and the signature check are parameters; a signature that verifies was made by
the trusted key.
-/

set_option autoImplicit false

namespace EMaster.Updates

structure Signing where
  sha256Hex : Text → Text
  verify : Text → Text → Text → Except Text Unit
  signed : Text → Prop
  unforgeable : ∀ key message signature, verify key message signature = .ok () → signed message

structure Gateway where
  codec : Json.Codec
  signing : Signing
  (platform currentVersion dataDir : Text)

/-- The managed installation: whether it is one, why not, and the name of the release
directory the gateway runs from. -/
structure Layout where
  managed : Bool
  (reason activeRelease : Text)

inductive ManagerState where
  | disabled
  | idle
  | checking
  | available
  | downloading
  | verifying
  | installing
  | ready
  | error
  deriving DecidableEq

inductive Command where
  | none
  | check
  | install
  deriving DecidableEq

structure Call where
  (version archive : Text)

inductive Worker where
  | loop
  | announceCheck
  | fetch
  | checkFailed (error : Text)
  | store (manifest : Manifest)
  | announce (manifest : Manifest)
  | select (version : Text)
  | mismatch
  | snapshot (manifest : Manifest)
  | startDownload (manifest : Manifest)
  | download (manifest : Manifest)
  | startVerify (manifest : Manifest) (archive : Text)
  | verify (manifest : Manifest) (archive : Text)
  | startInstall (manifest : Manifest) (archive : Text)
  | install (manifest : Manifest) (archive : Text)
  | failed (error : Text)
  | ready
  | stopped

structure Sys where
  (settings config : UpdateConfig)
  layout : Layout
  state : ManagerState
  error : Text
  available : Manifest
  dismissed : Text
  command : Command
  commandVersion : Text
  worker : Worker
  calls : List Call

structure World where
  detected : Layout
  due : Bool
  (response download : Except Text Text)
  readable : Bool
  installed : Except Text Unit

def configured (config : UpdateConfig) (layout : Layout) : Sys where
  settings := config
  config := config
  layout := layout
  state := if config.enabled then .idle else .disabled
  error := []
  available := {}
  dismissed := []
  command := .none
  commandVersion := []
  worker := .loop
  calls := []

def refreshedState (enabled : Bool) (state : ManagerState) : ManagerState :=
  if enabled = true ∧ state = .disabled then .idle
  else if enabled = false ∧ state ≠ .disabled then .disabled
  else state

variable (s : Sys) (detected : Layout)

def refreshConfig : Sys :=
  { s with
    config := s.settings
    layout := if s.settings.installRoot ≠ s.config.installRoot then detected else s.layout
    state := refreshedState s.settings.enabled s.state }

def checkNow : Sys :=
  let fresh := refreshConfig s detected
  if fresh.config.enabled then { fresh with command := .check } else fresh

def busy (state : ManagerState) : Bool :=
  state = .downloading || state = .verifying || state = .installing || state = .ready

def installRefusal (version : Text) : Option Text :=
  if s.config.enabled = false then
    some "over-the-air updates are switched off (update.enabled)"
  else if s.layout.managed = false then some s.layout.reason
  else if s.available.version = [] ∨ s.available.version ≠ version then
    some ("no manifest for version "++version++"; run a check first")
  else if busy s.state then some "an update is already in progress"
  else none

def requestInstall (version : Text) : Sys :=
  let fresh := refreshConfig s detected
  match installRefusal fresh version with
  | some _ => fresh
  | none => { fresh with command := .install, commandVersion := version }

def dismiss (version : Text) : Sys :=
  if s.available.version ≠ version then s
  else if s.available.mandatory then s
  else { s with dismissed := version }

def buildSignedMessage (version platform sha256Hex : Text) : Text :=
  version++ '\n' :: platform++ '\n' :: sha256Hex++['\n']

def hexEquals (a b : Text) : Bool := Text.lower a = Text.lower b

variable (gateway : Gateway)

def keyPath (config : UpdateConfig) : Text :=
  if config.publicKeyPath.head? = some '/' then config.publicKeyPath
  else gateway.dataDir++ '/' :: config.publicKeyPath

def verifyPackage (config : UpdateConfig) (m : Manifest) (archive : Text)
    (readable : Bool) : Except Text Unit :=
  let actual := gateway.signing.sha256Hex archive
  if m.sha256 = [] then
    .error "the manifest carries no sha256, so the download cannot be checked"
  else if readable = false then .error "could not hash the downloaded package"
  else if hexEquals actual m.sha256 = false then
    .error (("checksum mismatch: the package is not the one the manifest describes (expected "
      ).toList++m.sha256++", got "++actual++")")
  else if config.requireSignature = false then .ok ()
  else if m.signature = [] then
    .error "the manifest carries no signature and update.require_signature is on"
  else
    match gateway.signing.verify (keyPath gateway config)
      (buildSignedMessage m.version m.platform actual) m.signature with
    | .ok _ => .ok ()
    | .error e => .error ("signature check failed: "++e)

def setState (state : ManagerState) (error : Text) (next : Worker) : Sys :=
  { s with state := state, error := error, worker := next }

def takeCommand (world : World) : Sys :=
  let fresh := refreshConfig s world.detected
  let taken := { fresh with command := .none, commandVersion := [] }
  match fresh.command with
  | .none =>
    if fresh.config.enabled && world.due then { taken with worker := .announceCheck } else taken
  | .check => { taken with worker := .announceCheck }
  | .install => { taken with worker := .select fresh.commandVersion }

def afterFetch : Fetched → Worker
  | .failed e => .checkFailed e
  | .nothing => .store {}
  | .offered m => .store m
  | .thrown => .stopped

def storeManifest (m : Manifest) : Sys :=
  { s with
    dismissed := if m.version ≠ [] ∧ m.version ≠ s.available.version then [] else s.dismissed
    available := m
    worker := .announce m }

def workerStep (s : Sys) (world : World) : Sys :=
  match s.worker with
  | .loop => takeCommand s world
  | .announceCheck => setState s .checking [] .fetch
  | .fetch =>
    { s with worker := afterFetch (fetchManifest gateway.codec s.config gateway.platform
        gateway.currentVersion world.response) }
  | .checkFailed e => setState s .error e .loop
  | .store m => storeManifest s m
  | .announce m =>
    if m.version ≠ [] ∧ isNewer m.version gateway.currentVersion = true then
      setState s .available [] .loop
    else setState s .idle [] .loop
  | .select version =>
    { s with worker := if s.available.version ≠ version then .mismatch else .snapshot s.available }
  | .mismatch =>
    setState s .error "the offered version changed while the request was queued" .loop
  | .snapshot m =>
    { s with worker :=
        if m.downloadUrl = [] then .failed "the manifest has no download url"
        else .startDownload m }
  | .startDownload m => setState s .downloading [] (.download m)
  | .download m =>
    match world.download with
    | .error e => { s with worker := .failed ("download failed: "++e) }
    | .ok archive => { s with worker := .startVerify m archive }
  | .startVerify m archive => setState s .verifying [] (.verify m archive)
  | .verify m archive =>
    match verifyPackage gateway s.config m archive world.readable with
    | .error e => { s with worker := .failed e }
    | .ok _ => { s with worker := .startInstall m archive }
  | .startInstall m archive => setState s .installing [] (.install m archive)
  | .install m archive =>
    { s with
      calls := s.calls++[⟨m.version,archive⟩]
      worker := match world.installed with
        | .error e => .failed e
        | .ok _ => .ready }
  | .failed e => setState s .error e .loop
  | .ready => setState s .ready [] .stopped
  | .stopped => s

inductive Event where
  | configure (settings : UpdateConfig)
  | status (detected : Layout)
  | checkNow (detected : Layout)
  | install (detected : Layout) (version : Text)
  | dismiss (version : Text)
  | worker (world : World)

def step (s : Sys) : Event → Sys
  | .configure settings => { s with settings := settings }
  | .status detected => refreshConfig s detected
  | .checkNow detected => checkNow s detected
  | .install detected version => requestInstall s detected version
  | .dismiss version => dismiss s version
  | .worker world => workerStep gateway s world

end EMaster.Updates
