import EMaster.LuaBundle
import EMaster.LuaPackage
import EMaster.Version

/-!
# The store of packages

A directory of package files and a small file that names the active package, the one before
it and those that run. Opening a package is `LuaPackage` and then `LuaBundle`, under the keys of
the installation.
-/

set_option autoImplicit false

namespace EMaster
namespace Packages
open LuaPackage (Metadata)

/-- Why a call did nothing: it returns false with a text, or an exception leaves it. -/
inductive Refusal where
  | error (text : Text)
  | thrown
  deriving DecidableEq, Repr

/-- What an installation opens packages with; a key file may be unreadable. -/
structure Opener where
  sodium : LuaPackage.Sodium
  codec : LuaPackage.HeaderCodec
  runtimeTag : Text
  (encryptionKey publicKey : Except Text Bytes)

namespace Opener
variable (opener : Opener) (bytes : Bytes)

def opened : Except Refusal LuaPackage.OpenResult := do
  let encryptionKey ← opener.encryptionKey.mapError Refusal.error
  let publicKey ← opener.publicKey.mapError Refusal.error
  match LuaPackage.openPackage opener.sodium opener.codec opener.runtimeTag bytes encryptionKey
      publicKey with
  | .error _ => .error .thrown
  | .ok result => if result.ok then .ok result else .error (.error result.error)

def openPackage : Except Refusal Metadata := (opener.opened bytes).map LuaPackage.OpenResult.metadata

def openBundle : Except Refusal Metadata := do
  let result ← opener.opened bytes
  match Lua.LuaBundle.parse result.bytecode with
  | .error .outside => .error .thrown
  | .error (.refused error) => .error (.error (error.map fun b => Char.ofNat b.toNat))
  | .ok _ => .ok result.metadata

def peekMetadata : Except Refusal Metadata :=
  match LuaPackage.peekMetadata opener.codec bytes with
  | .error _ => .error .thrown
  | .ok (.error error) => .error (.error error)
  | .ok (.ok metadata) => .ok metadata

variable {opener bytes} {metadata : Metadata}

theorem bundled (h : opener.openBundle bytes = .ok metadata) :
    opener.openPackage bytes = .ok metadata := by
  obtain ⟨result,ho,h⟩ := Wire.bind_ok.mp h
  split at h <;> cases h
  rw [openPackage,ho]
  rfl

theorem peeked (h : opener.openPackage bytes = .ok metadata) :
    opener.peekMetadata bytes = .ok metadata := by
  cases ho : opener.opened bytes with
  | error refusal =>
    rw [openPackage,ho] at h
    cases h
  | ok result =>
    rw [openPackage,ho] at h
    obtain rfl := Except.ok.inj h
    obtain ⟨encryptionKey,_,ho⟩ := Wire.bind_ok.mp ho
    obtain ⟨publicKey,_,ho⟩ := Wire.bind_ok.mp ho
    split at ho
    · cases ho
    next opened hp =>
      split_ifs at ho with hok
      cases ho
      rw [peekMetadata,LuaPackage.open_peeked _ _ _ hp hok]

end Opener

/-- Where a path from the package directory on leads, named from that directory. -/
structure Directory where
  packageDir : Text
  locate : Text → Text
  plain : ∀ file, '/' ∉ file → locate file = file

def Directory.packagePath (directory : Directory) (file : Text) : Text :=
  directory.packageDir++ '/'::file

structure Site where
  opener : Opener
  directory : Directory
  sanitiseForLog : Text → Text

structure HistoryItem where
  (time action package byUser : Text)
  deriving DecidableEq, Repr

structure State where
  (active previous : Text)
  running : List Text
  history : List HistoryItem
  deriving DecidableEq, Repr

def State.empty : State := ⟨[],[],[],[]⟩

abbrev Disk := AList (fun _ : Text => Bytes)

structure World where
  disk : Disk
  state : State

variable (site : Site)

def World.read (w : World) (file : Text) : Option Bytes :=
  w.disk.lookup (site.directory.locate file)

/-- A file is written beside its place and moved there. What a failed write leaves beside it, a file
whose name ends in `.tmp`, is left out. -/
def World.write (w : World) (file : Text) (bytes : Bytes) : World :=
  { w with disk := w.disk.insert (site.directory.locate file) bytes }

def World.erase (site : Site) (w : World) (file : Text) : World :=
  { w with disk := w.disk.erase (site.directory.locate file) }

def safeCharacter (c : Char) : Bool := c.isAlphanum || c = '.' || c = '-' || c = '_'

def safeComponent (text : Text) : Bool :=
  text ≠ [] && text.length ≤ 64 && text.all safeCharacter && text ≠ ['.'] && text ≠ ['.','.'] &&
    text.head? ≠ some '-' && text.head? ≠ some '.'

def kExtension : Text := ".pkg"

def filename (file : Text) : Text := (file.splitOn '/').getLastD []

/-- The name of a file with the extension, which is not an extension only. -/
def hasExtension (name : Text) : Bool := kExtension.isSuffixOf name && name ≠ kExtension

def isPackageName (file : Text) : Bool :=
  hasExtension (filename file) &&
    safeComponent ((filename file).take ((filename file).length-kExtension.length))

def openBundle (site : Site) (w : World) (file : Text) : Except Refusal Metadata :=
  if file = [] then .error (.error "no package specified")
  else if '/' ∈ file then .error (.error "not a package filename")
  else
    match w.read site file with
    | none => .error (.error ("cannot read "++file))
    | some bytes => site.opener.openBundle bytes

def recordHistory (state : State) (time action file byUser : Text) : State :=
  let history := state.history++[⟨time,action,file,site.sanitiseForLog byUser⟩]
  { state with history := history.drop (history.length-100) }

/-- The rest of a call: the new state is written, or the call reports that it was not. -/
def writeState (w : World) (state : State) (saved : Bool) (error : Text) : Except Refusal World :=
  if saved then .ok { w with state := state } else .error (.error error)

def pushMissing (running : List Text) (file : Text) : List Text :=
  if file ∈ running then running else running++[file]

/-- The application id of the package that a deployment replaces, empty if it is the same file
or cannot be opened. -/
def outgoingAppId (w : World) (currentActive file : Text) : Except Refusal Text :=
  if currentActive ≠ [] ∧ currentActive ≠ file then
    match openBundle site w currentActive with
    | .ok metadata => .ok metadata.appId
    | .error .thrown => .error .thrown
    | .error (.error _) => .ok []
  else .ok []

variable (state : State)

def sameApplication (appId outgoingAppId : Text) : Prop := state.active ≠ [] ∧ outgoingAppId = appId

instance (state : State) (appId outgoingAppId : Text) :
    Decidable (sameApplication state appId outgoingAppId) :=
  inferInstanceAs (Decidable (_ ∧ _))

def publishDeploy (file appId outgoingAppId : Text) : State :=
  let outgoing := state.active
  let same := sameApplication state appId outgoingAppId
  { state with
    previous := if outgoing ≠ file then if same then outgoing else [] else state.previous
    active := file
    running :=
      if outgoing = [] ∨ ¬same ∨ outgoing ∈ state.running then
        pushMissing (if same then state.running.filter (· ≠ outgoing) else state.running) file
      else state.running }

def deploy (site : Site) (w : World) (file byUser time : Text) (saved : Bool) :
    Except Refusal World := do
  let metadata ← openBundle site w file
  let outgoing ← outgoingAppId site w w.state.active file
  writeState w (recordHistory site (publishDeploy w.state file metadata.appId outgoing) time
    "deploy" file byUser) saved "could not record the deployment"

def publishRollback : State :=
  let outgoing := state.active
  { state with
    active := state.previous
    previous := outgoing
    running :=
      if outgoing ∈ state.running then
        pushMissing (state.running.filter (· ≠ outgoing)) state.previous
      else state.running }

/-- A refusal to open the rollback target says so. -/
def previousRefusal : Refusal → Refusal
  | .error text => .error ("the previous package cannot be opened: "++text)
  | .thrown => .thrown

def rollback (site : Site) (w : World) (byUser time : Text) (saved : Bool) : Except Refusal World :=
  if w.state.previous = [] then
    .error (.error "there is no previous package to roll back to")
  else do
    let _ ← (openBundle site w w.state.previous).mapError previousRefusal
    writeState w (recordHistory site (publishRollback w.state) time "rollback"
      w.state.previous byUser) saved "could not record the rollback"

structure Listed where
  (file appId : Text)
  deriving DecidableEq, Repr

/-- What the list of packages says of one file; a header that cannot be read leaves the
application id empty, one of wrong types throws. -/
def listEntry (file : Text) (bytes : Bytes) : Except Refusal Listed :=
  match site.opener.peekMetadata bytes with
  | .ok metadata => .ok ⟨file,metadata.appId⟩
  | .error .thrown => .error .thrown
  | .error (.error _) => .ok ⟨file,[]⟩

variable (w : World)

def list : Except Refusal (List Listed) :=
  (w.disk.entries.filter (fun e => '/' ∉ e.1 ∧ hasExtension e.1)).mapM
    (fun e => listEntry site e.1 e.2)

def publishStartup (file : Text) (enabled : Bool) (appId : Text) (known : List Listed) : State :=
  { state with
    running :=
      if enabled then
        pushMissing (state.running.filter (fun running =>
          ¬∃ entry ∈ known, entry.file = running ∧ entry.file ≠ file ∧ entry.appId = appId)) file
      else state.running.erase file }

def startupAction (enabled : Bool) : Text := if enabled then "run" else "stop"

def startupSaved (file : Text) (enabled : Bool) (appId : Text)
    (known : List Listed) (byUser time : Text) (saved : Bool) : Except Refusal World :=
  writeState w (recordHistory site (publishStartup w.state file enabled appId known) time
    (startupAction enabled) file byUser) saved "could not save package startup state"

def setRunOnStartup (file : Text) (enabled : Bool) (byUser time : Text)
    (saved : Bool) : Except Refusal World :=
  if enabled then do
    let metadata ← openBundle site w file
    let known ← list site w
    startupSaved site w file true metadata.appId known byUser time saved
  else startupSaved site w file false [] [] byUser time saved

def clearActive (byUser time : Text) (saved : Bool) : Except Refusal World :=
  if w.state.active = [] then .error (.error "nothing is deployed")
  else
    writeState w (recordHistory site { w.state with previous := w.state.active, active := [] } time
      "undeploy" w.state.active byUser) saved "could not record the change"

def remove (file : Text) (deleted : Bool) : Except Refusal World :=
  if isPackageName file = false then .error (.error "not a package filename")
  else if file = w.state.active then .error (.error "that package is currently deployed")
  else if file = w.state.previous then
    .error (.error "that package is the rollback target")
  else if file ∈ w.state.running then
    .error (.error "that package is configured to run on startup; stop it first")
  else if deleted = false ∨ w.read site file = none then
    .error (.error "could not delete the package")
  else .ok (w.erase site file)

def importPackage (file : Text) (bytes : Bytes) (written : Bool) :
    Except Refusal World :=
  if isPackageName file = false then .error (.error "not a package filename")
  else do
    let _ ← site.opener.openPackage bytes
    if written then .ok (w.write site file bytes)
    else .error (.error "could not save imported package")

def componentError (what : Text) : Text :=
  what++" may contain only letters, digits, dot, dash and underscore"

def artifactName (appId version : Text) : Text := appId++"-"++version++kExtension

/-- A build up to its written artifact, for the bytes that were packed and signed. -/
def buildFromDirectory (appId version : Text) (package : Bytes)
    (written : Bool) : Except Refusal World :=
  if safeComponent appId = false then .error (.error (componentError "application id"))
  else if safeComponent version = false then .error (.error (componentError "version"))
  else if Version.parse version = none then
    .error (.error "version must be a semantic version like 1.4.0")
  else do
    let _ ← site.opener.openBundle package
    if written then .ok (w.write site (artifactName appId version) package)
    else .error (.error ("could not write "++
      site.directory.packagePath (artifactName appId version)))

end Packages
end EMaster
