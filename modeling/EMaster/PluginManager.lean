import EMaster.PluginManifest
import EMaster.Confinement

/-!
# Installing, rolling back and removing plugins

Packages live in directories of one plugin root, the previous version of each below
`.rollback`. The root is a canonical location. The library handles of running
plugins, which never write files, are left out.
-/

set_option autoImplicit false

namespace EMaster.Plugins
open FileTree PathWalk FileOps Confinement

structure PluginRoot where
  loc : Loc
  named : Named loc

inductive Reply where
  | installed (id : Text)
  | done
  | refused (error : Text)
  | thrown

variable (root : PluginRoot)

def PluginRoot.path : FsPath := ⟨root.loc,false⟩

def PluginRoot.target (id : Text) : FsPath := root.path.join id

def PluginRoot.rollbackRoot : FsPath := root.path.join ".rollback"

def PluginRoot.rollback (id : Text) : FsPath := root.rollbackRoot.join id

def PluginRoot.installing (root : PluginRoot) (id : Text) : FsPath :=
  root.path.join ('.' :: id++".installing")

def PluginRoot.uploading (root : PluginRoot) (id : Text) : FsPath :=
  root.path.join ('.' :: id++".uploading")

def PluginRoot.temporary (id : Text) : FsPath := root.path.join ('.' :: id++".rollback")

def renameOrKeep (t : Tree) (source dest : FsPath) : Tree := (rename t source dest).getD t

def moveAside (t : Tree) (source dest : FsPath) : Option Tree :=
  if fileExists t source then rename t source dest else some t

def dropExisting (t : Tree) (p : FsPath) : Tree := if fileExists t p then removeAll t p else t

/-- The new package is copied next to the installed one and renamed into its place. -/
def activate (host : Host) (root : PluginRoot) (t : Tree) (source : Loc) (id : Text) : Tree×Reply :=
  match copyTree t source (root.installing id) with
  | none =>
    (renameOrKeep t (root.rollback id) (root.target id),
      .refused ("cannot copy plugin package: "++
        host.ecMessage (rename t (root.rollback id) (root.target id)).isNone))
  | some copied =>
    match rename copied (root.installing id) (root.target id) with
    | none =>
      let cleaned := removeAll copied (root.installing id)
      (renameOrKeep cleaned (root.rollback id) (root.target id),
        .refused ("cannot activate plugin package: "++
          host.ecMessage (rename cleaned (root.rollback id) (root.target id)).isNone))
    | some active => (active,.installed id)

def replacePackage (host : Host) (root : PluginRoot) (t : Tree) (source : Loc) (id : Text) :
    Tree×Reply :=
  let made := createDirectories (removeAll t (root.installing id)) root.rollbackRoot
  if made.2 then
    let dropped := dropExisting made.1 (root.rollback id)
    match moveAside dropped (root.target id) (root.rollback id) with
    | none => (dropped,.refused "cannot save the current plugin for rollback")
    | some saved => activate host root saved source id
  else (made.1,.refused "cannot create plugin rollback directory")

def install (host : Host) (root : PluginRoot) (t : Tree) (source : Loc) : Tree×Reply :=
  if t.node source ≠ some .dir then
    (t,.refused "plugin package directory does not exist")
  else
    let checked := loadManifest host t source
    if checked.ok then
      if source = (root.target checked.manifest.id).target then
        (t,.refused "source directory is already the installed plugin")
      else replacePackage host root t source checked.manifest.id
    else
      (t,.refused ((manifestErrorName checked.error).toList++": "++checked.message))

def stageUpload (t : Tree) (id entry manifest binary : Text) : Tree×Bool :=
  let staging := root.uploading id
  let made := createDirectories (removeAll t staging) staging
  if made.2 then
    let described := writeFile made.1 (staging.join "manifest.json") manifest
    (writeFile described (staging.join entry) binary,true)
  else (made.1,false)

def importStaged (host : Host) (root : PluginRoot) (t : Tree) (id entry manifest binary : Text) :
    Tree×Reply :=
  let staged := stageUpload root t id entry manifest binary
  if staged.2 then
    let result := install host root staged.1 (root.uploading id).target
    (removeAll result.1 (root.uploading id),result.2)
  else (staged.1,.refused "cannot create plugin upload staging directory")

def importUploaded (host : Host) (root : PluginRoot) (t : Tree) (text binary : Text) : Tree×Reply :=
  match host.codec.parse text with
  | .error what => (t,.refused ("invalid manifest: "++what))
  | .ok manifest =>
    match manifest.valueText "id" [], manifest.valueText "entry" [] with
    | some id, some entry =>
      if id = [] ∨ entry = [] ∨ binary = [] then
        (t,.refused "manifest id, entry and plugin binary are required")
      else importStaged host root t id entry (host.codec.dump manifest) binary
    | _, _ => (t,.thrown)

def rollback (root : PluginRoot) (t : Tree) (id : Text) : Tree×Reply :=
  let current := root.target id
  let previous := root.rollback id
  let temporary := root.temporary id
  if isDirectory t previous then
    let cleared := removeAll t temporary
    match moveAside cleared current temporary with
    | none => (cleared,.refused "cannot prepare plugin rollback")
    | some aside =>
      match rename aside previous current with
      | none => (renameOrKeep aside temporary current,.refused "cannot activate rollback")
      | some active => (removeAll active temporary,.done)
  else (t,.refused "no rollback package is available")

def remove (host : Host) (root : PluginRoot) (t : Tree) (id : Text) : Tree×Reply :=
  let target := root.target id
  if isDirectory t target then
    (removeAll t target,
      if removeAllFails t target then
        .refused ("cannot delete plugin: "++host.ecMessage true)
      else .done)
  else (t,.refused "plugin is not installed")

end EMaster.Plugins
