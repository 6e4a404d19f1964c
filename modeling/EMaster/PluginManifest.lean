import EMaster.Json
import EMaster.FileOps

/-!
# Plugin manifests

A package is described by the file `manifest.json` in its directory. The checks
run in the order of the source and the first that fails names the error; the
manifest comes back as parsed. The interface version and the platform of the
gateway are parameters.
-/

set_option autoImplicit false

namespace EMaster.Plugins
open FileTree PathWalk FileOps

structure Host where
  apiVersion : ℕ
  platformTriple : Text
  codec : Json.Codec
  ecMessage : Bool → Text

def majorOf (packed : ℕ) : ℕ := packed/65536%65536

def minorOf (packed : ℕ) : ℕ := packed%65536

def versionCompatible (host plugin : ℕ) : Bool :=
  majorOf host = majorOf plugin && minorOf plugin ≤ minorOf host

def apiDigits (part : Text) : Bool := part ≠ [] && part.length ≤ 5 && part.all Char.isDigit

def parseApiVersion (text : Text) : Option ℕ :=
  match List.splitOn '.' text with
  | [major,minor] =>
    if apiDigits major && apiDigits minor then
      if Text.digitsValue major ≤ 65535 ∧ Text.digitsValue minor ≤ 65535 then
        some (Text.digitsValue major*65536+Text.digitsValue minor)
      else none
    else none
  | _ => none

def idChar (c : Char) : Bool := c.isLower || c.isDigit || c = '-' || c = '_'

/-- The loop of the identifier check: whether the previous character was a dot, whether
one was seen. -/
def idSegments (prevDot hasDot : Bool) : Text → Bool
  | [] => hasDot
  | c::rest =>
    if c = '.' then
      if prevDot then false else idSegments true true rest
    else if idChar c then idSegments false hasDot rest
    else false

def validId (id : Text) : Bool :=
  if id = [] ∨ 128 < id.length then false
  else if id.head? = some '.' ∨ id.getLast? = some '.' then false
  else idSegments true false id

def versionChar (c : Char) : Bool := c.isAlphanum || c = '.' || c = '-' || c = '+' || c = '_'

def plausibleVersion (v : Text) : Bool :=
  v ≠ [] && v.length ≤ 64 && v.all versionChar && v.any Char.isDigit

def permissionNames : List Text :=
  ["serial","network","filesystem","gpio","exec","lua","db"].map String.toList

def transportNames : List Text := ["serial","tcp","udp","can","spi","gpio","mock"].map String.toList

inductive ManifestError where
  | none
  | unreadable
  | malformedJson
  | missingField
  | badId
  | badVersion
  | badApiVersion
  | incompatibleApi
  | unsupportedPlatform
  | badExecution
  | unknownPermission
  | unknownTransport
  | entryMissing
  deriving DecidableEq

def manifestErrorName : ManifestError → String
  | .none => "NONE"
  | .unreadable => "UNREADABLE"
  | .malformedJson => "MALFORMED_JSON"
  | .missingField => "MISSING_FIELD"
  | .badId => "BAD_ID"
  | .badVersion => "BAD_VERSION"
  | .badApiVersion => "BAD_API_VERSION"
  | .incompatibleApi => "INCOMPATIBLE_API"
  | .unsupportedPlatform => "UNSUPPORTED_PLATFORM"
  | .badExecution => "BAD_EXECUTION"
  | .unknownPermission => "UNKNOWN_PERMISSION"
  | .unknownTransport => "UNKNOWN_TRANSPORT"
  | .entryMissing => "ENTRY_MISSING"

structure Manifest where
  id : Text := []
  name : Text := []
  version : Text := []
  apiVersion : Text := []
  description : Text := []
  author : Text := []
  entry : Text := []
  execution : Text := []
  platforms : List Text := []
  transports : List Text := []
  permissions : List Text := []
  directory : Text := []
  manifestPath : Text := []

structure ManifestResult where
  ok : Bool
  error : ManifestError
  message : Text
  manifest : Manifest

def fail (e : ManifestError) (message : Text) : ManifestResult := ⟨false,e,message,{}⟩

def reject (m : Manifest) (e : ManifestError) (message : Text) : ManifestResult :=
  ⟨false,e,message,m⟩

def quoted (text : Text) : Text := '"' :: text++['"']

def required (m : Manifest) : List (Text×Text) :=
  [("id",m.id),("name",m.name),("version",m.version),
    ("api_version",m.apiVersion),("entry",m.entry)]

def dotted (packed : ℕ) : Text := Text.ofNat (majorOf packed)++ '.' :: Text.ofNat (minorOf packed)

def incompatibleMessage (m : Manifest) (host plugin : ℕ) : Text :=
  "plugin "++quoted m.id++" needs Plugin API "++dotted plugin++
    ", this gateway provides "++dotted host++
    if majorOf plugin ≠ majorOf host then
      (" (major versions differ; the plugin must be rebuilt against this gateway's SDK)").toList
    else " (the gateway is older than the plugin; upgrade the gateway)"

def firstUnknown (known : List Text) (asked : List Text) : Option Text :=
  asked.find? (fun a => !known.contains a)

def checkNames (m : Manifest) : ManifestResult :=
  match firstUnknown permissionNames m.permissions with
  | some p => reject m .unknownPermission ("plugin "++quoted m.id++
      " declares the unknown permission "++quoted p++
      "; this gateway would not be able to enforce it")
  | none =>
    match firstUnknown transportNames m.transports with
    | some t => reject m .unknownTransport ("plugin "++quoted m.id++
        " asks for the unknown transport "++quoted t)
    | none => ⟨true,.none,[],m⟩

def checkExecution (m : Manifest) : ManifestResult :=
  if m.execution ≠ "in_process" ∧ m.execution ≠ "isolated" then
    reject m .badExecution ("execution must be \"in_process\" or \"isolated\", not "++
      quoted m.execution)
  else checkNames m

def withExecution (m : Manifest) : Manifest :=
  if m.execution = [] then { m with execution := "in_process" } else m

def checkPlatform (host : Host) (m : Manifest) : ManifestResult :=
  if m.platforms ≠ [] ∧ m.platforms.contains host.platformTriple = false then
    reject m .unsupportedPlatform ("plugin "++quoted m.id++" is built for ["++
      List.intercalate ", " m.platforms++"], this gateway is "++
      host.platformTriple)
  else checkExecution (withExecution m)

def checkApi (host : Host) (m : Manifest) : ManifestResult :=
  match parseApiVersion m.apiVersion with
  | none => reject m .badApiVersion
      ("api_version "++quoted m.apiVersion++" is not MAJOR.MINOR")
  | some plugin =>
    if versionCompatible host.apiVersion plugin then checkPlatform host m
    else reject m .incompatibleApi (incompatibleMessage m host.apiVersion plugin)

def validateManifest (host : Host) (m : Manifest) : ManifestResult :=
  match (required m).find? (fun r => r.2 = []) with
  | some r => reject m .missingField ("manifest is missing the required field "++quoted r.1)
  | none =>
    if validId m.id = false then
      reject m .badId ("plugin id "++quoted m.id++
        (" is not a valid reverse-DNS identifier (lowercase letters, "++
          "digits, dot, dash and underscore only, with at least one dot)").toList)
    else if plausibleVersion m.version = false then
      reject m .badVersion ("plugin version "++quoted m.version++ " is not a version")
    else checkApi host m

def locText (l : Loc) : Text := if l = [] then ['/'] else l.flatMap (fun n => '/' :: n)

def parseManifest (j : Json) (path directory : Text) : Manifest where
  id := j.textField "id"
  name := j.textField "name"
  version := j.textField "version"
  apiVersion := j.textField "api_version"
  description := j.textField "description"
  author := j.textField "author"
  entry := j.textField "entry"
  execution := j.textField "execution"
  platforms := j.stringArray "platforms"
  transports := j.stringArray "transports"
  permissions := j.stringArray "permissions"
  manifestPath := path
  directory := directory

/-- The containment test compares texts: the canonical entry has to be longer than the
canonical directory and start with it. -/
def escapes (directory entry : Loc) : Bool :=
  (locText entry).length ≤ (locText directory).length ||
    !(locText directory).isPrefixOf (locText entry)

def checkEntry (t : Tree) (directory : Loc) (checked : ManifestResult) : ManifestResult :=
  let m := checked.manifest
  let entry := FsPath.join ⟨directory,false⟩ m.entry
  if escapes directory entry.target then
    fail .entryMissing ("entry "++quoted m.entry++
      " escapes the plugin directory "++locText directory)
  else if entry.endsInName = false ∨ readFile t ⟨entry.target,false⟩ = none then
    fail .entryMissing ("plugin "++quoted m.id++" declares entry "++
      quoted m.entry++" but there is no such file in "++m.directory)
  else checked

def checkLoaded (t : Tree) (directory : Loc) (checked : ManifestResult) : ManifestResult :=
  if checked.ok then checkEntry t directory checked else checked

def loadManifest (host : Host) (t : Tree) (directory : Loc) : ManifestResult :=
  let path := locText (directory++["manifest.json".toList])
  match readFile t ⟨directory++["manifest.json".toList],false⟩ with
  | none => fail .unreadable ("no manifest at "++path)
  | some content =>
    if 256*1024 < content.length then
      fail .malformedJson ("manifest at "++path++" is implausibly large ("++
        Text.ofNat content.length++" bytes)")
    else
      match host.codec.readStream content with
      | .error what => fail .malformedJson
          ("manifest at "++path++" is not valid JSON: "++what)
      | .ok j =>
        if j.isObject then
          checkLoaded t directory (validateManifest host (parseManifest j path (locText directory)))
        else fail .malformedJson ("manifest at "++path++" is not a JSON object")

variable (host : Host) (m : Manifest)

theorem check_names_id : (checkNames m).manifest = m := by
  rw [checkNames]
  split
  · rfl
  · split <;> rfl

theorem check_execution_id : (checkExecution m).manifest = m := by
  rw [checkExecution]
  split_ifs
  · rfl
  · exact check_names_id m

theorem check_platform_id : (checkPlatform host m).manifest.id = m.id := by
  rw [checkPlatform]
  split_ifs
  · rfl
  · rw [check_execution_id,withExecution]
    split_ifs <;> rfl

theorem check_api_id : (checkApi host m).manifest.id = m.id := by
  rw [checkApi]
  split
  · rfl
  · split_ifs
    · exact check_platform_id host m
    · rfl

variable {host m}

theorem validate_manifest_id (h : (validateManifest host m).ok = true) :
    validId (validateManifest host m).manifest.id = true := by
  rw [validateManifest] at h ⊢
  split at h
  · cases h
  · split_ifs at h ⊢ with hid hv
    · cases h
    · cases h
    · rw [check_api_id]
      exact eq_true_of_ne_false hid

variable {t : Tree} {dir : Loc}

theorem check_loaded_ok {checked : ManifestResult} (h : (checkLoaded t dir checked).ok = true) :
    checkLoaded t dir checked = checked := by
  rw [checkLoaded] at h ⊢
  split_ifs at h ⊢
  · rw [checkEntry] at h ⊢
    split_ifs at h ⊢
    · cases h
    · cases h
    · rfl
  · rfl

theorem load_manifest_id (h : (loadManifest host t dir).ok = true) :
    validId (loadManifest host t dir).manifest.id = true := by
  rw [loadManifest] at h ⊢
  split at h
  · cases h
  · split_ifs at h ⊢ with hs
    · cases h
    · split at h
      · cases h
      · split_ifs at h ⊢ with ho
        · have heq := check_loaded_ok h
          rw [heq] at h ⊢
          exact validate_manifest_id h
        · cases h

theorem id_segments_chars (prevDot hasDot : Bool) (text : Text)
    (h : idSegments prevDot hasDot text = true) : ∀ c ∈ text, c = '.' ∨ idChar c = true := by
  induction text generalizing prevDot hasDot with
  | nil => exact nofun
  | cons a rest ih =>
    rw [idSegments] at h
    intro c hc
    split_ifs at h with hd hp hch
    · rcases List.mem_cons.mp hc with rfl | hc
      · exact .inl hd
      · exact ih true true h c hc
    · rcases List.mem_cons.mp hc with rfl | hc
      · exact .inr hch
      · exact ih false hasDot h c hc

variable {id : Text}

theorem valid_id_parts (h : validId id = true) :
    id ≠ [] ∧ id.head? ≠ some '.' ∧ ∀ c ∈ id, c = '.' ∨ idChar c = true := by
  rw [validId] at h
  split_ifs at h with hs hd
  exact ⟨fun he => hs (.inl he),fun he => hd (.inl he),id_segments_chars true false id h⟩

theorem valid_id_char {c : Char} (h : validId id = true) (hd : c ≠ '.') (hc : idChar c = false) : c ∉ id := by
  intro hm
  rcases (valid_id_parts h).2.2 c hm with he | ht
  · exact hd he
  · rw [hc] at ht
    cases ht

end EMaster.Plugins
