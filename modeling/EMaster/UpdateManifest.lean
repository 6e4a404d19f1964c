import EMaster.Json
import EMaster.Version

/-!
# Update manifests

What the gateway makes of the answer of the update server: one release, or a map of
releases by platform whose missing fields are inherited from the top level. Where the
JSON library would throw, nothing is returned. The size of the package, which only
feeds the progress display, is left out.
-/

set_option autoImplicit false

namespace EMaster.Updates

structure UpdateConfig where
  enabled : Bool
  url : Text
  requireSignature : Bool
  (publicKeyPath installRoot : Text)

structure Manifest where
  version : Text := []
  platform : Text := []
  downloadUrl : Text := []
  sha256 : Text := []
  signature : Text := []
  releaseDate : Text := []
  minVersion : Text := []
  mandatory : Bool := false
  releaseNotes : List Text := []

def schemeEnd (base : Text) : Option ℕ :=
  (List.range base.length).find? (fun i => "://".toList.isPrefixOf (base.drop i))

def isHttp (reference : Text) : Bool :=
  "http://".toList.isPrefixOf reference || "https://".toList.isPrefixOf reference

def directoryOf (base : Text) : Text := (base.reverse.dropWhile (· ≠ '/')).reverse

def resolveUrl (base reference : Text) : Text :=
  if reference = [] ∨ isHttp reference then reference
  else
    match schemeEnd base with
    | none => reference
    | some scheme =>
      if reference.head? = some '/' then
        base.take (scheme+3)++(base.drop (scheme+3)).takeWhile (· ≠ '/')++reference
      else if (directoryOf base).length ≤ scheme+3 then base++ '/' :: reference
      else (directoryOf base).takeWhile (· ≠ '?')++reference

def readNotes : Json → List Text
  | .arr items => items.filterMap Json.asText
  | .str text => [text]
  | _ => []

def valueBool (j : Json) (key : Text) (fallback : Bool) : Option Bool :=
  match j.field key with
  | none => some fallback
  | some (.bool b) => some b
  | some _ => none

/-- The outcome of a check; the library throwing is the end of the process. -/
inductive Fetched where
  | failed (error : Text)
  | nothing
  | offered (manifest : Manifest)
  | thrown

def inherit (fields : List (Text×Json)) (entry : List (Text×Json)) : List (Text×Json) :=
  entry++fields.filter (fun f => f.1 ≠ "platforms".toList && !entry.any (fun e => e.1 = f.1))

/-- The fields that describe the release for this platform. An entry that is no object
cannot be read; the library turns an empty entry into an object when a field is added. -/
def releaseEntry (fields : List (Text×Json)) (platform : Text) : Except Fetched Json :=
  match (Json.obj fields).field "platforms".toList with
  | some (.obj builds) =>
    match (Json.obj builds).field platform with
    | none => .error (.failed ("the manifest lists no build for ".toList++platform))
    | some (.obj entry) => .ok (.obj (inherit fields entry))
    | some .null =>
      if inherit fields [] = [] then .error .thrown else .ok (.obj (inherit fields []))
    | some _ => .error .thrown
  | _ => .ok (.obj fields)

variable (entry : Json)

def urlKey : Text :=
  if (entry.field "download_url").isSome then "download_url" else "url"

def readManifest (url platform : Text) : Option Manifest := do
  let version ← entry.valueText "version" []
  let named ← entry.valueText "platform" platform
  let download ← entry.valueText (urlKey entry) []
  let sha256 ← entry.valueText "sha256" []
  let signature ← entry.valueText "signature" []
  let releaseDate ← entry.valueText "release_date" []
  let minVersion ← entry.valueText "min_version" []
  let mandatory ← valueBool entry "mandatory" false
  some {
    version := version
    platform := named
    downloadUrl := resolveUrl url download
    sha256 := sha256
    signature := signature
    releaseDate := releaseDate
    minVersion := minVersion
    mandatory := mandatory
    releaseNotes := ((entry.field "release_notes").map readNotes).getD [] }

def escalate (m : Manifest) (current : Text) : Manifest :=
  if m.minVersion ≠ [] ∧ isNewer m.minVersion current = true then { m with mandatory := true }
  else m

def serverDeclines : Bool :=
  match entry.field "available" with
  | some (.bool b) => !b
  | _ => false

def acceptEntry (url platform current : Text) : Fetched :=
  if serverDeclines entry then .nothing
  else
    match readManifest entry url platform with
    | none => .thrown
    | some m =>
      if m.version = [] then .failed "the manifest has no version field"
      else .offered (escalate m current)

def fetchManifest (codec : Json.Codec) (config : UpdateConfig) (platform current : Text)
    (response : Except Text Text) : Fetched :=
  if config.url = [] then .failed "no update server configured (update.url)".toList
  else
    match response with
    | .error e => .failed e
    | .ok body =>
      match codec.parse body with
      | .error what => .failed ("update server did not return JSON: ".toList++what)
      | .ok (.obj fields) =>
        match releaseEntry fields platform with
        | .error outcome => outcome
        | .ok entry => acceptEntry entry config.url platform current
      | .ok _ => .failed "update manifest is not a JSON object".toList

end EMaster.Updates
