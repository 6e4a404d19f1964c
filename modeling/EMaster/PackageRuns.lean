import EMaster.PackageManager
import EMaster.Runs

/-!
# Calls on the package store, one at a time

Runs of the store from an empty state file over any files. What is kept of the list of
running packages, and of the bytes of the packages that the state names.
-/

set_option autoImplicit false

namespace EMaster
namespace Packages
open Runs List Except
open LuaPackage (Metadata)
open Wire (bind_ok)

inductive Call where
  | deploy (file byUser time : Text) (saved : Bool)
  | rollback (byUser time : Text) (saved : Bool)
  | setRunOnStartup (file : Text) (enabled : Bool) (byUser time : Text) (saved : Bool)
  | clearActive (byUser time : Text) (saved : Bool)
  | remove (file : Text) (deleted : Bool)
  | importPackage (file : Text) (bytes : Bytes) (written : Bool)
  | build (appId version : Text) (package : Bytes) (written : Bool)
  deriving DecidableEq, Repr

def perform (site : Site) (w : World) : Call → Except Refusal World
  | .deploy file byUser time saved => deploy site w file byUser time saved
  | .rollback byUser time saved => rollback site w byUser time saved
  | .setRunOnStartup file enabled byUser time saved =>
    setRunOnStartup site w file enabled byUser time saved
  | .clearActive byUser time saved => clearActive site w byUser time saved
  | .remove file deleted => remove site w file deleted
  | .importPackage file bytes written => importPackage site w file bytes written
  | .build appId version package written =>
    buildFromDirectory site w appId version package written

/-- A call that fails leaves everything as it was. -/
def after (site : Site) (w : World) (call : Call) : World :=
  match perform site w call with
  | .ok next => next
  | .error _ => w

def start (disk : Disk) : World := ⟨disk,State.empty⟩

section

variable (site : Site) (w next : World) (file byUser time : Text) (saved : Bool)

theorem write_state_ok (state : State) (saved : Bool) (error : Text) :
    writeState w state saved error = .ok next ↔
      saved = true ∧ next = { w with state := state } := by
  cases saved <;> simp [writeState,eq_comm]

variable {byUser saved time}

theorem deploy_ok (h : deploy site w file byUser time saved = .ok next) :
    ∃ metadata outgoing, openBundle site w file = .ok metadata ∧
      outgoingAppId site w w.state.active file = .ok outgoing ∧ saved = true ∧
      next.disk = w.disk ∧
      next.state = recordHistory site (publishDeploy w.state file metadata.appId outgoing) time
        "deploy" file byUser := by
  obtain ⟨metadata,ho,h⟩ := bind_ok.mp h
  obtain ⟨outgoing,hot,h⟩ := bind_ok.mp h
  obtain ⟨hs,rfl⟩ := (write_state_ok _ _ _ _ _).mp h
  exact ⟨metadata,outgoing,ho,hot,hs,rfl,rfl⟩

theorem rollback_ok (h : rollback site w byUser time saved = .ok next) :
    w.state.previous ≠ [] ∧ (∃ metadata, openBundle site w w.state.previous = .ok metadata) ∧
      saved = true ∧ next.disk = w.disk ∧
      next.state = recordHistory site (publishRollback w.state) time "rollback"
        w.state.previous byUser := by
  rw [rollback] at h
  split_ifs at h with hp
  obtain ⟨metadata,ho,h⟩ := bind_ok.mp h
  obtain ⟨hs,rfl⟩ := (write_state_ok _ _ _ _ _).mp h
  refine ⟨hp,?_,hs,rfl,rfl⟩
  cases ht : openBundle site w w.state.previous with
  | error ref =>
    rw [ht] at ho
    cases ho
  | ok metadata => exact ⟨metadata,rfl⟩

theorem remove_ok {deleted : Bool} (h : remove site w file deleted = .ok next) :
    file ≠ w.state.active ∧ file ≠ w.state.previous ∧ file ∉ w.state.running ∧
      next = w.erase site file := by
  rw [remove] at h
  split_ifs at h with _ ha hp hr
  exact ⟨ha,hp,hr,(ok.inj h).symm⟩

variable {written : Bool}

theorem import_ok {bytes : Bytes} (h : importPackage site w file bytes written = .ok next) : next = w.write site file bytes := by
  rw [importPackage] at h
  split_ifs at h with hn hw
  · obtain ⟨_,_,h⟩ := bind_ok.mp h
    exact (ok.inj h).symm
  · obtain ⟨_,_,h⟩ := bind_ok.mp h
    cases h

theorem build_ok {appId ver : Text} {package : Bytes}
    (h : buildFromDirectory site w appId ver package written = .ok next) :
    next = w.write site (artifactName appId ver) package := by
  rw [buildFromDirectory] at h
  split_ifs at h with ha hv hp hw
  · obtain ⟨_,_,h⟩ := bind_ok.mp h
    exact (ok.inj h).symm
  · obtain ⟨_,_,h⟩ := bind_ok.mp h
    cases h

theorem read_write (other : Text) (bytes : Bytes) :
    (w.write site file bytes).read site other =
      if site.directory.locate other = site.directory.locate file then some bytes
      else w.read site other := by
  rw [World.read,World.write,World.read]
  by_cases h : site.directory.locate other = site.directory.locate file
  · rw [if_pos h,h]
    exact AList.lookup_insert _
  · rw [if_neg h]
    exact AList.lookup_insert_ne h

theorem read_erase (other : Text) :
    (w.erase site file).read site other =
      if site.directory.locate other = site.directory.locate file then none
      else w.read site other := by
  rw [World.read,World.erase,World.read]
  by_cases h : site.directory.locate other = site.directory.locate file
  · rw [if_pos h,h]
    exact AList.lookup_erase _ _
  · rw [if_neg h]
    exact AList.lookup_erase_ne h

theorem startup_disk {enabled : Bool} {byUser time : Text} {saved : Bool}
    (h : setRunOnStartup site w file enabled byUser time saved = .ok next) :
    next.disk = w.disk := by
  rw [setRunOnStartup] at h
  split_ifs at h
  · obtain ⟨md,_,h⟩ := bind_ok.mp h
    obtain ⟨known,_,h⟩ := bind_ok.mp h
    rw [((write_state_ok _ _ _ _ _).mp h).2]
  · rw [((write_state_ok _ _ _ _ _).mp h).2]

theorem clear_disk (h : clearActive site w byUser time saved = .ok next) : next.disk = w.disk := by
  rw [clearActive] at h
  split_ifs at h
  rw [((write_state_ok _ _ _ _ _).mp h).2]

def touches : Call → Option (Text×Option Bytes)
  | .importPackage file bytes _ => some (file,some bytes)
  | .build appId version package _ => some (artifactName appId version,some package)
  | .remove file _ => some (file,none)
  | _ => none

theorem perform_effect {call : Call} (h : perform site w call = .ok next) :
    match touches call with
    | none => next.disk = w.disk
    | some (file,content) => next.state = w.state ∧ ∀ other, next.read site other =
        if site.directory.locate other = site.directory.locate file then content
        else w.read site other := by
  cases call with
  | deploy file byUser time saved =>
    obtain ⟨_,_,_,_,_,hd,_⟩ := deploy_ok site w next file h
    exact hd
  | rollback byUser time saved => exact (rollback_ok site w next h).2.2.2.1
  | setRunOnStartup file enabled byUser time saved =>
    exact startup_disk site w next file h
  | clearActive byUser time saved => exact clear_disk site w next h
  | remove file deleted =>
    rw [(remove_ok site w next file h).2.2.2]
    exact ⟨rfl,read_erase site w file⟩
  | importPackage file bytes written =>
    rw [import_ok site w next file h]
    exact ⟨rfl,fun other => read_write site w file other bytes⟩
  | build appId version pkg written =>
    rw [build_ok site w next h]
    exact ⟨rfl,fun other => read_write site w _ other pkg⟩

/-! ## The bytes of named packages -/

/-- The state names the file as active or as the one before. -/
def Named (w : World) (file : Text) : Prop :=
  file ≠ [] ∧ (file = w.state.active ∨ file = w.state.previous)

instance (w : World) (file : Text) : Decidable (Named w file) := inferInstanceAs (Decidable (_ ∧ _))

/-- A run together with the bytes each named file had when it came to be named. -/
structure Recorded where
  world : World
  artifact : Text → Option Bytes

def recordedAfter (site : Site) (s : Recorded) (call : Call) : Recorded where
  world := after site s.world call
  artifact file :=
    if Named s.world file then s.artifact file else (after site s.world call).read site file

def recorded (site : Site) (disk : Disk) : Recorded := ⟨start disk,(start disk).read site⟩

/-- A named package has the bytes it was named with. -/
def Immutable (site : Site) (s : Recorded) : Prop :=
  ∀ file, Named s.world file → s.world.read site file = s.artifact file

/-- Where a named package lies, a successful call leaves what is there. -/
def Spared (site : Site) (s : Recorded) (call : Call) : Prop :=
  ∀ next file content, perform site s.world call = .ok next → touches call = some (file,content) →
    ∀ named, Named s.world named →
      site.directory.locate named = site.directory.locate file → s.world.read site named = content

theorem spared_kept {s : Recorded} {call : Call} (h : Spared site s call) {file : Text}
    (hf : Named s.world file) :
    (after site s.world call).read site file = s.world.read site file := by
  rw [after]
  cases hp : perform site s.world call with
  | error ref => rfl
  | ok next =>
    have he := perform_effect site _ next hp
    cases ht : touches call with
    | none =>
      rw [ht] at he
      simp only [World.read,he]
    | some chg =>
      rw [ht] at he
      rw [he.2 file]
      split_ifs with hpl
      · exact (h next chg.1 chg.2 hp ht file hf hpl).symm
      · rfl

theorem touched_names {call : Call} {chg : Text×Option Bytes}
    (hp : perform site w call = .ok next) (ht : touches call = some chg) :
    (after site w call).state = w.state ∧
      ∀ other, site.directory.locate other = site.directory.locate chg.1 →
        (after site w call).read site other = chg.2 := by
  have he := perform_effect site w next hp
  rw [ht] at he
  rw [after,hp]
  exact ⟨he.1,fun other hpl => by rw [he.2 other,if_pos hpl]⟩

/-- Over every run of calls, every package has the bytes it was named with as long as the
state names it, just when no call writes other bytes to the place of a named package or
deletes it. -/
theorem artifacts_kept_iff (site : Site) (disk : Disk) (calls : List Call) :
    (∀ done rest, calls = done++rest →
        Immutable site (run (recordedAfter site) (recorded site disk) done)) ↔
      Meets (recordedAfter site) (Spared site) (recorded site disk) calls := by
  apply always_iff_meets (recordedAfter site) (Spared site) (Immutable site) (Immutable site)
  · intro s call hi hs file hf
    by_cases hn : Named s.world file
    · have hsm := spared_kept site hs hn
      rw [recordedAfter]
      simp only [if_pos hn]
      rw [hsm,hi file hn]
    · rw [recordedAfter]
      simp only [if_neg hn]
  · exact fun s h => h
  · intro s call hi hnt ha
    apply hnt
    intro next file content hp ht named hn hpl
    obtain ⟨hst,hr⟩ := touched_names site _ next hp ht
    have hsl : Named (after site s.world call) named := by
      rw [Named,hst]
      exact hn
    have hk := ha named hsl
    rw [recordedAfter] at hk
    simp only [if_pos hn] at hk
    rw [hi named hn,← hk]
    exact hr named hpl
  · exact fun file _ => rfl

section
open LuaPackage

/-- Headers that tell one application from another and nothing else. -/
def appCodec : HeaderCodec where
  dump header := asciiBytes ((header.valueText "app_id" []).getD [])
  parse text := some (headerOf { Metadata.initial with appId := asciiText text } demoNonce)
  truncate _ := 0

def demoSite : Site where
  opener := ⟨summedSodium,appCodec,demoTag,.ok demoKey,.ok demoPublic⟩
  directory := ⟨"lua_packages",id,fun _ _ => rfl⟩
  sanitiseForLog := id

/-- A package with one module of a few bytes. -/
@[irreducible]
def demoArtifact (app : Char) (content : UInt8) : Bytes :=
  let module : Lua.Module := ⟨Lua.str "main",[],Lua.LuaBundle.kSignature++[content]⟩
  ((build summedSodium appCodec demoTag demoNonce
    (Lua.LuaBundle.serialise ⟨[module],Lua.str "main"⟩)
    { Metadata.initial with appId := [app] } demoKey demoSecret).toOption).getD []

end

def demoVersion (app : Char) (version : String) : Text := artifactName [app] version.toList

def deployed (app : Char) (version : String) : Call :=
  .deploy (demoVersion app version) "admin" [] true

def builtTwice : List Call :=
  [.build ['a'] "1.0.0" (demoArtifact 'a' 1) true,deployed 'a' "1.0.0",
    .build ['a'] "1.0.0" (demoArtifact 'a' 2) true]

/-- The active artifact is another one after the build. -/
theorem active_overwritten :
    ¬∀ done rest, builtTwice = done++rest →
      Immutable demoSite (run (recordedAfter demoSite) (recorded demoSite ∅) done) := by
  intro h
  have hk := h builtTwice [] rfl (demoVersion 'a' "1.0.0") (by decide +kernel)
  revert hk
  decide +kernel

/-! ## The list of running packages -/

def appOf (site : Site) (w : World) (file : Text) : Option Text :=
  (w.read site file).bind (fun bytes => ((site.opener.peekMetadata bytes).toOption).map (·.appId))

variable (app : Text → Option Text) (files : List Text)

def OneEach : Prop :=
  ∀ f ∈ files, ∀ g ∈ files, ∀ a, app f = some a → app g = some a → f = g

def Alone (file : Text) : Prop :=
  ∀ g ∈ files, ∀ a, app file = some a → app g = some a → g = file

theorem mem_push (file g : Text) :
    g ∈ pushMissing files file ↔ g ∈ files ∨ g = file := by
  rw [pushMissing]
  split_ifs with h
  · constructor
    · exact .inl
    · rintro (hg | rfl)
      · exact hg
      · exact h
  · simp

theorem one_push (file : Text)
    (h : OneEach app files) : OneEach app (pushMissing files file) ↔ Alone app files file := by
  constructor
  · intro ho g hg a hfl hga
    exact ho g ((mem_push _ _ _).mpr (.inl hg)) file ((mem_push _ _ _).mpr (.inr rfl)) a hga hfl
  · intro ha f hf g hg a hfa hga
    obtain hf' | rfl := (mem_push _ _ _).mp hf
    · obtain hg' | rfl := (mem_push _ _ _).mp hg
      · exact h f hf' g hg' a hfa hga
      · exact ha f hf' a hga hfa
    · obtain hg' | rfl := (mem_push _ _ _).mp hg
      · exact (ha g hg' a hfa hga).symm
      · rfl

theorem one_sub (kept : List Text) (h : OneEach app files)
    (hs : ∀ f ∈ kept, f ∈ files) : OneEach app kept :=
  fun f hf g hg a => h f (hs f hf) g (hs g hg) a

theorem app_of_disk (h : next.disk = w.disk) : appOf site next = appOf site w := by
  funext file
  simp only [appOf,World.read,h]

end

/-- A run together with the package that its last call deployed. -/
structure Watched where
  world : World
  deployed : Option Text

def Call.target : Call → Option Text
  | .deploy file _ _ _ => some file
  | _ => none

def justDeployed (site : Site) (w : World) (call : Call) : Option Text :=
  match perform site w call with
  | .ok _ => call.target
  | .error _ => none

def watchedAfter (site : Site) (s : Watched) (call : Call) : Watched :=
  ⟨after site s.world call,justDeployed site s.world call⟩

def watched (disk : Disk) : Watched := ⟨start disk,none⟩

/-- One package for each application runs, and the one just deployed is it. -/
structure Orderly (site : Site) (s : Watched) : Prop where
  one : OneEach (appOf site s.world) s.world.state.running
  deployed : ∀ file, s.deployed = some file →
    file ∈ s.world.state.running ∧ Alone (appOf site s.world) s.world.state.running file

/-- The packages that a deployment leaves in the list. -/
def keptByDeploy (state : State) (appId outgoing : Text) : List Text :=
  if sameApplication state appId outgoing then state.running.filter (· ≠ state.active)
  else state.running

/-- What a deployment needs to leave one package for the application. -/
def DeployTidy (site : Site) (w : World) (file : Text) : Prop :=
  ∀ metadata outgoing, openBundle site w file = .ok metadata →
    outgoingAppId site w w.state.active file = .ok outgoing →
    if sameApplication w.state metadata.appId outgoing ∧ w.state.active ∉ w.state.running then
      file ∈ w.state.running
    else Alone (appOf site w) (keptByDeploy w.state metadata.appId outgoing) file

/-- The application of a file that is put over a running one runs nowhere else. -/
def WriteTidy (site : Site) (w : World) (file : Text) (bytes : Bytes) : Prop :=
  ∀ g ∈ w.state.running, site.directory.locate g = site.directory.locate file →
    ∀ h ∈ w.state.running, ∀ metadata, site.opener.peekMetadata bytes = .ok metadata →
      appOf site w h = some metadata.appId → h = g

def Fits (site : Site) (w : World) : Call → Prop
  | .deploy file _ _ _ => DeployTidy site w file
  | .rollback _ _ _ => w.state.active ∈ w.state.running →
      Alone (appOf site w) (w.state.running.filter (· ≠ w.state.active)) w.state.previous
  | .setRunOnStartup file enabled _ _ _ => enabled = true → ∀ g ∈ w.state.running, g ≠ file →
      ∀ a, appOf site w file = some a → appOf site w g = some a → hasExtension g = true
  | .clearActive _ _ _ => True
  | .remove _ _ => True
  | .importPackage file bytes _ => WriteTidy site w file bytes
  | .build appId version package _ => WriteTidy site w (artifactName appId version) package

def Tidy (site : Site) (s : Watched) (call : Call) : Prop :=
  ∀ next, perform site s.world call = .ok next → Fits site s.world call

variable (site : Site) (w : World) (s : Watched) (file : Text) (call : Call) (next : World)
  (bytes : Bytes)

theorem listed_orderly_iff :
    Orderly site s ↔ OneEach (appOf site s.world) s.world.state.running ∧
      ∀ file, s.deployed = some file → file ∈ s.world.state.running := by
  constructor
  · exact fun h => ⟨h.one,fun file hf => (h.deployed file hf).1⟩
  · rintro ⟨ho,hd⟩
    refine ⟨ho,fun file hf => ⟨hd file hf,?_⟩⟩
    exact fun g hg a hfa hga => ho g hg file (hd file hf) a hga hfa

theorem peeked_app (a : Text) :
    ((site.opener.peekMetadata bytes).toOption).map (·.appId) = some a ↔
      ∃ metadata, site.opener.peekMetadata bytes = .ok metadata ∧ metadata.appId = a := by
  cases site.opener.peekMetadata bytes with
  | error ref => simp [Except.toOption]
  | ok metadata => simp [Except.toOption]

theorem app_of_opened (md : Metadata) (h : openBundle site w file = .ok md) :
    '/' ∉ file ∧ appOf site w file = some md.appId := by
  rw [openBundle] at h
  split_ifs at h with he hs
  cases hr : w.read site file with
  | none =>
    rw [hr] at h
    cases h
  | some bytes =>
    rw [hr] at h
    have hp := Opener.peeked (Opener.bundled h)
    refine ⟨hs,?_⟩
    rw [appOf,hr]
    simp [hp,Except.toOption]

theorem deploy_tidy {file byUser time : Text} {saved : Bool}
    (hon : OneEach (appOf site w) w.state.running)
    (h : deploy site w file byUser time saved = .ok next) :
    OneEach (appOf site next) next.state.running ∧ file ∈ next.state.running ↔
      DeployTidy site w file := by
  obtain ⟨md,outgoing,hop,hou,_,hd,hst⟩ := deploy_ok site w next file h
  have hc : DeployTidy site w file ↔
      if sameApplication w.state md.appId outgoing ∧ w.state.active ∉ w.state.running then
        file ∈ w.state.running
      else Alone (appOf site w) (keptByDeploy w.state md.appId outgoing) file := by
    constructor
    · exact fun ht => ht md outgoing hop hou
    · intro ht metadata' outgoing' ho hot
      rw [hop] at ho
      rw [hou] at hot
      rwa [← ok.inj ho,← ok.inj hot]
  have hr : next.state.running = (publishDeploy w.state file md.appId outgoing).running
      := by rw [hst]; rfl
  rw [hc,app_of_disk site w next hd,hr,publishDeploy]
  dsimp only
  by_cases hs : sameApplication w.state md.appId outgoing ∧
      w.state.active ∉ w.state.running
  · rw [if_pos hs, if_neg (by simp [hs.1,hs.2,hs.1.1])]
    exact and_iff_right hon
  · have hl : w.state.active = [] ∨ ¬sameApplication w.state md.appId outgoing ∨
        w.state.active ∈ w.state.running := by
      by_cases hsm : sameApplication w.state md.appId outgoing
      · exact .inr (.inr (not_not.mp fun hn => hs ⟨hsm,hn⟩))
      · exact .inr (.inl hsm)
    have hk : ∀ f ∈ keptByDeploy w.state md.appId outgoing, f ∈ w.state.running := by
      intro f hf
      rw [keptByDeploy] at hf
      split_ifs at hf
      · exact (mem_filter.mp hf).1
      · exact hf
    have hp := one_push _ _ file (one_sub _ _ _ hon hk)
    rw [if_neg hs,if_pos hl,← hp]
    exact and_iff_left ((mem_push _ _ _).mpr (.inr rfl))

theorem rollback_tidy {byUser time : Text} {saved : Bool}
    (ho : OneEach (appOf site w) w.state.running)
    (h : rollback site w byUser time saved = .ok next) :
    OneEach (appOf site next) next.state.running ↔
      (w.state.active ∈ w.state.running →
        Alone (appOf site w) (w.state.running.filter (· ≠ w.state.active)) w.state.previous) := by
  obtain ⟨_,_,_,hd,hs⟩ := rollback_ok site w next h
  have hr : next.state.running = (publishRollback w.state).running := by rw [hs]; rfl
  rw [app_of_disk site w next hd,hr,publishRollback]
  dsimp only
  by_cases ha : w.state.active ∈ w.state.running
  · have hk := one_sub (appOf site w) w.state.running
      (w.state.running.filter (· ≠ w.state.active)) ho (fun f hf => (mem_filter.mp hf).1)
    rw [if_pos ha,one_push _ _ _ hk]
    exact ⟨fun hal _ => hal,fun hal => hal ha⟩
  · rw [if_neg ha]
    exact ⟨fun _ hn => absurd hn ha,fun _ => ho⟩

theorem mem_mapped {α β : Type} (f : α → Except Refusal β) (xs : List α) (ys : List β)
    (h : xs.mapM f = .ok ys) (y : β) : y ∈ ys ↔ ∃ x ∈ xs, f x = .ok y := by
  induction xs generalizing ys with
  | nil =>
    rw [mapM_nil] at h
    rw [← ok.inj h]
    simp
  | cons x xs ih =>
    rw [mapM_cons] at h
    obtain ⟨head,hh,h⟩ := bind_ok.mp h
    obtain ⟨rest,hr,h⟩ := bind_ok.mp h
    rw [← ok.inj h,mem_cons,ih rest hr]
    constructor
    · rintro (rfl | ⟨z,hz,hy⟩)
      · exact ⟨x,mem_cons_self,hh⟩
      · exact ⟨z,mem_cons_of_mem _ hz,hy⟩
    · rintro ⟨z,hz,hy⟩
      obtain rfl | hz := mem_cons.mp hz
      · exact .inl (ok.inj (hy.symm.trans hh))
      · exact .inr ⟨z,hz,hy⟩

theorem list_entry_file {en : Listed} (h : listEntry site file bytes = .ok en) :
    en.file = file := by
  rw [listEntry] at h
  cases hp : site.opener.peekMetadata bytes with
  | error ref =>
    rw [hp] at h
    cases ref with
    | error text => rw [← ok.inj h]
    | thrown => cases h
  | ok md =>
    rw [hp] at h
    rw [← ok.inj h]

theorem listed_iff (known : List Listed) (h : list site w = .ok known) (file a : Text)
    (hs : '/' ∉ file) (ha : appOf site w file = some a) :
    (∃ entry ∈ known, entry.file = file ∧ entry.appId = a) ↔ hasExtension file = true := by
  have hmm := mem_mapped _ _ _ h
  constructor
  · rintro ⟨entry,he,hf,_⟩
    obtain ⟨item,hi,hls⟩ := (hmm entry).mp he
    have hn : entry.file = item.1 := list_entry_file site _ _ hls
    have hl := (mem_filter.mp hi).2
    rw [← hf,hn]
    simpa using (of_decide_eq_true hl).2
  · intro hex
    rw [appOf] at ha
    obtain ⟨bytes,hr,hp⟩ := Option.bind_eq_some_iff.mp ha
    rw [World.read,site.directory.plain file hs] at hr
    have he : ⟨file,bytes⟩ ∈ w.disk.entries := AList.mem_lookup_iff.mp hr
    refine ⟨⟨file,a⟩,(hmm _).mpr ⟨⟨file,bytes⟩,?_,?_⟩,rfl,rfl⟩
    · exact mem_filter.mpr ⟨he,decide_eq_true ⟨hs,hex⟩⟩
    · obtain ⟨md,hm,rfl⟩ := (peeked_app site bytes a).mp hp
      rw [listEntry,hm]

theorem startup_tidy (file byUser time : Text) (saved : Bool)
    (hon : OneEach (appOf site w) w.state.running) (hp : ∀ f ∈ w.state.running, '/' ∉ f)
    (h : setRunOnStartup site w file true byUser time saved = .ok next) :
    OneEach (appOf site next) next.state.running ↔
      ∀ g ∈ w.state.running, g ≠ file → ∀ a, appOf site w file = some a →
        appOf site w g = some a → hasExtension g = true := by
  obtain ⟨md,ho,h⟩ := bind_ok.mp h
  obtain ⟨known,hl,h⟩ := bind_ok.mp h
  obtain ⟨_,rfl⟩ := (write_state_ok _ _ _ _ _).mp h
  have hap := (app_of_opened site w file _ ho).2
  have hd := app_of_disk site w _ rfl
  rw [hd]
  have hk := one_sub (appOf site w) w.state.running
    (w.state.running.filter (fun running => ¬∃ en ∈ known, en.file = running ∧
      en.file ≠ file ∧ en.appId = md.appId)) hon
    (fun f hf => (mem_filter.mp hf).1)
  have hps := one_push _ _ file hk
  refine Iff.trans hps ?_
  constructor
  · intro hal g hg hne a hfl hga
    by_contra he
    have hnt : ¬∃ en ∈ known, en.file = g ∧ en.file ≠ file ∧
        en.appId = md.appId := by
      rintro ⟨en,hen,hn,_,hid⟩
      have ha : a = md.appId := Option.some.inj (hfl.symm.trans hap)
      exact he ((listed_iff site w known hl g a (hp g hg) hga).mp ⟨en,hen,hn,hid.trans ha.symm⟩)
    exact hne (hal g (mem_filter.mpr ⟨hg,decide_eq_true hnt⟩) a hfl hga)
  · intro he g hg a hfl hga
    obtain ⟨hr,hnt⟩ := mem_filter.mp hg
    by_contra hne
    obtain ⟨en,hen,hn,hid⟩ := (listed_iff site w known hl g a (hp g hr)
      hga).mpr (he g hr hne a hfl hga)
    have ha : a = md.appId := Option.some.inj (hfl.symm.trans hap)
    exact of_decide_eq_true hnt ⟨en,hen,hn,hn ▸ hne,hid.trans ha⟩

theorem app_of_write (other : Text) (bytes : Bytes) :
    appOf site (w.write site file bytes) other =
      if site.directory.locate other = site.directory.locate file then
        ((site.opener.peekMetadata bytes).toOption).map (·.appId)
      else appOf site w other := by
  rw [appOf,read_write]
  split_ifs with h <;> rfl

variable {site w}

theorem write_tidy (hon : OneEach (appOf site w) w.state.running)
    (hpl : ∀ f ∈ w.state.running, '/' ∉ f) :
    OneEach (appOf site (w.write site file bytes)) w.state.running ↔
      WriteTidy site w file bytes := by
  have hpc : ∀ f ∈ w.state.running, ∀ g ∈ w.state.running,
      site.directory.locate f = site.directory.locate g → f = g := by
    intro f hf g hg h
    rwa [site.directory.plain f (hpl f hf),site.directory.plain g (hpl g hg)] at h
  constructor
  · intro ha g hg hat h hh md hp hap
    by_cases hs : site.directory.locate h = site.directory.locate file
    · exact hpc h hh g hg (hs.trans hat.symm)
    · refine ha h hh g hg md.appId ?_ ?_
      · rw [app_of_write,if_neg hs,hap]
      · rw [app_of_write,if_pos hat,hp]
        rfl
  · intro ht f hf g hg a hfa hga
    rw [app_of_write] at hfa hga
    split_ifs at hfa hga with hfl ho ho
    · exact hpc f hf g hg (hfl.trans ho.symm)
    · obtain ⟨md,hp,rfl⟩ := (peeked_app site bytes a).mp hfa
      exact (ht f hf hfl g hg md hp hga).symm
    · obtain ⟨md,hp,rfl⟩ := (peeked_app site bytes a).mp hga
      exact ht g hg ho f hf md hp hfa
    · exact hon f hf g hg a hfa hga

theorem erase_tidy (ho : OneEach (appOf site w) w.state.running) :
    OneEach (appOf site (w.erase site file)) w.state.running := by
  have hk : ∀ f a, appOf site (w.erase site file) f = some a → appOf site w f = some a := by
    intro f a h
    rw [appOf,read_erase] at h
    split_ifs at h
    · cases h
    · exact h
  exact fun f hf g hg a hfa hga => ho f hf g hg a (hk f a hfa) (hk g a hga)

variable {next}

/-- A successful call keeps the list of running packages, or puts one there that opens. -/
theorem running_after {call : Call} (h : perform site w call = .ok next) :
    ∀ f ∈ next.state.running, f ∈ w.state.running ∨
      ∃ metadata, openBundle site w f = .ok metadata := by
  cases call with
  | deploy file byUser time saved =>
    obtain ⟨metadata,outgoing,ho,_,_,_,hs⟩ := deploy_ok site w next file h
    intro f hf
    rw [hs] at hf
    change f ∈ (publishDeploy w.state file metadata.appId outgoing).running at hf
    rw [publishDeploy] at hf
    dsimp only at hf
    split_ifs at hf with hl hsm
    · obtain hf | rfl := (mem_push _ _ _).mp hf
      · exact .inl (mem_filter.mp hf).1
      · exact .inr ⟨metadata,ho⟩
    · obtain hf | rfl := (mem_push _ _ _).mp hf
      · exact .inl hf
      · exact .inr ⟨metadata,ho⟩
    · exact .inl hf
  | rollback byUser time saved =>
    obtain ⟨_,ho,_,_,hs⟩ := rollback_ok site w next h
    intro f hf
    rw [hs] at hf
    change f ∈ (publishRollback w.state).running at hf
    rw [publishRollback] at hf
    dsimp only at hf
    split_ifs at hf with ha
    · obtain hf | rfl := (mem_push _ _ _).mp hf
      · exact .inl (mem_filter.mp hf).1
      · exact .inr ho
    · exact .inl hf
  | setRunOnStartup file enabled byUser time saved =>
    rw [perform,setRunOnStartup] at h
    intro f hf
    split_ifs at h with he
    · obtain ⟨metadata,ho,h⟩ := bind_ok.mp h
      obtain ⟨known,_,h⟩ := bind_ok.mp h
      rw [((write_state_ok _ _ _ _ _).mp h).2] at hf
      obtain hf | rfl := (mem_push _ _ _).mp hf
      · exact .inl (mem_filter.mp hf).1
      · exact .inr ⟨metadata,ho⟩
    · rw [((write_state_ok _ _ _ _ _).mp h).2] at hf
      exact .inl (mem_of_mem_erase hf)
  | clearActive byUser time saved =>
    rw [perform,clearActive] at h
    split_ifs at h
    rw [((write_state_ok _ _ _ _ _).mp h).2]
    exact fun f hf => .inl hf
  | remove file deleted =>
    rw [(perform_effect site w next h).1]
    exact fun f hf => .inl hf
  | importPackage file bytes written =>
    rw [(perform_effect site w next h).1]
    exact fun f hf => .inl hf
  | build appId version pkg written =>
    rw [(perform_effect site w next h).1]
    exact fun f hf => .inl hf

theorem plain_after (hp : ∀ f ∈ w.state.running, '/' ∉ f) :
    ∀ f ∈ (after site w call).state.running, '/' ∉ f := by
  rw [after]
  cases hpr : perform site w call with
  | error ref => exact hp
  | ok next =>
    intro f hf
    obtain hf | ⟨md,ho⟩ := running_after hpr f hf
    · exact hp f hf
    · exact (app_of_opened site w f _ ho).1

variable {s}

/-- After a successful call other than a deployment, only the list counts. -/
theorem orderly_after (hp : perform site s.world call = .ok next)
    (ho : call.target = none) :
    Orderly site (watchedAfter site s call) ↔ OneEach (appOf site next) next.state.running := by
  rw [listed_orderly_iff,watchedAfter,justDeployed,after,hp]
  simp [ho]

theorem fits_iff (ho : OneEach (appOf site s.world) s.world.state.running)
    (hpl : ∀ f ∈ s.world.state.running, '/' ∉ f)
    (hp : perform site s.world call = .ok next) :
    Orderly site (watchedAfter site s call) ↔ Fits site s.world call := by
  cases call with
  | deploy file byUser time saved =>
    rw [Fits,← deploy_tidy site s.world next ho hp,
      listed_orderly_iff,watchedAfter,justDeployed,after,hp]
    simp [Call.target]
  | rollback byUser time saved =>
    rw [orderly_after _ hp rfl]
    exact rollback_tidy site _ next ho hp
  | setRunOnStartup file enabled byUser time saved =>
    rw [orderly_after _ hp rfl]
    cases enabled with
    | true =>
      rw [startup_tidy site _ next file _ time saved ho hpl hp]
      exact ⟨fun h _ => h,fun h => h rfl⟩
    | false =>
      obtain ⟨_,rfl⟩ := (write_state_ok _ _ _ _ _).mp hp
      exact iff_of_true (one_sub _ _ _ ho (fun f hf => mem_of_mem_erase hf))
        (fun h => by cases h)
  | clearActive byUser time saved =>
    rw [orderly_after _ hp rfl]
    rw [perform,clearActive] at hp
    split_ifs at hp
    rw [((write_state_ok _ _ _ _ _).mp hp).2]
    exact iff_of_true ho trivial
  | remove file deleted =>
    rw [orderly_after _ hp rfl,(remove_ok _ _ _ _ hp).2.2.2]
    exact iff_of_true (erase_tidy file ho) trivial
  | importPackage file bytes written =>
    rw [orderly_after _ hp rfl,import_ok _ _ _ _ hp]
    exact write_tidy file bytes ho hpl
  | build appId version pkg written =>
    rw [orderly_after _ hp rfl,build_ok _ _ _ hp]
    exact write_tidy _ pkg ho hpl

theorem call_tidy_iff (ho : OneEach (appOf site s.world) s.world.state.running)
    (hpl : ∀ f ∈ s.world.state.running, '/' ∉ f) :
    Orderly site (watchedAfter site s call) ↔ Tidy site s call := by
  cases hp : perform site s.world call with
  | error ref =>
    have hs : watchedAfter site s call = ⟨s.world,none⟩ := by
      rw [watchedAfter,justDeployed,after,hp]
    rw [hs,listed_orderly_iff,Tidy,hp]
    simp [ho]
  | ok next =>
    rw [fits_iff call ho hpl hp,Tidy,hp]
    exact ⟨fun h _ _ => h,fun h => h next rfl⟩

/-- Over every run of calls, one package for each application is in the list and a deployed one
is it, just when every call finds the list as its own bookkeeping takes it to be. -/
theorem running_kept_iff (site : Site) (disk : Disk) (calls : List Call) :
    (∀ done rest, calls = done++rest →
        Orderly site (run (watchedAfter site) (watched disk) done)) ↔
      Meets (watchedAfter site) (Tidy site) (watched disk) calls := by
  apply always_iff_meets _ _
    (fun s => Orderly site s ∧ ∀ f ∈ s.world.state.running, '/' ∉ f) (Orderly site)
  · rintro s call ⟨ho,hp⟩ ht
    exact ⟨(call_tidy_iff call ho.one hp).mpr ht,plain_after call hp⟩
  · exact fun s h => h.1
  · rintro s call ⟨ho,hp⟩ hn ha
    exact hn ((call_tidy_iff call ho.one hp).mp ha)
  · refine ⟨(listed_orderly_iff site _).mpr ⟨?_,?_⟩,?_⟩
    · exact fun f hf => absurd hf List.not_mem_nil
    · exact fun file h => by cases h
    · exact fun f hf => absurd hf List.not_mem_nil

def threePackages : Disk :=
  (((∅ : Disk).insert (demoVersion 'a' "1.0.0") (demoArtifact 'a' 1)).insert
    (demoVersion 'a' "2.0.0") (demoArtifact 'a' 2)).insert (demoVersion 'b' "1.0.0")
      (demoArtifact 'b' 1)

def bothDeployed : Watched :=
  run (watchedAfter demoSite) (watched threePackages)
    [deployed 'a' "1.0.0",deployed 'b' "1.0.0",deployed 'a' "2.0.0"]

theorem both_running : bothDeployed.world.state.running =
      [demoVersion 'a' "1.0.0",demoVersion 'b' "1.0.0",demoVersion 'a' "2.0.0"] ∧
    appOf demoSite bothDeployed.world (demoVersion 'a' "1.0.0") = some ['a'] ∧
    appOf demoSite bothDeployed.world (demoVersion 'a' "2.0.0") = some ['a'] := by
  decide +kernel

/-- With another application deployed in between, both versions run. -/
theorem both_versions_run :
    (run (watchedAfter demoSite) (watched threePackages)
        [deployed 'a' "1.0.0",deployed 'b' "1.0.0",deployed 'a' "2.0.0"]).world.state.running =
      [demoVersion 'a' "1.0.0",demoVersion 'b' "1.0.0",demoVersion 'a' "2.0.0"] ∧
    ¬Orderly demoSite (run (watchedAfter demoSite) (watched threePackages)
        [deployed 'a' "1.0.0",deployed 'b' "1.0.0",deployed 'a' "2.0.0"]) := by
  obtain ⟨hr,hfirst,hsecond⟩ := both_running
  change bothDeployed.world.state.running = _ ∧ ¬Orderly demoSite bothDeployed
  refine ⟨hr,fun h => ?_⟩
  have hs := h.one (demoVersion 'a' "1.0.0") (by simp [hr]) (demoVersion 'a' "2.0.0")
    (by simp [hr]) ['a'] hfirst hsecond
  exact absurd hs (by decide)

end Packages
end EMaster
