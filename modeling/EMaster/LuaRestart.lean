import EMaster.Runs
import EMaster.Text

/-!
# What a restart hands to the engine

The thread of a runtime has the path, the chunk and the modules it runs. A restart has the
runtime's path and the chunk its engine loaded last.
-/

set_option autoImplicit false

namespace EMaster.LuaRestart
open Runs Text

abbrev Modules := List (Text×Text)

/-- What the engine is asked to run. -/
inductive Job where
  | runFile (path : Text)
  | runSource (code : Text)
  | runBundle (modules : Modules) (entry name : Text)
  deriving DecidableEq, Repr

structure Launch where
  (name path source : Text)
  fromSource : Bool
  preload : Modules

/-- How a start goes: whether the script that ran before let go of the engine, whether the file is
there, what it holds, and whether all that the engine is handed loads. -/
structure Answer where
  (released regular : Bool)
  contents : Text
  loads : Bool

structure Runtime where
  (name path : Text)
  job : Job
  lastSource : Text

def runThread (l : Launch) : Job :=
  if l.preload ≠ [] then .runBundle l.preload l.source l.name
  else if l.fromSource then .runSource l.source else .runFile l.path

/-- The engine keeps a chunk once it is loaded. -/
def startInternal (l : Launch) (a : Answer) : Option Runtime :=
  if l.fromSource = false ∧ a.regular = false then none
  else some ⟨l.name,if l.fromSource then [] else l.path,runThread l,
    if a.loads then (if l.fromSource then l.source else a.contents) else []⟩

/-- The name of a module without its first part. -/
def aliasOf (name : Text) : Option Text :=
  let rest := (name.dropWhile (· ≠ '.')).drop 1
  if rest = [] then none else some rest

def addAlias (preload : Modules) (m : Text×Text) : Modules :=
  match aliasOf m.1 with
  | none => preload
  | some name => if preload.any (fun c => c.1 = name) then preload else preload++[(name,m.2)]

inductive Start where
  | file (name path : Text)
  | source (code : Text)
  | package (name : Text) (modules : Modules) (entry : Text)

def kEditorBufferName : Text := "(editor buffer)"

def Start.launch : Start → Launch
  | .file name path => ⟨name,path,[],false,[]⟩
  | .source code => ⟨kEditorBufferName,[],code,true,[]⟩
  | .package name modules entry => ⟨name,[],entry,true,modules.foldl addAlias modules⟩

/-- Only a package without an entry and a script without a path are refused at once. -/
def Start.run (s : Start) (a : Answer) : Option Runtime :=
  match s with
  | .file _ [] => none
  | .package _ _ [] => none
  | _ => startInternal s.launch a

/-- The chunk is read under the lock the engine holds while a script runs. -/
def restart (r : Runtime) (a : Answer) : Option Runtime :=
  if r.path = [] then
    if a.released = false ∨ r.lastSource = [] then none
    else startInternal ⟨r.name,[],r.lastSource,true,[]⟩ a
  else startInternal ⟨r.name,r.path,[],false,[]⟩ a

def step (r : Runtime) (a : Answer) : Runtime := (restart r a).getD r

/-- The restart runs, and what it runs is the job. -/
def Hands (job : Job) (r : Runtime) (a : Answer) : Prop := (restart r a).map Runtime.job = some job

/-- What a restart needs: the file, or a chunk that was loaded before and came without modules. -/
def Start.Repeats : Start → Answer → Answer → Prop
  | .file .., _, a => a.regular = true
  | .source code, before, a => code ≠ [] ∧ before.loads = true ∧ a.released = true
  | .package _ modules _, before, a => modules = [] ∧ before.loads = true ∧ a.released = true

theorem aliases_nil {ms modules : Modules} (h : ms.foldl addAlias modules = []) : modules = [] := by
  induction ms generalizing modules with
  | nil => exact h
  | cons m ms ih =>
    have ha := ih h
    rw [addAlias] at ha
    split at ha
    · exact ha
    · split_ifs at ha
      · exact ha
      · exact absurd ha (List.append_ne_nil_of_right_ne_nil _ (List.cons_ne_nil _ _))

variable {s : Start} {a b : Answer} {r : Runtime}

theorem run_launch (h : s.run a = some r) : startInternal s.launch a = some r := by
  unfold Start.run at h
  split at h
  · cases h
  · cases h
  · exact h

theorem run_again (h : s.run a = some r) : s.run b = startInternal s.launch b := by
  unfold Start.run at h ⊢
  split at h
  · cases h
  · cases h
  · rfl

/-- A chunk is restarted without the modules it may have come with. -/
theorem restart_source {l : Launch} (hl : l.fromSource = true)
    (h : startInternal l a = some r) :
    restart r b = if l.source ≠ [] ∧ a.loads = true ∧ b.released = true then
      startInternal ⟨l.name,[],l.source,true,[]⟩ b else none := by
  simp only [startInternal,hl,Bool.true_eq_false,false_and,if_false,if_true] at h
  cases h
  cases a.loads <;> cases hb : b.released <;> simp [restart,hb]

theorem restart_file {name path : Text} (hp : path ≠ [])
    (h : startInternal ⟨name,path,[],false,[]⟩ a = some r) :
    restart r b = startInternal ⟨name,path,[],false,[]⟩ b := by
  unfold startInternal at h
  split at h
  · cases h
  · cases h
    exact if_neg hp

/-- A restart is the start again when it has what it needs, and hands nothing or another thing
when it has not. -/
theorem restart_cases (b : Answer) (h : s.run a = some r) :
    (s.Repeats a b ∧ restart r b = s.run b ∧ Hands (runThread s.launch) r b) ∨
      (¬s.Repeats a b ∧ ¬Hands (runThread s.launch) r b) := by
  have hl := run_launch h
  rw [run_again h]
  cases s with
  | file name path =>
    have hp : path ≠ [] := by
      intro hp
      rw [hp] at h
      cases h
    have hr : restart r b = _ := restart_file hp hl
    cases hb : b.regular with
    | true => exact .inl ⟨hb,hr,by simp [Hands,hr,startInternal,Start.launch,hb]⟩
    | false => exact .inr ⟨by simp [Start.Repeats,hb],by simp [Hands,hr,startInternal,hb]⟩
  | source code =>
    have hr := restart_source (b := b) rfl hl
    by_cases hb : code ≠ [] ∧ a.loads = true ∧ b.released = true
    · have hr := hr.trans (if_pos hb)
      exact .inl ⟨hb,hr,by rw [Hands,hr]; rfl⟩
    · have hr := hr.trans (if_neg hb)
      exact .inr ⟨hb,by rw [Hands,hr]; exact (Option.some_ne_none _).symm⟩
  | package name modules en =>
    have he : en ≠ [] := by
      intro he
      rw [he] at h
      cases h
    have hr := restart_source (b := b) rfl hl
    by_cases hb : a.loads = true ∧ b.released = true
    · have hr := hr.trans (if_pos ⟨he,hb⟩)
      by_cases hm : modules = []
      · subst hm
        exact .inl ⟨⟨rfl,hb⟩,hr,by rw [Hands,hr]; rfl⟩
      · refine .inr ⟨fun hc => hm hc.1,?_⟩
        have hp : modules.foldl addAlias modules ≠ [] := fun hc => hm (aliases_nil hc)
        rw [Hands,hr]
        simp [startInternal,runThread,Start.launch,hp]
    · have hr := hr.trans (if_neg fun hc => hb hc.2)
      exact .inr ⟨fun hc => hb hc.2,by rw [Hands,hr]; exact (Option.some_ne_none _).symm⟩

/-- Every restart of a runtime hands the engine what the start handed it exactly when a script's
file is there each time, and a chunk has text, no modules, and was loaded and let go of by the
engine each time before. -/
theorem restarts_hand_iff (s : Start) (a : Answer) (r : Runtime) (as : List Answer)
    (h : s.run a = some r) :
    Meets step (Hands (runThread s.launch)) r as ↔ (a::as).IsChain s.Repeats := by
  induction as generalizing a r with
  | nil => exact ⟨fun _ => .singleton a,fun _ => trivial⟩
  | cons b bs ih =>
    rw [List.isChain_cons_cons]
    rcases restart_cases b h with ⟨hb,hr,hh⟩ | ⟨hb,hh⟩
    · have hn : s.run b = some (step r b) := by
        cases hs : restart r b with
        | none => rw [Hands,hs] at hh; cases hh
        | some n => rw [← hr,hs,step,hs]; rfl
      exact ⟨fun hm => ⟨hb,(ih b _ hn).mp hm.2⟩,fun hc => ⟨hh,(ih b _ hn).mpr hc.2⟩⟩
    · exact ⟨fun hm => absurd hm.1 hh,fun hc => absurd hc.1 hb⟩

def fine : Answer := ⟨true,true,[],true⟩

def lockerPackage : Start :=
  .package "smartlocker" [("smartlocker.core.access","return 1")]
    "require 'core.access'"

/-- A package is started with its module under both names and restarted with neither. -/
theorem package_restarts_bare :
    (lockerPackage.run fine).map (fun r => (r.job,(restart r fine).map Runtime.job)) =
      some (.runBundle
        [("smartlocker.core.access","return 1"),("core.access","return 1")]
        "require 'core.access'" "smartlocker",
        some (.runSource "require 'core.access'")) := by
  decide +kernel

theorem script_restarts : ∃ r, (Start.file "a.lua" "s/a.lua").run fine = some r ∧
    Meets step (Hands (.runFile "s/a.lua")) r [fine,fine] :=
  ⟨_,rfl,(restarts_hand_iff (.file "a.lua" "s/a.lua") fine _ [fine,fine] rfl).mpr
    (.cons_cons rfl (.cons_cons rfl (.singleton _)))⟩

end EMaster.LuaRestart
