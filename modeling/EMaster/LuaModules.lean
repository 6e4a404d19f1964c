import EMaster.LuaBundle

/-!
# Module names of a bundle

The packager walks an application directory and names every compiled file as `require` would
spell it. Without a bundle the interpreter looks for `?.lua` and then for `?/init.lua` under
the scripts directory. A tree is listed in the order of the walk, with paths from the scripts
directory on.
-/

set_option autoImplicit false

namespace EMaster
open List
namespace Lua

abbrev Path := List Bytes

def kDot : UInt8 := 46
def kSlash : UInt8 := 47
def kBackslash : UInt8 := 92

def replace (old new : UInt8) (text : Bytes) : Bytes :=
  text.map (fun c => if c = old then new else c)

def stripSuffix (suffix text : Bytes) : Bytes :=
  if suffix <:+ text then text.take (text.length-suffix.length) else text

def joinPath (path : Path) : Bytes := [kSlash].intercalate path

def splitPath (text : Bytes) : Path := (text.splitOn kSlash).filter (· ≠ [])

def moduleNameForPath (relativePath : Bytes) : Bytes :=
  let name := stripSuffix (str ".lua") (replace kBackslash kSlash relativePath)
  if (str "/init").length < name.length ∧ str "/init" <:+ name then
    replace kSlash kDot (name.take (name.length-(str "/init").length))
  else if name = str "init" then str "init"
  else replace kSlash kDot name

structure Entry where
  path : Path
  source : Option Bytes
  deriving DecidableEq, Repr

structure Tree where
  entries : List Entry
  nodup : (entries.map Entry.path).Nodup
  named : ∀ e ∈ entries, ∀ c ∈ e.path, c ≠ [] ∧ kSlash ∉ c

def relativePath (base : Path) (e : Entry) : Bytes := joinPath (e.path.drop base.length)

/-- The extension of a name that is an extension only is empty. -/
def HasLuaExtension (filename : Bytes) : Prop := str ".lua" <:+ filename ∧ filename ≠ str ".lua"

def IsTest (relative : Bytes) : Prop :=
  str "test" <+: relative ∨ str "/test" <:+: relative ∨ str "_test.lua" <:+: relative

def Compiled (base : Path) (e : Entry) : Prop :=
  (e.source.isSome = true ∧ base <+: e.path ∧ base.length < e.path.length) ∧
    HasLuaExtension (e.path.getLastD []) ∧ ¬IsTest (relativePath base e)

instance (filename : Bytes) : Decidable (HasLuaExtension filename) :=
  inferInstanceAs (Decidable (_ ∧ _))

instance (relative : Bytes) : Decidable (IsTest relative) := inferInstanceAs (Decidable (_ ∨ _ ∨ _))

instance (base : Path) (e : Entry) : Decidable (Compiled base e) :=
  inferInstanceAs (Decidable (_ ∧ _ ∧ _))

def moduleName (e : Entry) : Bytes := moduleNameForPath (joinPath e.path)

structure CompileError where
  errorLine : ℤ
  error : Bytes
  deriving DecidableEq, Repr

structure Failure where
  (failedStage error : Bytes)
  errorLine : ℤ
  errorModule : Bytes
  deriving DecidableEq, Repr

abbrev Compiler := Bytes → Bytes → Except CompileError Bytes

variable (compile : Compiler)

def compileEntry (base : Path) (e : Entry) : Except CompileError Bytes :=
  compile (e.source.getD []) (relativePath base e)

def compileEntries (compile : Compiler) (base : Path) :
    LuaBundle → List Entry → Except Failure LuaBundle
  | bundle, [] => .ok bundle
  | bundle, e::entries =>
    if Compiled base e then
      match compileEntry compile base e with
      | .error compiled =>
        .error ⟨str "compile",compiled.error,compiled.errorLine,relativePath base e⟩
      | .ok bytecode =>
        compileEntries compile base
          (bundle.addModule (moduleName e) (relativePath base e) bytecode) entries
    else compileEntries compile base bundle entries

def compileStage (base : Path) (tree : Tree) (entryPath : Path) : Except Failure LuaBundle := do
  let bundle ← compileEntries compile base LuaBundle.empty tree.entries
  if ∀ e ∈ tree.entries, ¬Compiled base e then
    .error ⟨str "compile",str "the application directory contains no .lua files",0,[]⟩
  else
    let entryModule := moduleNameForPath (joinPath entryPath)
    let bundle := bundle.setEntry entryModule
    if bundle.entryBytecode = none then
      .error ⟨str "compile",str "entry module \""++entryModule++
        str "\" was not among the compiled files",0,[]⟩
    else .ok bundle

def candidates (name : Bytes) : List Path :=
  [splitPath (replace kDot kSlash name++str ".lua"),
    splitPath (replace kDot kSlash name++str "/init.lua")]

def entryAt (entries : List Entry) (path : Path) : Option Entry :=
  entries.find? (fun e => e.path = path)

def search (tree : Tree) (name : Bytes) : Option Entry :=
  (candidates name).findSome? (entryAt tree.entries)

def LuaBundle.preloaded (bundle : LuaBundle) (name : Bytes) : Option Module :=
  bundle.modules.find? (fun module => module.name = name)

/-- For a name, bundle and interpreter have the same file, or neither has one. -/
def Agrees (base : Path) (tree : Tree) (bundle : LuaBundle) (name : Bytes) : Prop :=
  match bundle.preloaded name with
  | none => search tree name = none
  | some module => ∃ e, search tree name = some e ∧ Compiled base e ∧
      module.sourcePath = relativePath base e ∧ compileEntry compile base e = .ok module.bytecode

variable (dir base : Path) (tree : Tree) (c : Bytes) (entries : List Entry) (e : Entry)

@[simp] theorem join_single : joinPath [c] = c := by
  simp [joinPath,intercalate]

@[simp] theorem join_cons (d : Bytes) (path : Path) :
    joinPath (c::d::path) = c++kSlash::joinPath (d::path) := by
  simp [joinPath,intercalate]

theorem join_concat (last : Bytes) : joinPath (dir++[c])++last = joinPath (dir++[c++last]) := by
  induction dir with
  | nil => simp
  | cons d dir ih =>
    cases dir with
    | nil => simp
    | cons d' dir => simpa using ih

theorem join_below (h : dir ≠ []) : joinPath (dir++[c]) = joinPath dir++kSlash::c := by
  induction dir with
  | nil => exact absurd rfl h
  | cons d dir ih =>
    cases dir with
    | nil => simp
    | cons d' dir => simpa using ih (cons_ne_nil _ _)

theorem piece_mem {path : Path} {c : Bytes} {b : UInt8} (hc : c ∈ path) (hb : b ∈ c) :
    b ∈ joinPath path := by
  induction path with
  | nil => exact absurd hc not_mem_nil
  | cons d path ih =>
    cases path with
    | nil => simpa using mem_singleton.mp hc ▸ hb
    | cons d' path =>
      obtain rfl | hc := mem_cons.mp hc
      · simp [hb]
      · simp [ih hc]

theorem mem_join {path : Path} {b : UInt8} (h : b ∈ joinPath path) :
    b = kSlash ∨ ∃ c ∈ path, b ∈ c := by
  induction path with
  | nil => simp [joinPath,intercalate] at h
  | cons c path ih =>
    cases path with
    | nil => exact .inr ⟨c,mem_cons_self,by simpa using h⟩
    | cons c' path =>
      simp only [join_cons,mem_append,mem_cons] at h
      obtain hb | hb | hb := h
      · exact .inr ⟨c,mem_cons_self,hb⟩
      · exact .inl hb
      · obtain hs | ⟨d,hd,hm⟩ := ih hb
        · exact .inl hs
        · exact .inr ⟨d,mem_cons_of_mem _ hd,hm⟩

theorem split_join {path : Path} (hn : path ≠ []) (h : ∀ c ∈ path, kSlash ∉ c) :
    (joinPath path).splitOn kSlash = path :=
  splitOn_intercalate kSlash h hn

theorem exists_pieces (text : Bytes) :
    ∃ path : Path, path ≠ [] ∧ (∀ c ∈ path, kSlash ∉ c) ∧ joinPath path = text := by
  induction text with
  | nil => exact ⟨[[]],by simp,by simp,by simp⟩
  | cons b text ih =>
    obtain ⟨path,hn,hs,hj⟩ := ih
    obtain ⟨c,path,rfl⟩ := exists_cons_of_ne_nil hn
    by_cases hb : b = kSlash
    · refine ⟨[]::c::path,by simp,?_,by simp [hj,hb]⟩
      intro d hd
      obtain rfl | hd := mem_cons.mp hd
      · exact not_mem_nil
      · exact hs d hd
    · refine ⟨(b::c)::path,by simp,?_,?_⟩
      · intro d hd
        obtain rfl | hd := mem_cons.mp hd
        · simpa [Ne.symm hb] using hs c mem_cons_self
        · exact hs d (mem_cons_of_mem _ hd)
      · cases path <;> simpa using hj

theorem replace_absent {old : UInt8} (new : UInt8) {text : Bytes} (h : old ∉ text) :
    replace old new text = text := by
  rw [replace]
  conv_rhs => rw [← map_id text]
  apply map_congr_left
  intro c hc
  simp [show c ≠ old from fun e => h (e ▸ hc)]

theorem replace_back {new : UInt8} (old : UInt8) {text : Bytes} (h : new ∉ text) :
    replace new old (replace old new text) = text := by
  rw [replace,replace,map_map]
  conv_rhs => rw [← map_id text]
  apply map_congr_left
  intro c hc
  have hc' : c ≠ new := fun e => h (e ▸ hc)
  by_cases hold : c = old <;> simp [hold,hc']

theorem replaced_gone (old new : UInt8) (text : Bytes) (h : old ≠ new) :
    old ∉ replace old new text := by
  intro hm
  obtain ⟨c,_,hc⟩ := mem_map.mp hm
  by_cases hold : c = old
  · simp [hold] at hc
    exact h hc.symm
  · simp [hold] at hc

theorem mem_replace (old new b : UInt8) (text : Bytes) (h : b ∈ replace old new text)
    (hn : b ≠ new) : b ∈ text := by
  obtain ⟨c,hm,hc⟩ := mem_map.mp h
  by_cases hold : c = old
  · simp [hold] at hc
    exact absurd hc.symm hn
  · simp [hold] at hc
    exact hc ▸ hm

/-- A script whose path has no dot but the one of its extension, and no backslash. -/
structure Script where
  dir : Path
  stem : Bytes
  whole : ∀ c ∈ dir++[stem], c ≠ [] ∧ kSlash ∉ c
  plain : ∀ c ∈ dir++[stem], kDot ∉ c ∧ kBackslash ∉ c

def Script.path (script : Script) : Path := script.dir++[script.stem++str ".lua"]

def Script.words (script : Script) : Path :=
  if script.stem = str "init" ∧ script.dir ≠ [] then script.dir else script.dir++[script.stem]

theorem strip_extension (text : Bytes) : stripSuffix (str ".lua") (text++str ".lua") = text := by
  simp [stripSuffix]

variable {dir}

theorem init_piece {stem text : Bytes} (h : ∀ c ∈ dir++[stem], kSlash ∉ c)
    (hi : joinPath (dir++[stem]) = text++str "/init") : stem = str "init" ∧ dir ≠ [] := by
  obtain ⟨path,hn,hs,rfl⟩ := exists_pieces text
  have hj : joinPath path++str "/init" = joinPath (path++[str "init"]) :=
    (join_below path _ hn).symm
  have hp : dir++[stem] = path++[str "init"] := by
    rw [← split_join (by simp) h,hi,hj]
    apply split_join (by simp)
    intro c hc
    obtain hc | hc := mem_append.mp hc
    · exact hs c hc
    · rw [mem_singleton.mp hc]
      decide
  have hpr := append_inj hp (by simpa using congrArg length hp)
  exact ⟨by simpa using hpr.2,hpr.1 ▸ hn⟩

theorem init_suffix (scr : Script) :
    str "/init" <:+ joinPath (scr.dir++[scr.stem]) ↔ scr.stem = str "init" ∧ scr.dir ≠ [] := by
  constructor
  · rintro ⟨text,ht⟩
    exact init_piece (fun c hc => (scr.whole c hc).2) ht.symm
  · rintro ⟨hs,hd⟩
    rw [hs,join_below _ _ hd]
    exact ⟨joinPath scr.dir,rfl⟩

theorem join_nonempty {path : Path} (hn : path ≠ []) (h : ∀ c ∈ path, c ≠ []) :
    0 < (joinPath path).length := by
  obtain ⟨c,rest,rfl⟩ := exists_cons_of_ne_nil hn
  obtain ⟨b,c,rfl⟩ := exists_cons_of_ne_nil (h c mem_cons_self)
  exact length_pos_of_mem (piece_mem mem_cons_self mem_cons_self)

theorem module_name_script (scr : Script) :
    moduleNameForPath (joinPath scr.path) = replace kSlash kDot (joinPath scr.words) := by
  have hj : joinPath scr.path = joinPath (scr.dir++[scr.stem])++str ".lua" :=
    (join_concat _ _ _).symm
  have hbc : kBackslash ∉ joinPath scr.path := by
    intro hb
    rw [hj,mem_append] at hb
    obtain hb | hb := hb
    · obtain hsl | ⟨c,hc,hb⟩ := mem_join hb
      · exact absurd hsl (by decide)
      · exact (scr.plain c hc).2 hb
    · exact absurd hb (by decide)
  rw [moduleNameForPath,replace_absent _ hbc,hj,strip_extension]
  by_cases hi : scr.stem = str "init" ∧ scr.dir ≠ []
  · have hs := (init_suffix scr).mpr hi
    have hbl := join_below scr.dir scr.stem hi.2
    have hsm := join_nonempty hi.2 (fun c hc => (scr.whole c (mem_append_left _ hc)).1)
    have hl : (str "/init").length < (joinPath (scr.dir++[scr.stem])).length := by
      rw [hbl,hi.1,length_append]
      simp only [str,length_map,length_cons]
      simp
      omega
    rw [if_pos ⟨hl,hs⟩,Script.words,if_pos hi,hbl,hi.1]
    congr 1
    exact take_left' (by rw [length_append]; exact (Nat.add_sub_cancel _ _).symm)
  · rw [if_neg (fun h => hi ((init_suffix scr).mp h.2)),Script.words,if_neg hi]
    by_cases hn : joinPath (scr.dir++[scr.stem]) = str "init"
    · rw [if_pos hn,hn]
      decide
    · rw [if_neg hn]

theorem split_path {path : Path} (h : ∀ c ∈ path, c ≠ [] ∧ kSlash ∉ c) (hn : path ≠ []) :
    splitPath (joinPath path) = path := by
  rw [splitPath,split_join hn (fun c hc => (h c hc).2),filter_eq_self]
  intro c hc
  simpa using (h c hc).1

variable {c}

theorem candidates_words (h : ∀ d ∈ dir++[c], d ≠ [] ∧ kSlash ∉ d)
    (hdt : ∀ d ∈ dir++[c], kDot ∉ d) :
    candidates (replace kSlash kDot (joinPath (dir++[c]))) =
      [dir++[c++str ".lua"],dir++[c,str "init.lua"]] := by
  have hbc : replace kDot kSlash (replace kSlash kDot (joinPath (dir++[c]))) =
      joinPath (dir++[c]) := by
    apply replace_back
    intro hb
    obtain hs | ⟨d,hd,hb⟩ := mem_join hb
    · exact absurd hs (by decide)
    · exact hdt d hd hb
  have hp : ∀ d ∈ dir++[c++str ".lua"], d ≠ [] ∧ kSlash ∉ d := by
    intro d hd
    obtain hd | hd := mem_append.mp hd
    · exact h d (mem_append_left _ hd)
    · have hc := (h c (by simp)).2
      rw [mem_singleton.mp hd]
      refine ⟨by simp [str],?_⟩
      rw [mem_append,not_or]
      exact ⟨hc,by decide⟩
  have hi : ∀ d ∈ dir++[c]++[str "init.lua"], d ≠ [] ∧ kSlash ∉ d := by
    intro d hd
    obtain hd | hd := mem_append.mp hd
    · exact h d hd
    · rw [mem_singleton.mp hd]
      decide
  rw [candidates, hbc, join_concat, split_path hp (by simp),
    show joinPath (dir++[c])++str "/init.lua" = joinPath (dir++[c]++[str "init.lua"]) from
      (join_below _ _ (by simp)).symm, split_path hi (by simp), append_assoc,
    singleton_append]

theorem name_backslash (path : Bytes) : kBackslash ∉ moduleNameForPath path := by
  have hg := replaced_gone kBackslash kSlash path (by decide)
  have hs : kBackslash ∉ stripSuffix (str ".lua") (replace kBackslash kSlash path) := by
    rw [stripSuffix]
    split_ifs
    · exact fun h => hg (mem_of_mem_take h)
    · exact hg
  rw [moduleNameForPath]
  split_ifs
  · exact fun h => hs (mem_of_mem_take (mem_replace _ _ _ _ h (by decide)))
  · decide
  · exact fun h => hs (mem_replace _ _ _ _ h (by decide))

theorem candidate_plain {name : Bytes} {path : Path} (hnm : kBackslash ∉ name)
    (h : path ∈ candidates name) :
    ∃ dir stem, path = dir++[stem++str ".lua"] ∧ (∀ c ∈ dir, c ≠ []) ∧
      ∀ c ∈ dir++[stem], kSlash ∉ c ∧ kDot ∉ c ∧ kBackslash ∉ c := by
  obtain ⟨pieces,hn,hs,hj⟩ := exists_pieces (replace kDot kSlash name)
  have hp : ∀ c ∈ pieces, kSlash ∉ c ∧ kDot ∉ c ∧ kBackslash ∉ c := by
    intro c hc
    refine ⟨hs c hc,fun hb => ?_,fun hb => ?_⟩
    · exact replaced_gone kDot kSlash name (by decide) (hj ▸ piece_mem hc hb)
    · exact hnm (mem_replace kDot kSlash _ name (hj ▸ piece_mem hc hb) (by decide))
  have hsb : ∀ (dir : Path) (c : Bytes), c ∈ dir.filter (· ≠ []) → c ≠ [] ∧ c ∈ dir := by
    intro dir c hc
    exact ⟨by simpa using (mem_filter.mp hc).2,(mem_filter.mp hc).1⟩
  simp only [candidates,mem_cons,not_mem_nil,or_false,← hj] at h
  obtain rfl | rfl := h
  · obtain ⟨dir,stem,rfl⟩ : ∃ dir stem, pieces = dir++[stem] :=
      ⟨pieces.dropLast,pieces.getLast hn,(dropLast_append_getLast hn).symm⟩
    have hf : ∀ c ∈ dir++[stem++str ".lua"], kSlash ∉ c := by
      intro c hc
      obtain hc | hc := mem_append.mp hc
      · exact hs c (mem_append_left _ hc)
      · rw [mem_singleton.mp hc,mem_append,not_or]
        exact ⟨hs stem (by simp),by decide⟩
    refine ⟨dir.filter (· ≠ []),stem,?_,fun c hc => (hsb dir c hc).1,fun c hc => ?_⟩
    · rw [splitPath,join_concat,split_join (by simp) hf,filter_append]
      simp [str]
    · obtain hc | hc := mem_append.mp hc
      · exact hp c (mem_append_left _ (hsb dir c hc).2)
      · exact hp c (mem_append_right _ hc)
  · have hf : ∀ c ∈ pieces++[str "init.lua"], kSlash ∉ c := by
      intro c hc
      obtain hc | hc := mem_append.mp hc
      · exact hs c hc
      · rw [mem_singleton.mp hc]
        decide
    refine ⟨pieces.filter (· ≠ []),str "init",?_,fun c hc => (hsb pieces c hc).1,fun c hc => ?_⟩
    · rw [splitPath, show joinPath pieces++str "/init.lua" = joinPath (pieces++[str "init.lua"])
        from (join_below _ _ hn).symm, split_join (by simp) hf, filter_append]
      rfl
    · obtain hc | hc := mem_append.mp hc
      · exact hp c (hsb pieces c hc).2
      · rw [mem_singleton.mp hc]
        decide

/-- Beside the directory of an `init.lua` lies a script of its name. -/
def Shadowed (entries : List Entry) (path : Path) : Prop :=
  ∃ parent name, path = parent++[name,str "init.lua"] ∧
    ∃ e ∈ entries, e.path = parent++[name++str ".lua"]

def Plain (path : Path) : Prop := ∃ script : Script, script.path = path

variable {tree}

theorem entry_at (he : e ∈ tree.entries) : entryAt tree.entries e.path = some e := by
  obtain ⟨other,ho⟩ : ∃ other, entryAt tree.entries e.path = some other :=
    Option.isSome_iff_exists.mp (find?_isSome.mpr ⟨e,he,by simp⟩)
  have hp : other.path = e.path := by simpa using find?_some ho
  rw [ho,inj_on_of_nodup_map tree.nodup (mem_of_find?_eq_some ho) he hp]

theorem entry_at_path {path : Path} {e : Entry} (h : entryAt entries path = some e) :
    e ∈ entries ∧ e.path = path :=
  ⟨mem_of_find?_eq_some h,by simpa using find?_some h⟩

theorem script_candidates (scr : Script) :
    candidates (moduleNameForPath (joinPath scr.path)) =
      if scr.stem = str "init" ∧ scr.dir ≠ [] then
        [scr.dir.dropLast++[scr.dir.getLastD []++str ".lua"],scr.path]
      else [scr.path,scr.dir++[scr.stem,str "init.lua"]] := by
  rw [module_name_script,Script.words]
  by_cases hi : scr.stem = str "init" ∧ scr.dir ≠ []
  · obtain ⟨parent,name,hd⟩ : ∃ parent name, scr.dir = parent++[name] :=
      ⟨_,_,(dropLast_append_getLast hi.2).symm⟩
    have hm : ∀ c ∈ parent++[name], c ∈ scr.dir++[scr.stem] :=
      fun c hc => mem_append_left _ (hd ▸ hc)
    rw [if_pos hi,if_pos hi,Script.path,hi.1,hd,
      candidates_words (fun c hc => scr.whole c (hm c hc)) (fun c hc => (scr.plain c (hm c hc)).1)]
    simp [str]
  · rw [if_neg hi,if_neg hi,candidates_words scr.whole (fun c hc => (scr.plain c hc).1)]
    rfl

/-- A script is shadowed only if it is the `init.lua` of a directory. -/
theorem shadowed_iff (scr : Script) :
    Shadowed entries scr.path ↔
      (scr.stem = str "init" ∧ scr.dir ≠ []) ∧
        ∃ e ∈ entries, e.path = scr.dir.dropLast++[scr.dir.getLastD []++str ".lua"] := by
  have hl : ∀ stem, stem++str ".lua" = str "init.lua" ↔ stem = str "init" := by
    intro stem
    rw [show str "init.lua" = str "init"++str ".lua" from rfl,append_left_inj]
  constructor
  · rintro ⟨parent,name,hp,ht⟩
    have hs : scr.dir++[scr.stem++str ".lua"] = (parent++[name])++[str "init.lua"] := by
      rw [← Script.path,hp]
      simp
    obtain ⟨hd,hf⟩ := append_inj' hs rfl
    have hst := (hl scr.stem).mp (singleton_injective hf)
    rw [hd]
    exact ⟨⟨hst,by simp⟩,by simpa using ht⟩
  · rintro ⟨⟨hst,hd⟩,ht⟩
    obtain ⟨parent,name,hs⟩ : ∃ parent name, scr.dir = parent++[name] :=
      ⟨_,_,(dropLast_append_getLast hd).symm⟩
    refine ⟨parent,name,?_,by simpa [hs] using ht⟩
    rw [Script.path,hst,hs]
    simp [str]

theorem search_script (he : e ∈ tree.entries) {scr : Script} (hs : scr.path = e.path) :
    search tree (moduleName e) = some e ↔ ¬Shadowed tree.entries e.path := by
  have hat := entry_at e he
  have hc := script_candidates scr
  rw [search,moduleName,← hs,hc,shadowed_iff]
  rw [← hs] at hat
  by_cases hi : scr.stem = str "init" ∧ scr.dir ≠ []
  · rw [if_pos hi,findSome?_cons]
    cases ho : entryAt tree.entries (scr.dir.dropLast++[scr.dir.getLastD []++str ".lua"]) with
    | none =>
      have hn := find?_eq_none.mp ho
      simp only [findSome?_cons,hat,true_iff]
      rintro ⟨_,other,hm,hp⟩
      exact hn other hm (by simpa using hp)
    | some other =>
      obtain ⟨hm,hp⟩ := entry_at_path _ ho
      have hl : other.path.length < e.path.length := by
        have := length_pos_iff.mpr hi.2
        rw [hp,← hs,Script.path]
        simp
        omega
      constructor
      · intro hsm
        rw [Option.some.inj hsm] at hl
        exact absurd hl (lt_irrefl _)
      · intro hnt
        exact absurd ⟨hi,other,hm,hp⟩ hnt
  · rw [if_neg hi,findSome?_cons,hat]
    simp [hi]

theorem search_own_iff (he : e ∈ tree.entries) (hex : HasLuaExtension (e.path.getLastD [])) :
    search tree (moduleName e) = some e ↔ Plain e.path ∧ ¬Shadowed tree.entries e.path := by
  constructor
  · intro hf
    obtain ⟨path,hp,hat⟩ := exists_of_findSome?_eq_some hf
    have hsm := (entry_at_path _ hat).2
    obtain ⟨dir,stem,hsp,hd,hpl⟩ := candidate_plain (name_backslash _) hp
    have hst : stem ≠ [] := by
      rintro rfl
      apply hex.2
      rw [hsm,hsp]
      simp
    have hw : ∀ c ∈ dir++[stem], c ≠ [] ∧ kSlash ∉ c := by
      intro c hc
      refine ⟨?_,(hpl c hc).1⟩
      obtain hc | hc := mem_append.mp hc
      · exact hd c hc
      · rwa [mem_singleton.mp hc]
    have hs : Plain e.path := ⟨⟨dir,stem,hw,fun c hc => (hpl c hc).2⟩,(hsm.trans hsp).symm⟩
    obtain ⟨scr,hp⟩ := hs
    exact ⟨⟨scr,hp⟩,(search_script e he hp).mp hf⟩
  · rintro ⟨⟨scr,hs⟩,hsh⟩
    exact (search_script e he hs).mpr hsh

theorem preloaded_add (bundle : LuaBundle) (name sourcePath bytecode other : Bytes) :
    (bundle.addModule name sourcePath bytecode).preloaded other =
      if other = name then some ⟨name,sourcePath,bytecode⟩ else bundle.preloaded other := by
  rw [LuaBundle.preloaded,LuaBundle.preloaded,LuaBundle.addModule]
  dsimp only
  induction bundle.modules with
  | nil =>
    by_cases h : other = name <;> simp [NamedRows.upsert,h,eq_comm]
  | cons module modules ih =>
    by_cases hn : module.name = name
    · by_cases h : other = name
      · simp [NamedRows.upsert,hn,h]
      · simp [NamedRows.upsert,hn,h,eq_comm]
    · by_cases h : module.name = other
      · simp [NamedRows.upsert,h,h ▸ hn]
      · simp only [NamedRows.upsert,hn,decide_false,if_false,Bool.false_eq_true,find?_cons,h]
        exact ih

def lastNamed (base : Path) (entries : List Entry) (name : Bytes) : Option Entry :=
  (entries.filter (fun e => Compiled base e ∧ moduleName e = name)).getLast?

theorem last_named_cons (ens : List Entry) (name : Bytes) :
    lastNamed base (e::ens) name =
      (lastNamed base ens name).or
        (if Compiled base e ∧ moduleName e = name then some e else none) := by
  rw [lastNamed,lastNamed]
  by_cases h : Compiled base e ∧ moduleName e = name
  · rw [filter_cons_of_pos (by simpa using h),if_pos h]
    generalize ens.filter _ = rest
    cases rest with
    | nil => rfl
    | cons r rest =>
      rw [getLast?_cons_cons,getLast?_eq_some_getLast (cons_ne_nil r rest)]
      rfl
  · rw [filter_cons_of_neg (by simpa using h),if_neg h,Option.or_none]

variable {base}

theorem last_named_mem {name : Bytes} {e : Entry} (h : lastNamed base entries name = some e) :
    e ∈ entries ∧ Compiled base e ∧ moduleName e = name := by
  have hm := mem_filter.mp (mem_of_getLast? h)
  exact ⟨hm.1,by simpa using hm.2⟩

theorem entries_preloaded (compile : Compiler) (base : Path) (ens : List Entry)
    (bundle result : LuaBundle) (name : Bytes)
    (h : compileEntries compile base bundle ens = .ok result) :
    match lastNamed base ens name with
    | none => result.preloaded name = bundle.preloaded name
    | some e => ∃ bytecode, compileEntry compile base e = .ok bytecode ∧
        result.preloaded name = some ⟨name,relativePath base e,bytecode⟩ := by
  induction ens generalizing bundle with
  | nil =>
    rw [Except.ok.inj h]
    rfl
  | cons e ens ih =>
    rw [compileEntries] at h
    rw [last_named_cons]
    by_cases hc : Compiled base e
    · rw [if_pos hc] at h
      cases hcd : compileEntry compile base e with
      | error error =>
        rw [hcd] at h
        cases h
      | ok bytecode =>
        rw [hcd] at h
        have hr := ih _ h
        rw [preloaded_add] at hr
        cases hl : lastNamed base ens name with
        | some last =>
          rw [hl] at hr
          exact hr
        | none =>
          rw [hl] at hr
          by_cases hn : moduleName e = name
          · rw [if_pos hn.symm] at hr
            simp only [hc,hn,and_self,if_true,Option.none_or]
            exact ⟨bytecode,hcd,hn ▸ hr⟩
          · rw [if_neg (Ne.symm hn)] at hr
            simp only [hn,and_false,if_false,Option.none_or]
            exact hr
    · rw [if_neg hc] at h
      simp only [hc,false_and,if_false,Option.or_none]
      exact ih bundle h

theorem stage_walked {compile : Compiler} {base : Path} {tree : Tree} {entryPath : Path}
    {bundle : LuaBundle} (h : compileStage compile base tree entryPath = .ok bundle) :
    ∃ walked, compileEntries compile base LuaBundle.empty tree.entries = .ok walked ∧
      ∀ name, bundle.preloaded name = walked.preloaded name := by
  rw [compileStage] at h
  cases hw : compileEntries compile base LuaBundle.empty tree.entries with
  | error failure =>
    rw [hw] at h
    cases h
  | ok walked =>
    rw [hw] at h
    change (if _ then _ else _) = _ at h
    split_ifs at h with hn he
    exact ⟨walked,rfl,fun name => by rw [← Except.ok.inj h]; rfl⟩

variable {e}

theorem relative_injective {other : Entry} (he : e ∈ tree.entries) (ho : other ∈ tree.entries)
    (hbs : Compiled base e) (hb : Compiled base other)
    (h : relativePath base e = relativePath base other) : e = other := by
  have hp : ∀ e ∈ tree.entries, Compiled base e →
      (relativePath base e).splitOn kSlash = e.path.drop base.length := by
    intro e he hcm
    apply split_join
    · exact ne_nil_of_length_pos (by
        rw [length_drop]
        have := hcm.1.2.2
        omega)
    · exact fun c hc => (tree.named e he c (mem_of_mem_drop hc)).2
  have hd : e.path.drop base.length = other.path.drop base.length := by
    rw [← hp e he hbs,h,hp other ho hb]
  obtain ⟨rest,hrs⟩ := hbs.1.2.1
  obtain ⟨rest',hr⟩ := hb.1.2.1
  rw [← hrs,← hr,drop_left,drop_left] at hd
  exact inj_on_of_nodup_map tree.nodup he ho (by rw [← hrs,← hr,hd])

/-- Bundle and interpreter agree on a name just when the file compiled last under it has a
path free of other dots and of backslashes and is not shadowed, or when there is none and the
interpreter finds none either. -/
theorem require_agrees_iff (compile : Compiler) (base : Path) (tree : Tree) (entryPath : Path)
    (bundle : LuaBundle) (h : compileStage compile base tree entryPath = .ok bundle)
    (name : Bytes) :
    Agrees compile base tree bundle name ↔
      match lastNamed base tree.entries name with
      | none => search tree name = none
      | some e => Plain e.path ∧ ¬Shadowed tree.entries e.path := by
  obtain ⟨walked,hw,hp⟩ := stage_walked h
  have hl := entries_preloaded _ base _ _ _ name hw
  rw [Agrees,hp name]
  cases hn : lastNamed base tree.entries name with
  | none =>
    rw [hn] at hl
    rw [hl]
    rfl
  | some e =>
    rw [hn] at hl
    obtain ⟨bytecode,hcd,hf⟩ := hl
    obtain ⟨hm,hc,hnm⟩ := last_named_mem _ hn
    rw [hf]
    dsimp only
    rw [← search_own_iff e hm hc.2.1,hnm]
    constructor
    · rintro ⟨other,hs,ho,hpt,_⟩
      obtain ⟨path,_,hat⟩ := List.exists_of_findSome?_eq_some hs
      rw [relative_injective hm (entry_at_path _ hat).1 hc ho hpt]
      exact hs
    · intro hs
      exact ⟨e,hs,hc,rfl,hcd⟩

def signing : Compiler := fun source _ => .ok (LuaBundle.kSignature++source)

/-- A script and the directory of its name with an `init.lua`, in this order of the walk. -/
def twice : Tree where
  entries := [⟨[str "main.lua"],some (str "1")⟩,⟨[str "a.lua"],some (str "2")⟩,⟨[str "a"],none⟩,
    ⟨[str "a",str "init.lua"],some (str "3")⟩]
  nodup := by decide
  named := by decide

/-- The bundle serves `a/init.lua` where the interpreter loads `a.lua`. -/
theorem other_file_bundled :
    ∃ bundle, compileStage signing [] twice [str "main.lua"] = .ok bundle ∧
      bundle.preloaded (str "a") = some ⟨str "a",str "a/init.lua",LuaBundle.kSignature++str "3"⟩ ∧
      search twice (str "a") = some ⟨[str "a.lua"],some (str "2")⟩ ∧
      ¬Agrees signing [] twice bundle (str "a") := by
  refine ⟨⟨[⟨str "main",str "main.lua",LuaBundle.kSignature++str "1"⟩,
    ⟨str "a",str "a/init.lua",LuaBundle.kSignature++str "3"⟩],str "main"⟩,by decide,by decide,
    by decide,?_⟩
  rintro ⟨e,hs,_,hp,_⟩
  have he : e = ⟨[str "a.lua"],some (str "2")⟩ := by
    rw [show search twice (str "a") = some ⟨[str "a.lua"],some (str "2")⟩ by decide] at hs
    exact (Option.some.inj hs).symm
  rw [he] at hp
  exact absurd hp (by decide)

def nested : Tree where
  entries := [⟨[str "main.lua"],some (str "1")⟩,⟨[str "a"],none⟩,
    ⟨[str "a",str "init.lua"],some (str "3")⟩]
  nodup := by decide
  named := by decide

theorem nested_agrees :
    Agrees signing [] nested
      ⟨[⟨str "main",str "main.lua",LuaBundle.kSignature++str "1"⟩,
        ⟨str "a",str "a/init.lua",LuaBundle.kSignature++str "3"⟩],str "main"⟩ (str "a") := by
  refine (require_agrees_iff signing [] nested [str "main.lua"] _ (by decide) (str "a")).mpr ?_
  have hls : lastNamed [] nested.entries (str "a") =
      some ⟨[str "a",str "init.lua"],some (str "3")⟩ := by decide
  rw [hls]
  refine ⟨⟨⟨[str "a"],str "init",by decide,by decide⟩,rfl⟩,?_⟩
  rintro ⟨parent,name,hp,e,he,ho⟩
  have hl := congrArg List.length hp
  simp at hl
  rw [hl,List.nil_append] at hp ho
  rw [show name = str "a" from ((List.cons.inj hp).1).symm] at ho
  have hn : ∀ e ∈ nested.entries, e.path ≠ [str "a"++str ".lua"] := by decide
  exact hn e he ho

end Lua
end EMaster
