import EMaster.PluginLifecycle
import EMaster.PluginUpload
import EMaster.Runs

/-!
# What a scan of the plugin root finds

The containment of an entry is decided on the texts of two canonical paths. A manifest that is
rejected is recorded under what its result still carries.
-/

set_option autoImplicit false

namespace EMaster.Plugins
open FileTree PathWalk FileOps Confinement List Function
open PluginLifecycle (PluginState)

/-- A location as the file system has it. -/
def Clean (l : Loc) : Prop := ∀ n ∈ l, isName n = true ∧ '/' ∉ n

instance (l : Loc) : Decidable (Clean l) :=
  inferInstanceAs (Decidable (∀ n ∈ l, isName n = true ∧ '/' ∉ n))

def StrictlyInside (directory entry : Loc) : Prop := directory <+: entry ∧ directory ≠ entry

/-- The entry lies below a directory whose name continues that of the plugin's directory. -/
def Beside (directory entry : Loc) : Prop :=
  ∃ parent name suffix rest, suffix ≠ [] ∧ directory = parent++[name] ∧
    entry = parent++(name++suffix)::rest

def flat (l : Loc) : Text := l.flatMap (fun n => '/' :: n)

theorem flat_head (l : Loc) (c : Char) (text : Text) (h : flat l = c::text) : c = '/' := by
  cases l with
  | nil => cases h
  | cons n l => exact (cons.inj h).1.symm

/-- A name in front of the text of a location is a part of the other text's first name, or all
of it. -/
theorem name_start (n m : Text) (l k : Loc) (hn : '/' ∉ n) (hm : '/' ∉ m)
    (h : n++flat l <+: m++flat k) : l = [] ∧ n <+: m ∨ n = m ∧ flat l <+: flat k := by
  induction n generalizing m with
  | nil =>
    cases m with
    | nil => exact .inr ⟨rfl,h⟩
    | cons c m =>
      cases l with
      | nil => exact .inl ⟨rfl, nil_prefix⟩
      | cons x l =>
        have hc := (cons_prefix_cons.mp h).1
        exact absurd (hc ▸ mem_cons_self) hm
  | cons c n ih =>
    cases m with
    | nil =>
      obtain ⟨rest,hr⟩ := h
      have hc := flat_head k c _ hr.symm
      exact absurd (hc ▸ mem_cons_self) hn
    | cons d m =>
      obtain ⟨rfl,ht⟩ := cons_prefix_cons.mp h
      rcases ih m (fun hx => hn (mem_cons_of_mem _ hx))
        (fun hx => hm (mem_cons_of_mem _ hx)) ht with ⟨hl,hp⟩ | ⟨rfl,hp⟩
      · exact .inl ⟨hl,cons_prefix_cons.mpr ⟨rfl,hp⟩⟩
      · exact .inr ⟨rfl,hp⟩

theorem flat_start (l k : Loc) (hl : Clean l) (hk : Clean k) (h : flat l <+: flat k) :
    l <+: k ∨ Beside l k := by
  induction l generalizing k with
  | nil => exact .inl nil_prefix
  | cons n l ih =>
    cases k with
    | nil => exact absurd (prefix_nil.mp h) (cons_ne_nil _ _)
    | cons m k =>
      rcases name_start n m l k (hl n mem_cons_self).2 (hk m mem_cons_self).2
        (cons_prefix_cons.mp h).2 with ⟨rfl,suffix,rfl⟩ | ⟨rfl,hp⟩
      · cases suffix with
        | nil => exact .inl ⟨k,by simp⟩
        | cons c suffix => exact .inr ⟨[],n,c::suffix,k,cons_ne_nil _ _,rfl,rfl⟩
      · rcases ih k (fun x hx => hl x (mem_cons_of_mem _ hx))
          (fun x hx => hk x (mem_cons_of_mem _ hx)) hp with hp | ⟨p,x,s,r,hs,rfl,rfl⟩
        · exact .inl (cons_prefix_cons.mpr ⟨rfl,hp⟩)
        · exact .inr ⟨n::p,x,s,r,hs,rfl,rfl⟩

theorem not_escapes {dir entry : Loc} (hd : Clean dir) (he : Clean entry)
    (h : escapes dir entry = false) : StrictlyInside dir entry ∨ Beside dir entry := by
  rw [escapes,Bool.or_eq_false_iff,decide_eq_false_iff_not,Bool.not_eq_false',
    isPrefixOf_iff_prefix] at h
  obtain ⟨hl,hp⟩ := h
  have hne : dir ≠ entry := by
    rintro rfl
    exact hl le_rfl
  cases entry with
  | nil =>
    cases dir with
    | nil => exact absurd rfl hne
    | cons n dir => exact absurd (by simp [locText]) hl
  | cons m entry =>
    cases dir with
    | nil => exact .inl ⟨ nil_prefix,hne⟩
    | cons n dir =>
      exact (flat_start _ _ hd he hp).imp_left (fun hp => ⟨hp,hne⟩)

theorem split_free {text : Text} : ∀ c ∈ splitOn '/' text, '/' ∉ c := by
  induction text with
  | nil => simp
  | cons x text ih =>
    intro c hc
    rw [splitOn_cons_eq_if_modifyHead] at hc
    split_ifs at hc with hx
    · rcases mem_cons.mp hc with rfl | hc
      · exact not_mem_nil
      · exact ih c hc
    · cases hs : splitOn '/' text with
      | nil =>
        rw [hs] at hc
        exact absurd hc not_mem_nil
      | cons p ps =>
        rw [hs] at hc ih
        rcases mem_cons.mp hc with rfl | hc
        · rw [mem_cons,not_or]
          exact ⟨fun he => hx (by rw [← he]; rfl),ih p mem_cons_self⟩
        · exact ih c (mem_cons_of_mem _ hc)

theorem clean_walk (l : Loc) (cs : List Text) (hl : Clean l) (hc : ∀ c ∈ cs, '/' ∉ c) :
    Clean (walk l cs) := by
  induction cs generalizing l with
  | nil => exact hl
  | cons c cs ih =>
    refine ih _ ?_ (fun x hx => hc x (mem_cons_of_mem _ hx))
    rw [step]
    split_ifs with h1 h2
    · exact hl
    · exact fun n hn => hl n (mem_of_mem_dropLast hn)
    · intro n hn
      rcases mem_append.mp hn with hn | hn
      · exact hl n hn
      · rw [mem_singleton.mp hn]
        exact ⟨by simp [isName,not_or.mp h1,h2],hc c mem_cons_self⟩

theorem clean_join {dir : Loc} (hd : Clean dir) (text : Text) :
    Clean (FsPath.join ⟨dir,false⟩ text).target := by
  refine clean_walk [] _ (fun _ hn => absurd hn not_mem_nil) fun c hc => ?_
  rw [FsPath.join] at hc
  split_ifs at hc with ha hf
  · exact split_free c hc
  · cases hf
  · rcases mem_append.mp hc with hc | hc
    · exact (hd c hc).2
    · exact split_free c hc

variable (host : Host) (t : Tree) (directory : Loc)

theorem load_manifest_cases :
    (∃ e message, loadManifest host t directory = fail e message) ∨
    ∃ m, loadManifest host t directory = checkLoaded t directory (validateManifest host m) := by
  rw [loadManifest]
  cases readFile t ⟨directory++["manifest.json".toList],false⟩ with
  | none => exact .inl ⟨_,_,rfl⟩
  | some content =>
    dsimp only
    split_ifs
    · exact .inl ⟨_,_,rfl⟩
    · cases host.codec.readStream content with
      | error what => exact .inl ⟨_,_,rfl⟩
      | ok j =>
        dsimp only
        split_ifs
        · exact .inr ⟨_,rfl⟩
        · exact .inl ⟨_,_,rfl⟩

theorem loaded_contained (h : (loadManifest host t directory).ok = true) :
    escapes directory (FsPath.join ⟨directory,false⟩
      (loadManifest host t directory).manifest.entry).target = false := by
  rcases load_manifest_cases host t directory with ⟨e,message,he⟩ | ⟨m,hj⟩
  · rw [he] at h
    cases h
  · rw [hj] at h ⊢
    have hc := check_loaded_ok h
    rw [hc]
    rw [hc] at h
    rw [checkLoaded,if_pos h,checkEntry] at hc
    by_contra hne
    rw [if_pos (Bool.not_eq_false _ ▸ hne)] at hc
    rw [← hc] at h
    cases h

/-- The entry of an accepted manifest lies inside the plugin's directory, unless it lies below
one beside it whose name begins with the name of the plugin's. -/
theorem accepted_inside_iff (hd : Clean directory) (h : (loadManifest host t directory).ok = true) :
    StrictlyInside directory (FsPath.join ⟨directory,false⟩
        (loadManifest host t directory).manifest.entry).target ↔
      ¬Beside directory (FsPath.join ⟨directory,false⟩
        (loadManifest host t directory).manifest.entry).target := by
  constructor
  · rintro ⟨hp,_⟩ ⟨parent,name,suffix,rest,hs,rfl,he⟩
    rw [he] at hp
    have hn := (cons_prefix_cons.mp (prefix_append_right_inj parent |>.mp hp)).1
    exact hs (self_eq_append_right.mp hn)
  · intro hn
    exact (not_escapes hd (clean_join hd _) (loaded_contained host t _ h)).resolve_right hn

def siblingManifest : Json :=
  .obj [("id",.str "a.b"),("name",.str "n"),
    ("version",.str "1"),("api_version",.str "1.0"),
    ("entry",.str "../px/lib")]

def siblingHost : Host :=
  { bareHost with codec := ⟨fun _ => .ok siblingManifest,fun _ => .ok siblingManifest,fun _ => []⟩ }

/-- Two directories side by side, one with a manifest and the other with a library. -/
def siblings : Tree :=
  writeFile (writeFile (span [["p"],["px"]])
    ⟨["p","manifest.json"],false⟩ ['m']) ⟨["px","lib"],false⟩ ['b']

theorem sibling_entry_accepted :
    (loadManifest siblingHost siblings ["p".toList]).ok = true ∧
      (FsPath.join ⟨["p".toList],false⟩
        (loadManifest siblingHost siblings ["p".toList]).manifest.entry).target =
          ["px".toList,"lib".toList] := by
  decide +kernel

theorem sibling_entry_outside :
    Clean ["p"] ∧ (loadManifest siblingHost siblings ["p"]).ok = true ∧
      (StrictlyInside ["p"] (FsPath.join ⟨["p"],false⟩
          (loadManifest siblingHost siblings ["p"]).manifest.entry).target ↔
        ¬Beside ["p"] (FsPath.join ⟨["p"],false⟩
          (loadManifest siblingHost siblings ["p"]).manifest.entry).target) := by
  have hc : Clean ["p"] := by decide
  have ho : (loadManifest siblingHost siblings ["p"]).ok = true := by decide +kernel
  exact ⟨hc,ho,accepted_inside_iff _ _ _ hc ho⟩

/-! ## The records of rejected manifests -/

structure PluginRecord where
  manifest : Manifest
  state : PluginState
  lastError : Text

abbrev Records := Text → Option PluginRecord

def recordKey (m : Manifest) : Text := if m.id = [] then m.manifestPath else m.id

/-- What the records show of a result, under its key. -/
def ManifestResult.entry (r : ManifestResult) : Text×PluginRecord :=
  if r.ok then (r.manifest.id,⟨r.manifest,.VALIDATED,[]⟩)
  else (recordKey r.manifest,⟨{ r.manifest with id := recordKey r.manifest },.FAILED,
    (manifestErrorName r.error).toList++": "++r.message⟩)

def Records.up (records : Records) (r : ManifestResult) : Bool :=
  match records r.entry.1 with
  | none => false
  | some found => found.state = .RUNNING || r.ok && found.state = .ENABLED

/-- A plugin that is up keeps its record. -/
def Records.note (records : Records) (r : ManifestResult) : Records :=
  if records.up r then records else Function.update records r.entry.1 (some r.entry.2)

/-- The directories with a manifest, in the order in which the scan meets them. -/
structure Scan where
  tree : Tree
  directories : List Loc

def Scan.found (s : Scan) : List ManifestResult := s.directories.map (loadManifest host s.tree)

/-- The records and the last scan. -/
structure Manager where
  records : Records
  last : Scan

def discover (m : Manager) (s : Scan) : Manager := ⟨(s.found host).foldl Records.note m.records,s⟩

/-- The manifest in the file of a directory. -/
def declared : Option Manifest :=
  match (readFile t ⟨directory++["manifest.json".toList],false⟩).map host.codec.readStream with
  | some (.ok j) =>
    if j.isObject then
      some (parseManifest j (locText (directory++["manifest.json".toList])) (locText directory))
    else none
  | _ => none

/-- The plugin's identifier, blank if it has none. -/
def declaredId : Text := ((declared host t directory).map Manifest.id).getD []

/-- The plugin's identifier or, if it has none, the path of its manifest. -/
def ownName : Text :=
  if declaredId host t directory = [] then locText (directory++["manifest.json".toList])
  else declaredId host t directory

/-- One directory, or two with one identifier. -/
def SamePlugin (d e : Loc) : Prop :=
  d = e ∨ declaredId host t d = declaredId host t e ∧ declaredId host t d ≠ []

/-- Every directory that the last scan rejected has its own failed record under the name of its
plugin: the record tells of this directory or of a rejected one with the same identifier. No two
others share one, and there is no record without a name. -/
structure Manager.Shows (m : Manager) : Prop where
  named : m.records [] = none
  own : ∀ d ∈ m.last.directories, (loadManifest host m.last.tree d).ok = false →
    ∃ r, m.records (ownName host m.last.tree d) = some r ∧ r.state = .FAILED ∧
      ∃ e ∈ m.last.directories, (loadManifest host m.last.tree e).ok = false ∧
        SamePlugin host m.last.tree d e ∧
        r.manifest.manifestPath = locText (e++["manifest.json".toList])
  apart : ∀ d ∈ m.last.directories, ∀ e ∈ m.last.directories,
    (loadManifest host m.last.tree d).ok = false → (loadManifest host m.last.tree e).ok = false →
    ¬SamePlugin host m.last.tree d e →
    (loadManifest host m.last.tree d).entry.1 ≠ (loadManifest host m.last.tree e).entry.1

/-- The file of a directory is no larger than a manifest may be and holds an object; if the
validation has nothing against it, its entry is a file inside the directory. -/
def Legible : Prop :=
  ∃ content m, readFile t ⟨directory++["manifest.json".toList],false⟩ = some content ∧
    content.length ≤ 256*1024 ∧ declared host t directory = some m ∧
    ((validateManifest host m).ok = true →
      escapes directory (FsPath.join ⟨directory,false⟩ m.entry).target = false ∧
      (FsPath.join ⟨directory,false⟩ m.entry).endsInName = true ∧
      readFile t ⟨(FsPath.join ⟨directory,false⟩ m.entry).target,false⟩ ≠ none)

/-- The validation has something against what a directory declares. -/
def Invalid : Prop :=
  (declared host t directory).map (fun m => (validateManifest host m).ok) = some false

instance : Decidable (Invalid host t directory) := inferInstanceAs (Decidable (_ = _))

/-- All manifests are legible, and the last directory with the name of an invalid plugin is the
same plugin and invalid, too. -/
structure Scan.Telling (s : Scan) : Prop where
  legible : ∀ d ∈ s.directories, Legible host s.tree d
  last : ∀ before e after, s.directories = before++e::after →
    (∀ f ∈ after, ownName host s.tree f ≠ ownName host s.tree e) → ∀ d ∈ before,
    ownName host s.tree d = ownName host s.tree e → Invalid host s.tree d →
      Invalid host s.tree e ∧ SamePlugin host s.tree d e

theorem validate_carries (m : Manifest) :
    ∃ x, (validateManifest host m).manifest = { m with execution := x } := by
  have hw : ∃ x, withExecution m = { m with execution := x } := by
    rw [withExecution]
    split_ifs
    · exact ⟨_,rfl⟩
    · exact ⟨m.execution,rfl⟩
  rw [validateManifest]
  split
  · exact ⟨m.execution,rfl⟩
  · split_ifs
    · exact ⟨m.execution,rfl⟩
    · exact ⟨m.execution,rfl⟩
    · rw [checkApi]
      split
      · exact ⟨m.execution,rfl⟩
      · split_ifs
        · rw [checkPlatform]
          split_ifs
          · exact ⟨m.execution,rfl⟩
          · rw [check_execution_id]
            exact hw
        · exact ⟨m.execution,rfl⟩

theorem own_name_ne : ownName host t directory ≠ [] := by
  rw [ownName]
  split_ifs with h
  · rw [locText]
    split_ifs <;> simp
  · exact h

variable {host t directory}

/-- A legible manifest is what the validation makes of it. -/
theorem legible_loads (h : Legible host t directory) :
    ∃ m, declared host t directory = some m ∧
      m.manifestPath = locText (directory++["manifest.json".toList]) ∧
      loadManifest host t directory = validateManifest host m := by
  obtain ⟨content,m,hr,hs,hd,he⟩ := h
  refine ⟨m,hd,?_⟩
  rw [declared,hr,Option.map_some] at hd
  rw [loadManifest,hr]
  dsimp only
  rw [if_neg hs.not_gt]
  cases hj : host.codec.readStream content with
  | error what =>
    rw [hj] at hd
    cases hd
  | ok j =>
    rw [hj] at hd
    dsimp only at hd ⊢
    split_ifs at hd with ho
    obtain rfl := Option.some.inj hd
    refine ⟨rfl,?_⟩
    rw [if_pos ho,checkLoaded]
    split_ifs with hv
    · obtain ⟨h1,h2,h3⟩ := he hv
      obtain ⟨x,hx⟩ := validate_carries host
        (parseManifest j (locText (directory++["manifest.json".toList])) (locText directory))
      rw [checkEntry,hx]
      dsimp only
      rw [h1,if_neg Bool.false_ne_true,if_neg (not_or.mpr ⟨by rw [h2]; exact Bool.noConfusion,h3⟩)]
    · rfl

theorem legible_invalid (h : Legible host t directory) :
    (loadManifest host t directory).ok = false ↔ Invalid host t directory := by
  obtain ⟨m,hm,_,hl⟩ := legible_loads h
  rw [hl,Invalid,hm,Option.map_some,Option.some_inj]

/-- A legible plugin is recorded under its name, with the path of its manifest. -/
theorem legible_entry (h : Legible host t directory) :
    (loadManifest host t directory).entry.1 = ownName host t directory ∧
      (loadManifest host t directory).entry.2.manifest.manifestPath =
        locText (directory++["manifest.json".toList]) := by
  obtain ⟨m,hm,hp,hl⟩ := legible_loads h
  obtain ⟨x,hx⟩ := validate_carries host m
  rw [ownName,declaredId,hm,hl,ManifestResult.entry,Option.map_some,Option.getD_some,← hp]
  cases hv : (validateManifest host m).ok with
  | true =>
    -- the validation accepts no blank identifier
    have hid := validate_manifest_id hv
    rw [hx] at hid ⊢
    refine ⟨(if_neg fun hi => ?_).symm,rfl⟩
    rw [show m.id = [] from hi] at hid
    cases hid
  | false =>
    rw [hx]
    exact ⟨rfl,rfl⟩

variable {records : Records} {rs : List ManifestResult}

theorem fold_other {key : Text} (h : ∀ r ∈ rs, r.entry.1 ≠ key) :
    rs.foldl Records.note records key = records key := by
  induction rs generalizing records with
  | nil => rfl
  | cons r rs ih =>
    rw [foldl_cons,ih (fun q hq => h q (mem_cons_of_mem _ hq)),Records.note]
    split_ifs
    · rfl
    · exact update_of_ne (h r mem_cons_self).symm _ _

def Records.Idle (records : Records) : Prop :=
  ∀ key r, records key = some r → r.state ≠ .RUNNING ∧ r.state ≠ .ENABLED

theorem note_idle (h : records.Idle) (r : ManifestResult) :
    records.note r = update records r.entry.1 (some r.entry.2) ∧ (records.note r).Idle := by
  have hu : records.up r = false := by
    rw [Records.up]
    cases hf : records r.entry.1 with
    | none => rfl
    | some found => simp [h _ _ hf]
  have hn : records.note r = update records r.entry.1 (some r.entry.2) := by
    rw [Records.note,hu]
    rfl
  refine ⟨hn,fun key q hq => ?_⟩
  rw [hn] at hq
  by_cases hk : key = r.entry.1
  · rw [hk,update_self] at hq
    obtain rfl := Option.some.inj hq
    rw [ManifestResult.entry]
    split_ifs <;> simp
  · rw [update_of_ne hk] at hq
    exact h key q hq

theorem fold_idle (h : records.Idle) : (rs.foldl Records.note records).Idle := by
  induction rs generalizing records with
  | nil => exact h
  | cons r rs ih => exact ih (note_idle h r).2

theorem fold_last {before after : List ManifestResult} {r : ManifestResult} (h : records.Idle)
    (hr : rs = before++r::after) (ha : ∀ q ∈ after, q.entry.1 ≠ r.entry.1) :
    rs.foldl Records.note records r.entry.1 = some r.entry.2 := by
  rw [hr,foldl_append,foldl_cons,fold_other ha,(note_idle (fold_idle h) r).1,update_self]

theorem last_split {key : Text} (name : Loc → Text) {ds : List Loc} (h : ∃ d ∈ ds, name d = key) :
    ∃ before e after, ds = before++e::after ∧ name e = key ∧ ∀ f ∈ after, name f ≠ key := by
  induction ds with
  | nil =>
    obtain ⟨d,hd,_⟩ := h
    exact absurd hd not_mem_nil
  | cons d ds ih =>
    by_cases hl : ∃ e ∈ ds, name e = key
    · obtain ⟨before,e,after,he,hk,ha⟩ := ih hl
      exact ⟨d::before,e,after,by rw [he]; rfl,hk,ha⟩
    · obtain ⟨e,he,hk⟩ := h
      rcases mem_cons.mp he with rfl | he
      · exact ⟨[],e,ds,rfl,hk,fun f hf hfk => hl ⟨f,hf,hfk⟩⟩
      · exact absurd ⟨e,he,hk⟩ hl

theorem entry_state (r : ManifestResult) :
    r.entry.2.state = if r.ok then .VALIDATED else .FAILED := by
  rw [ManifestResult.entry]
  split_ifs <;> rfl

variable {m : Manager} {s : Scan}

theorem same_plugin_trans {d e f : Loc} (h : SamePlugin host t d f) (h' : SamePlugin host t e f) :
    SamePlugin host t d e := by
  rcases h with rfl | ⟨h,hn⟩ <;> rcases h' with rfl | ⟨h',hn'⟩
  · exact .inl rfl
  · exact .inr ⟨h'.symm,h' ▸ hn'⟩
  · exact .inr ⟨h,hn⟩
  · exact .inr ⟨h.trans h'.symm,hn⟩

theorem telling_last (h : s.Telling host) {before after : List Loc} {d e : Loc}
    (he : s.directories = before++e::after)
    (ha : ∀ f ∈ after, ownName host s.tree f ≠ ownName host s.tree e) (hd : d ∈ s.directories)
    (hn : ownName host s.tree d = ownName host s.tree e) (hv : Invalid host s.tree d) :
    Invalid host s.tree e ∧ SamePlugin host s.tree d e := by
  rw [he] at hd
  rcases mem_append.mp hd with hb | hb
  · exact h.last before e after he ha d hb hn hv
  · rcases mem_cons.mp hb with rfl | hb
    · exact ⟨hv,.inl rfl⟩
    · exact absurd hn (ha d hb)

theorem discover_shows (hi : m.records.Idle) (hm : m.records [] = none) (h : s.Telling host) :
    (discover host m s).Shows host := by
  have hk : ∀ d ∈ s.directories, (loadManifest host s.tree d).entry.1 = ownName host s.tree d :=
    fun d hd => (legible_entry (h.legible d hd)).1
  have hv : ∀ d ∈ s.directories, (loadManifest host s.tree d).ok = false →
      Invalid host s.tree d := fun d hd => (legible_invalid (h.legible d hd)).mp
  refine ⟨?_,fun d (hd : d ∈ s.directories) ho => ?_,fun d (hd : d ∈ s.directories) e
    (he : e ∈ s.directories) hdo heo hne hsame => hne ?_⟩
  · refine (fold_other fun r hr => ?_).trans hm
    obtain ⟨d,hd,rfl⟩ := mem_map.mp hr
    rw [hk d hd]
    exact own_name_ne host s.tree d
  · obtain ⟨before,e,after,he,hn,ha⟩ := last_split (ownName host s.tree) ⟨d,hd,rfl⟩
    rw [← hn] at ha
    obtain ⟨hev,hs⟩ := telling_last h he ha hd hn.symm (hv d hd ho)
    have hes : e ∈ s.directories := he ▸ mem_append_right _ mem_cons_self
    have heo := (legible_invalid (h.legible e hes)).mpr hev
    have hf : (s.found host).foldl Records.note m.records (ownName host s.tree d) =
        some (loadManifest host s.tree e).entry.2 := by
      rw [← hn,← hk e hes]
      refine fold_last hi (by rw [Scan.found,he,map_append,map_cons]) fun r hr => ?_
      obtain ⟨f,hfa,rfl⟩ := mem_map.mp hr
      rw [hk f (he ▸ mem_append_right _ (mem_cons_of_mem _ hfa)),hk e hes]
      exact ha f hfa
    exact ⟨_,hf,by rw [entry_state,heo]; rfl,e,hes,heo,hs,(legible_entry (h.legible e hes)).2⟩
  · -- both are the same plugin as the last directory with their name
    have hsame : ownName host s.tree d = ownName host s.tree e :=
      (hk d hd).symm.trans (hsame.trans (hk e he))
    obtain ⟨before,f,after,hf,hn,ha⟩ := last_split (ownName host s.tree) ⟨d,hd,rfl⟩
    rw [← hn] at ha
    exact same_plugin_trans (telling_last h hf ha hd hn.symm (hv d hd hdo)).2
      (telling_last h hf ha he (hsame.symm.trans hn.symm) (hv e he heo)).2

/-- All rejected manifests are visible after every scan, if every scan is telling. -/
theorem rejected_visible (host : Host) (scans : List Scan)
    (h : ∀ s ∈ scans, s.Telling host) (before after : List Scan) (hs : scans = before++after) :
    (Runs.run (discover host) ⟨fun _ => none,⟨span [],[]⟩⟩ before).Shows host := by
  refine (Runs.run_always (discover host) (fun _ s => s.Telling host)
    (fun m => m.records.Idle ∧ m.Shows host) (fun m s hm ht => ?_) _ before after
    ⟨fun _ _ h => (by cases h),rfl,fun d hd => absurd hd not_mem_nil,
      fun d hd => absurd hd not_mem_nil⟩
    (Runs.meets_of_forall _ _ _ _ fun s hm _ => h s (hs ▸ hm))).2
  exact ⟨fold_idle hm.1,discover_shows hm.1 hm.2.named ht⟩

def unnamedHost : Host :=
  { bareHost with codec := ⟨fun _ => .ok (.obj []),fun _ => .ok (.obj []),fun _ => []⟩ }

/-- Two directories with a manifest each. -/
def pair : Scan :=
  ⟨writeFile (writeFile (span [["p"],["q"]]) ⟨["p","manifest.json"],false⟩ ['m'])
    ⟨["q","manifest.json"],false⟩ ['m'],[["p"],["q"]]⟩

theorem unnamed_visible :
    (∀ s ∈ [pair], s.Telling unnamedHost) ∧ (discover unnamedHost ⟨fun _ => none,⟨span [],[]⟩⟩
      pair).Shows unnamedHost := by
  have hv : ∀ d ∈ pair.directories, Invalid unnamedHost pair.tree d := by
    decide +kernel
  have ht : ∀ s ∈ [pair], s.Telling unnamedHost := by
    intro s hs
    obtain rfl := mem_singleton.mp hs
    refine ⟨?_,fun before e after he _ d hd hn _ => ?_⟩
    · have hl : ∀ d ∈ pair.directories, readFile pair.tree ⟨d++["manifest.json".toList],false⟩ =
          some ['m'] ∧ (declared unnamedHost pair.tree d).isSome = true := by
        decide +kernel
      intro d hd
      obtain ⟨m,hm⟩ := Option.isSome_iff_exists.mp (hl d hd).2
      have hi := hv d hd
      rw [Invalid,hm,Option.map_some,Option.some_inj] at hi
      exact ⟨['m'],m,(hl d hd).1,by decide,hm,fun ho => absurd (ho.symm.trans hi) Bool.noConfusion⟩
    · have hinj : ∀ d ∈ pair.directories, ∀ e ∈ pair.directories,
          ownName unnamedHost pair.tree d = ownName unnamedHost pair.tree e → d = e := by
        decide +kernel
      have hep : e ∈ pair.directories := he ▸ mem_append_right _ mem_cons_self
      exact ⟨hv e hep,.inl (hinj d (he ▸ mem_append_left _ hd) e hep hn)⟩
  exact ⟨ht,rejected_visible unnamedHost [pair] ht [pair] [] rfl⟩

/-- Two directories whose manifests are no JSON have one record, which has no name. -/
theorem rejected_share_record :
    let m := discover bareHost ⟨fun _ => none,⟨span [],[]⟩⟩ pair
    (m.records []).map PluginRecord.state = some .FAILED ∧
      (m.records "/p/manifest.json").isNone ∧
      (m.records "/q/manifest.json").isNone ∧ ¬m.Shows bareHost := by
  have hf : ((discover bareHost ⟨fun _ => none,⟨span [],[]⟩⟩ pair).records []).map
      PluginRecord.state = some .FAILED := by
    decide +kernel
  refine ⟨hf,by decide +kernel,by decide +kernel,fun h => ?_⟩
  rw [h.named] at hf
  cases hf

end EMaster.Plugins
