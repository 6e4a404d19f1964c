import EMaster.PluginOwnership

/-!
# Where an uploaded package is written

An upload is staged in a directory whose name is made from the manifest's identifier,
and the entry is written below it, before the manifest is checked. What follows the
check stays in the plugin root. The staging path and the entry path are walked
component by component, so an identifier or an entry decides where the files land.
-/

set_option autoImplicit false

namespace EMaster.Plugins
open FileTree PathWalk FileOps Confinement
open List hiding removeAll

variable {src dest : FsPath}

theorem confined_move_aside {root : PluginRoot} {t moved : Tree}
    (h : moveAside t src dest = some moved) (hs : root.loc <+: src.target)
    (hd : root.loc <+: dest.target) : Confined root.loc t moved := by
  apply confined_below root.loc [src.target,dest.target] t
  · exact within_move_aside h mem_cons_self (mem_cons_of_mem _ mem_cons_self)
  · simp only [mem_cons,not_mem_nil,or_false,forall_eq_or_imp,forall_eq]
    exact ⟨hs,hd⟩

theorem confined_rename_or_keep {root : PluginRoot} (t : Tree) (hs : root.loc <+: src.target)
    (hd : root.loc <+: dest.target) : Confined root.loc t (renameOrKeep t src dest) := by
  apply confined_below root.loc [src.target,dest.target] t
  · exact within_rename_or_keep t mem_cons_self (mem_cons_of_mem _ mem_cons_self)
  · simp only [mem_cons,not_mem_nil,or_false,forall_eq_or_imp,forall_eq]
    exact ⟨hs,hd⟩

theorem confined_drop {root : Loc} (t : Tree) {p : FsPath} (h : root <+: p.target) :
    Confined root t (dropExisting t p) := by
  rw [dropExisting]
  split_ifs
  · exact confined_remove root t p h
  · exact confined_refl root t

section ValidIdentifier
variable (root : PluginRoot) (id : Text) (h : validId id = true)
include h

variable {id}

theorem target_inside : root.loc <+: (root.target id).target := by
  rw [target_valid root id h]
  exact prefix_append _ _

theorem rollback_inside : root.loc <+: (root.rollback id).target := by
  rw [rollback_valid root id h]
  exact prefix_append _ _

theorem installing_inside : root.loc <+: (root.installing id).target := by
  rw [installing_valid root id h]
  exact prefix_append _ _

theorem activate_confined (host : Host) (t : Tree) (src : Loc) :
    Confined root.loc t (activate host root t src id).1 := by
  have ht := target_inside root h
  have hrl := rollback_inside root h
  have hs := installing_inside root h
  rw [activate]
  cases hc : copyTree t src (root.installing id) with
  | none => exact confined_rename_or_keep t hrl ht
  | some copied =>
    have hcp : Confined root.loc t copied := by
      intro x hx
      exact .inl (copy_tree_frame hc (fun hp => hx (hs.trans hp)))
    dsimp only
    cases hr : rename copied (root.installing id) (root.target id) with
    | none =>
      exact confined_trans _ _ _ _ hcp
        (confined_trans _ _ _ _ (confined_remove _ _ _ hs) (confined_rename_or_keep _ hrl ht))
    | some active =>
      apply confined_trans _ _ _ _ hcp
      intro x hx
      exact .inl (rename_frame hr (fun hp => hx (hs.trans hp)) (fun hp => hx (ht.trans hp)))

theorem replace_confined (host : Host) (t : Tree) (src : Loc) :
    Confined root.loc t (replacePackage host root t src id).1 := by
  have ht := target_inside root h
  have hr := rollback_inside root h
  have hm : Confined root.loc t
      (createDirectories (removeAll t (root.installing id)) root.rollbackRoot).1 := by
    apply confined_trans _ _ _ _ (confined_remove _ t _ (installing_inside root h))
    apply confined_create
    intro x hx
    rw [rollback_root_path,positions_rooted root.named] at hx
    rcases hx with ⟨hx,_⟩ | hx
    · exact .inr hx
    · left
      rcases mem_cons.mp hx with rfl | hx
      · exact prefix_rfl
      · rw [mem_singleton.mp hx]
        exact prefix_append _ _
  rw [replacePackage]
  dsimp only
  split_ifs
  · have hd := confined_trans _ _ _ _ hm (confined_drop _ hr)
    split
    next => exact hd
    next saved hs =>
      exact confined_trans _ _ _ _ hd
        (confined_trans _ _ _ _ (confined_move_aside hs ht hr)
          (activate_confined root h host saved src))
  · exact hm

end ValidIdentifier

/-- From the manifest check on, an installation stays in the plugin root. -/
theorem install_confined (host : Host) (root : PluginRoot) (t : Tree) (src : Loc) :
    Confined root.loc t (install host root t src).1 := by
  rw [install]
  dsimp only
  split_ifs with hs hok hsm
  · exact confined_refl _ _
  · exact confined_refl _ _
  · exact replace_confined root (load_manifest_id hok) host t src
  · exact confined_refl _ _

def stageComps (id : Text) : List Text :=
  List.splitOn '/' (cString ('.' :: id++".uploading"))

section
variable (root : PluginRoot) (id : Text)

theorem uploading_path :
    root.uploading id = ⟨root.loc++stageComps id,
      ('.' :: id++".uploading").contains '\x00'⟩ := rfl

def stageDir (root : PluginRoot) (id : Text) : Loc := walk root.loc (stageComps id)

theorem uploading_target : (root.uploading id).target = stageDir root id :=
  target_rooted root.named _ _

/-- The staging path never leaves the root and the way to it, and ends in the root. -/
def SafeStaging (root : PluginRoot) (id : Text) : Prop :=
  (∀ x ∈ positions root.loc (stageComps id), Near root.loc x) ∧ root.loc <+: stageDir root id

def entryPath (root : PluginRoot) (id entry : Text) : FsPath := (root.uploading id).join entry

def needed (root : PluginRoot) (id entry : Text) : List Loc :=
  (stops [] (entryPath root id entry).comps).filter
    (fun q => ¬∃ s ∈ positions [] (root.uploading id).comps, q <+: s)

/-- Some tree has these directories after the staging directory was removed: they are not
below it, or they can stand in a tree where the staging path leads nowhere. -/
def SurvivesStaging (root : PluginRoot) (id : Text) (qs : List Loc) : Prop :=
  (∀ q ∈ qs, ¬stageDir root id <+: q) ∨ ∃ s ∈ stops [] (root.uploading id).comps, ∀ q ∈ qs, ¬s <+: q

/-- The entry path ends in a name that lies neither in the root nor on the way to it nor on
its own way, and all directories it passes can exist when it is written. -/
def EntryLands (root : PluginRoot) (id entry : Text) : Prop :=
  (entryPath root id entry).endsInName = true ∧
    ¬Near root.loc (entryPath root id entry).target ∧
    (∀ q ∈ stops [] (entryPath root id entry).comps, ¬(entryPath root id entry).target <+: q) ∧
    SurvivesStaging root id (needed root id entry)

def Contained (root : PluginRoot) (id entry : Text) : Prop :=
  SafeStaging root id ∧ ¬EntryLands root id entry

theorem mem_needed (en : Text) (q : Loc) :
    q ∈ needed root id en ↔ q ∈ stops [] (entryPath root id en).comps ∧
      ¬∃ s ∈ positions [] (root.uploading id).comps, q <+: s := by
  rw [needed,mem_filter,decide_eq_true_iff]

theorem uploading_near (h : SafeStaging root id) (x : Loc)
    (hx : x ∈ positions [] (root.uploading id).comps) : Near root.loc x := by
  rw [uploading_path,positions_rooted root.named] at hx
  rcases hx with ⟨hx,_⟩ | hx
  · exact .inr hx
  · exact h.1 x hx

theorem root_position : root.loc ∈ positions [] (root.uploading id).comps := by
  rw [uploading_path,positions_rooted root.named]
  right
  cases stageComps id <;> exact mem_cons_self

theorem manifest_inside :
    stageDir root id <+: ((root.uploading id).join "manifest.json").target := by
  cases hc : (root.uploading id).cut with
  | false =>
    rw [join_name hc (by decide) (by decide),uploading_path,append_assoc,
      target_rooted root.named,walk_append]
    exact prefix_append _ _
  | true =>
    have hj : (root.uploading id).join "manifest.json" = root.uploading id := by
      rw [FsPath.join,if_neg (by decide),if_pos hc]
    rw [hj,uploading_target]

end

section Staging
variable (root : PluginRoot) (t : Tree) (id en manifest binary : Text)

def emptied : Tree := removeAll t (root.uploading id)

def prepared : Tree := (createDirectories (emptied root t id) (root.uploading id)).1

def described : Tree :=
  writeFile (prepared root t id) ((root.uploading id).join "manifest.json") manifest

theorem stage_upload_made
    (h : (createDirectories (emptied root t id) (root.uploading id)).2 = true) :
    stageUpload root t id en manifest binary =
      (writeFile (described root t id manifest) (entryPath root id en) binary,true) := by
  rw [stageUpload]
  exact if_pos h

theorem stage_upload_failed
    (h : ¬(createDirectories (emptied root t id) (root.uploading id)).2 = true) :
    stageUpload root t id en manifest binary = (prepared root t id,false) := by
  rw [stageUpload]
  exact if_neg h

theorem prepared_dir (h : (createDirectories (emptied root t id) (root.uploading id)).2 = true)
    {x : Loc} (hx : x ∈ positions [] (root.uploading id).comps) :
    (prepared root t id).node x = some .dir :=
  make_dirs_made _ [] (emptied root t id).top h x hx

variable (host : Host) (x : Loc)

variable {x}

theorem prepared_old_dir (h : (prepared root t id).node x = some .dir)
    (hx : x ∉ positions [] (root.uploading id).comps) :
    (emptied root t id).node x = some .dir := by
  rcases make_dirs_frame _ [] x _ with
    hs | ⟨_,_,hm⟩
  · exact hs.symm.trans h
  · exact absurd hm hx

theorem emptied_old_dir (h : (emptied root t id).node x = some .dir) : t.node x = some .dir := by
  rcases remove_all_only t _ x with hs | hn
  · exact hs.symm.trans h
  · rw [emptied,hn] at h
    cases h

/-- A directory staging does not make was there before, and was not below the staging
directory if the staging path led to it. -/
theorem needed_before (h : (described root t id manifest).node x = some .dir)
    (hx : x ∈ needed root id en) : (emptied root t id).node x = some .dir := by
  have hp := write_makes_no_dir _ _ x h
  apply prepared_old_dir root t id hp
  intro hm
  exact ((mem_needed root id en x).mp hx).2 ⟨x,hm,prefix_rfl⟩

theorem needed_survives
    (h : ∀ q ∈ needed root id en, (described root t id manifest).node q = some .dir) :
    SurvivesStaging root id (needed root id en) := by
  by_contra hs
  simp only [SurvivesStaging,not_or,not_forall,not_exists,not_and,not_not] at hs
  obtain ⟨⟨q,hq,hb⟩,hst⟩ := hs
  have hold (x : Loc) (hx : x ∈ needed root id en) : t.node x = some .dir :=
    emptied_old_dir root t id (needed_before root t id en _ (h x hx) hx)
  have hr : resolve t (root.uploading id) = some (stageDir root id) := by
    rw [resolve_passed,uploading_target]
    intro s hsm
    obtain ⟨x,hx,hp⟩ := hst s hsm
    exact t.dir_above x s hp (hold x hx)
  have hne : q ≠ stageDir root id := by
    rintro rfl
    apply ((mem_needed root id en _).mp hq).2
    refine ⟨stageDir root id,?_,prefix_rfl⟩
    rw [mem_positions,← uploading_target]
    exact .inr rfl
  have hd := needed_before root t id en _ (h q hq) hq
  rw [emptied,remove_all_below hr hb hne] at hd
  cases hd

theorem entry_unwritten (hc : Contained root id en)
    (hm : (createDirectories (emptied root t id) (root.uploading id)).2 = true)
    (ho : ¬root.loc <+: (entryPath root id en).target) :
    writeFile (described root t id manifest) (entryPath root id en) binary =
      described root t id manifest := by
  apply write_file_skipped
  intro hr hn
  have hrt : (described root t id manifest).node root.loc = some .dir :=
    write_keeps_dir _ _ _ _ (prepared_dir root t id hm (root_position root id))
  by_contra hd
  have hs := (resolve_some hr).2
  apply hc.2
  refine ⟨hn,?_,?_,?_⟩
  · rintro (hin | hup)
    · exact ho hin
    · exact hd (Tree.dir_above _ _ _ hup hrt)
  · intro q hq hp
    exact hd (Tree.dir_above _ q _ hp (hs q hq))
  · apply needed_survives root t id en _
    intro q hq
    exact hs q ((mem_needed root id en q).mp hq).1

theorem staged_confined (hc : Contained root id en) :
    Confined root.loc t (stageUpload root t id en manifest binary).1 := by
  have he : Confined root.loc t (emptied root t id) := by
    apply confined_remove
    rw [uploading_target]
    exact hc.1.2
  have hp : Confined root.loc t (prepared root t id) :=
    confined_trans _ _ _ _ he (confined_create _ _ _ (uploading_near root id hc.1))
  by_cases hm : (createDirectories (emptied root t id) (root.uploading id)).2 = true
  · rw [stage_upload_made root t id en _ _ hm]
    have hd : Confined root.loc t (described root t id manifest) :=
      confined_trans _ _ _ _ hp (confined_write (.inl (hc.1.2.trans (manifest_inside root id))))
    apply confined_trans _ _ _ _ hd
    apply confined_write
    by_cases hin : root.loc <+: (entryPath root id en).target
    · exact .inl hin
    · exact .inr (entry_unwritten root t id en _ _ hc hm hin)
  · rw [stage_upload_failed root t id en _ _ hm]
    exact hp

theorem import_staged_confined (hc : Contained root id en) :
    Confined root.loc t (importStaged host root t id en manifest binary).1 := by
  have hs := staged_confined root t id en manifest binary hc
  rw [importStaged]
  dsimp only
  split_ifs
  · apply confined_trans _ _ _ _ hs
    apply confined_trans _ _ _ _ (install_confined host root _ _)
    apply confined_remove
    rw [uploading_target]
    exact hc.1.2
  · exact hs

def finish (host : Host) (u : Tree) : Tree :=
  removeAll (install host root u (root.uploading id).target).1 (root.uploading id)

variable {root t}

theorem import_staged_made
    (h : (createDirectories (emptied root t id) (root.uploading id)).2 = true) :
    (importStaged host root t id en manifest binary).1 = finish root id host
      (writeFile (described root t id manifest) (entryPath root id en) binary) := by
  rw [importStaged,stage_upload_made root t id en _ _ h]
  rfl

theorem install_far (u : Tree) {x : Loc} (src : Loc) (hx : ¬Near root.loc x) :
    (install host root u src).1.node x = u.node x := by
  rcases install_confined host root u src x (fun h => hx (.inl h)) with h | ⟨h,_⟩
  · exact h
  · exact absurd (.inr h) hx

theorem finish_far (u : Tree) {x : Loc} (he : root.loc <+: stageDir root id)
    (hx : ¬Near root.loc x) : (finish root id host u).node x = u.node x := by
  rw [finish,remove_all_frame,install_far host u _ hx]
  rw [uploading_target]
  exact fun hp => hx (.inl (he.trans hp))

theorem finish_none {u : Tree} {x : Loc} (hx : ¬Near root.loc x) (hn : u.node x = none) :
    (finish root id host u).node x = none := by
  rcases remove_all_only _
    _ x with h | h
  · rw [finish,h,install_far host u _ hx,hn]
  · exact h

variable {en id}

theorem unmentioned_stays {w : Text} (hw : w ∈ x) (hs : w ∉ (root.uploading id).comps)
    (hm : w ∉ ((root.uploading id).join "manifest.json").comps)
    (he : w ∉ (entryPath root id en).comps) (hx : ¬Near root.loc x)
    (hn : (emptied root t id).node x = none) :
    (importStaged host root t id en manifest binary).1.node x = none := by
  have ht (p : FsPath) (hp : w ∉ p.comps) : x ≠ p.target := by
    rintro rfl
    have hps : p.target ∈ positions [] p.comps := (mem_positions _ _ _).mpr (.inr rfl)
    rcases position_names [] _ _ hps hw with h | h
    · cases h
    · exact hp h
  have hpr : (prepared root t id).node x = none := by
    rcases make_dirs_frame _ [] x _ with
      h | ⟨_,_,h⟩
    · exact h.trans hn
    · rcases position_names [] x _ h hw with h | h
      · cases h
      · exact absurd h hs
  by_cases hmd : (createDirectories (emptied root t id) (root.uploading id)).2 = true
  · rw [import_staged_made id en _ _ host hmd]
    apply finish_none id host hx
    rw [write_far _ _ _ x (ht _ he),described,write_far _ _ _ x (ht _ hm),hpr]
  · rw [importStaged,stage_upload_failed root t id en _ _ hmd]
    exact hpr

end Staging

section Escapes
variable (host : Host) (root : PluginRoot) (id entry manifest binary : Text)

def KeepsConfined : Prop :=
  ∀ t, Confined root.loc t (importStaged host root t id entry manifest binary).1

/-- A staging directory outside the root is emptied of whatever stood there. -/
theorem staging_ends_inside (h : KeepsConfined host root id entry manifest binary) :
    root.loc <+: stageDir root id := by
  by_contra ho
  let used := root.loc++((root.uploading id).comps++
    (((root.uploading id).join "manifest.json").comps++(entryPath root id entry).comps))
  let w := freshName used
  let x := stageDir root id++[w]
  let t := span (x::stops [] (root.uploading id).comps)
  have hf : w ∉ used := fun hm => absurd (fresh_name_longer hm) (lt_irrefl _)
  simp only [used,mem_append,not_or] at hf
  have hw : w ∈ x := mem_append_right _ mem_cons_self
  have hx : ¬Near root.loc x := by
    rintro (hp | hp)
    · rcases (prefix_snoc _ _ w).mp hp with hp | he
      · exact ho hp
      · exact hf.1 (he ▸ hw)
    · exact hf.1 (hp.subset hw)
  have hr : resolve t (root.uploading id) = some (stageDir root id) := by
    rw [resolve_passed,uploading_target]
    intro s hs
    exact span_dir (mem_cons_of_mem x hs) prefix_rfl
  have hem : (emptied root t id).node x = none :=
    remove_all_below hr (prefix_append _ _) (by simp [x])
  have hb : t.node x = some .dir := span_dir mem_cons_self prefix_rfl
  have ha := unmentioned_stays manifest binary host hw hf.2.1 hf.2.2.1 hf.2.2.2 hx hem
  rcases h t x (fun hp => hx (.inl hp)) with hsm | ⟨hp,_⟩
  · rw [hb,ha] at hsm
    cases hsm
  · exact hx (.inr hp)

theorem emptied_no_file (qs : List Loc) (x : Loc) :
    (emptied root (span qs) id).node x = none ∨ (emptied root (span qs) id).node x = some .dir := by
  rcases remove_all_only _ _ x with h | h
  · rw [emptied,h]
    exact span_no_file qs x
  · exact .inl h

theorem span_made (qs : List Loc) :
    (createDirectories (emptied root (span qs) id) (root.uploading id)).2 = true :=
  make_dirs_succeeds _ [] _ (Tree.top _) (fun x _ => emptied_no_file root id qs x)

theorem staging_stays_near (h : KeepsConfined host root id entry manifest binary) :
    SafeStaging root id := by
  have he := staging_ends_inside host root id entry _ _ h
  refine ⟨?_,he⟩
  intro x hx
  by_contra hf
  let t := span [root.loc]
  have hb : t.node x = none := by
    apply span_none
    · rintro rfl
      exact hf (.inr List.nil_prefix)
    · intro q hq hp
      rw [mem_singleton.mp hq] at hp
      exact hf (.inr hp)
  have hps : x ∈ positions [] (root.uploading id).comps := by
    rw [uploading_path,positions_rooted root.named]
    exact .inr hx
  have hm := span_made root id [root.loc]
  have ha : (importStaged host root t id entry manifest binary).1.node x = some .dir := by
    rw [import_staged_made id entry _ _ host hm,finish_far id host _ he hf]
    exact write_keeps_dir _ _ _ x (write_keeps_dir _ _ _ x (prepared_dir root t id hm hps))
  rcases h t x (fun hp => hf (.inl hp)) with hs | ⟨hp,_⟩
  · rw [hb,ha] at hs
    cases hs
  · exact hf (.inr hp)

theorem needed_stay (h : SurvivesStaging root id (needed root id entry)) {q : Loc}
    (hq : q ∈ needed root id entry) :
    (emptied root (span (needed root id entry)) id).node q = some .dir := by
  have hsp : (span (needed root id entry)).node q = some .dir := span_dir hq prefix_rfl
  by_cases hb : ∀ q ∈ needed root id entry, ¬stageDir root id <+: q
  · rw [emptied,remove_all_frame _ _ q,hsp]
    rw [uploading_target]
    exact hb q hq
  · obtain ⟨s,hs,hf⟩ := h.resolve_left hb
    have hg : (span (needed root id entry)).node s = none := by
      apply span_none _ hf
      rintro rfl
      exact hf q hq List.nil_prefix
    have hn : resolve (span (needed root id entry)) (root.uploading id) = none := by
      rw [resolve,if_neg]
      intro ha
      rw [ha s hs] at hg
      cases hg
    rw [emptied,removeAll,hn]
    exact hsp

theorem entry_stays_inside (h : KeepsConfined host root id entry manifest binary) :
    ¬EntryLands root id entry := by
  rintro ⟨hn,hf,hwy,hsr⟩
  have hsf := staging_stays_near host root id entry _ binary h
  let target := (entryPath root id entry).target
  let t := span (needed root id entry)
  have hmd := span_made root id (needed root id entry)
  have hne : target ≠ [] := by
    intro he
    apply hf
    right
    change target <+: root.loc
    rw [he]
    exact List.nil_prefix
  have hb : t.node target = none := by
    apply span_none hne
    intro q hq
    exact hwy q ((mem_needed root id entry q).mp hq).1
  have hst : ∀ q ∈ stops [] (entryPath root id entry).comps,
      (described root t id manifest).node q = some .dir := by
    intro q hq
    apply write_keeps_dir
    by_cases hmm : q ∈ needed root id entry
    · exact make_dirs_keeps _ [] q _ (needed_stay root id entry hsr hmm)
    · rw [mem_needed,not_and,not_not] at hmm
      obtain ⟨s,hs,hp⟩ := hmm hq
      exact Tree.dir_above _ s q hp (prepared_dir root t id hmd hs)
  have hfr : (described root t id manifest).node target ≠ some .dir := by
    intro hd
    have hold := prepared_old_dir root t id (write_makes_no_dir _ _ _ hd)
      (fun hm => hf (uploading_near root id hsf _ hm))
    rw [emptied_old_dir root t id hold] at hb
    cases hb
  obtain ⟨cs,c,hcs,hc⟩ := ends_in_name hn
  have hpr : (described root t id manifest).node target.dropLast = some .dir := by
    obtain ⟨hwl,hsp⟩ := walk_snoc_name [] cs hc
    change (described root t id manifest).node (walk [] _).dropLast = _
    rw [hcs,hwl,dropLast_concat]
    exact hst _ (hcs ▸ hsp)
  have hw := write_file_written _ _ binary (resolve_passed hst) hn hne hpr hfr
  have ha : (importStaged host root t id entry manifest binary).1.node target =
      some (.file binary) := by
    rw [import_staged_made id entry _ _ host hmd,finish_far id host _ hsf.2 hf,hw]
  rcases h t target (fun hp => hf (.inl hp)) with hsm | ⟨hp,_⟩
  · rw [hb,ha] at hsm
    cases hsm
  · exact hf (.inr hp)

theorem keeps_confined_iff :
    KeepsConfined host root id entry manifest binary ↔ Contained root id entry := by
  constructor
  · intro h
    exact ⟨staging_stays_near host root id entry _ _ h,
      entry_stays_inside host root id entry _ _ h⟩
  · intro hc t
    exact import_staged_confined root t id entry _ _ host hc

end Escapes

def Uploads (host : Host) (text binary id entry : Text) : Prop :=
  ∃ manifest, host.codec.parse text = .ok manifest ∧
    manifest.valueText "id" [] = some id ∧
    manifest.valueText "entry" [] = some entry ∧
    id ≠ [] ∧ entry ≠ [] ∧ binary ≠ []

variable {text : Text}

theorem import_accepted {host : Host} (root : PluginRoot) {binary id en : Text}
    (h : Uploads host text binary id en) :
    ∃ manifest, ∀ t, (importUploaded host root t text binary).1 =
      (importStaged host root t id en manifest binary).1 := by
  obtain ⟨manifest,hp,hid,he,hne⟩ := h
  rw [← not_or,← not_or] at hne
  refine ⟨host.codec.dump manifest,fun t => ?_⟩
  rw [importUploaded,hp]
  dsimp only
  rw [hid,he]
  dsimp only
  rw [if_neg hne]

theorem import_refused {host : Host} (root : PluginRoot) {binary : Text}
    (h : ¬∃ id entry, Uploads host text binary id entry) (t : Tree) :
    (importUploaded host root t text binary).1 = t := by
  rw [importUploaded]
  split
  · rfl
  next manifest hp =>
    split
    next id entry hid hen =>
      split_ifs with he
      · rfl
      · rw [not_or,not_or] at he
        exact absurd ⟨id,entry,manifest,hp,hid,hen,he⟩ h
    next => rfl

theorem uploads_unique {host : Host} {binary id en id' entry' : Text}
    (h : Uploads host text binary id en) (h' : Uploads host text binary id' entry') :
    id = id' ∧ en = entry' := by
  obtain ⟨m,hp,hid,hen,_⟩ := h
  obtain ⟨m',hp',hi,he,_⟩ := h'
  rw [hp] at hp'
  cases hp'
  exact ⟨Option.some.inj (hid.symm.trans hi),Option.some.inj (hen.symm.trans he)⟩

/-- An upload changes files in the plugin root only, in every tree, exactly when its
identifier and its entry keep to the root. -/
theorem import_confined_iff (host : Host) (root : PluginRoot) (text binary : Text) :
    (∀ t, Confined root.loc t (importUploaded host root t text binary).1) ↔
      ∀ id entry, Uploads host text binary id entry → Contained root id entry := by
  by_cases ha : ∃ id entry, Uploads host text binary id entry
  · obtain ⟨id,entry,hup⟩ := ha
    obtain ⟨manifest,heq⟩ := import_accepted root hup
    simp only [heq]
    refine (keeps_confined_iff host root id entry _ _).trans ⟨?_,?_⟩
    · intro hc id' entry' hu
      obtain ⟨rfl,rfl⟩ := uploads_unique hup hu
      exact hc
    · intro h
      exact h id entry hup
  · simp only [import_refused root ha]
    exact ⟨fun _ id entry hup => absurd ⟨id,entry,hup⟩ ha,fun _ t => confined_refl _ t⟩

def cronManifest : Json :=
  .obj [("id",.str "hsf.demo"),("entry",.str "/etc/cron.d/job")]

def cronHost : Host :=
  { bareHost with codec := ⟨fun _ => .ok cronManifest,fun _ => .ok cronManifest,fun _ => ['m']⟩ }

/-- An absolute entry is written where it says, whatever the identifier. -/
theorem absolute_entry_written :
    validId "hsf.demo" = true ∧
      (span [["etc","cron.d"],optRoot.loc]).node
        ["etc","cron.d","job"] = none ∧
      (importUploaded cronHost optRoot (span [["etc","cron.d"],optRoot.loc])
        ['m'] ['b']).1.node ["etc","cron.d","job"] = some (.file ['b']) := by
  decide

end EMaster.Plugins
