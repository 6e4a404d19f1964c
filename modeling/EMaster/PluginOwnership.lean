import EMaster.PluginManager

/-!
# Which directories a plugin operation touches

A valid identifier is one path component, so the directories derived from it lie in
the plugin root and are those of that plugin alone. Removal and rollback take any
path segment as an identifier without checking it.
-/

set_option autoImplicit false

namespace EMaster.Plugins
open FileTree PathWalk FileOps Confinement List

variable {n : Text}

theorem long_name (h : 2 < n.length) : isName n = true := by
  have hne (m : Text) (hm : m.length ≤ 2) : n ≠ m := by
    rintro rfl
    omega
  simp only [isName,Bool.not_eq_true',Bool.or_eq_false_iff,decide_eq_false_iff_not]
  exact ⟨⟨hne [] (by decide),hne ['.'] (by decide)⟩,hne ['.','.'] (by decide)⟩

variable (root : PluginRoot) (id : Text)

theorem valid_id_name (h : validId id = true) : isName id = true := by
  obtain ⟨hne,hh,_⟩ := valid_id_parts h
  simp only [isName,Bool.not_eq_true',Bool.or_eq_false_iff,decide_eq_false_iff_not]
  refine ⟨⟨hne,?_⟩,?_⟩
  · rintro rfl
    exact hh rfl
  · rintro rfl
    exact hh rfl

theorem valid_id_slash (h : validId id = true) : '/' ∉ id := valid_id_char h (by decide) (by decide)

theorem valid_id_zero (h : validId id = true) : '\x00' ∉ id :=
  valid_id_char h (by decide) (by decide)

variable {tail : Text}

theorem hidden_absent {c : Char} (hd : c ≠ '.') (hid : c ∉ id) (ht : c ∉ tail) :
    c ∉ '.' :: id++tail := by
  simp only [cons_append,mem_cons,mem_append,not_or]
  exact ⟨hd,hid,ht⟩

theorem hidden_path (h : validId id = true) (hs : '/' ∉ tail) (hz : '\x00' ∉ tail) :
    root.path.join ('.' :: id++tail) = ⟨root.loc++['.' :: id++tail],false⟩ :=
  join_name rfl (hidden_absent id (by decide) (valid_id_slash id h) hs)
    (hidden_absent id (by decide) (valid_id_zero id h) hz)

theorem named_target {ns : List Text} (h : Named ns) :
    (FsPath.mk (root.loc++ns) false).target = root.loc++ns := by
  rw [target_rooted root.named,walk_named _ h]

theorem named_single (h : isName n = true) : Named [n] := by
  intro m hm
  rwa [mem_singleton.mp hm]

def installedDir (root : PluginRoot) (id : Text) : Loc := root.loc++[id]

def rollbackDir (root : PluginRoot) (id : Text) : Loc := root.loc++[".rollback".toList,id]

def hiddenDir (root : PluginRoot) (id tail : Text) : Loc := root.loc++['.' :: id++tail]

theorem target_valid (h : validId id = true) : (root.target id).target = installedDir root id := by
  rw [PluginRoot.target,join_name rfl (valid_id_slash id h) (valid_id_zero id h)]
  exact named_target root (named_single (valid_id_name id h))

theorem rollback_root_path : root.rollbackRoot = ⟨root.loc++[".rollback".toList],false⟩ :=
  join_name rfl (by decide) (by decide)

theorem rollback_valid (h : validId id = true) :
    (root.rollback id).target = rollbackDir root id := by
  rw [PluginRoot.rollback,rollback_root_path,
    join_name rfl (valid_id_slash id h) (valid_id_zero id h),append_assoc]
  apply named_target root
  intro m hm
  rcases mem_cons.mp hm with rfl | hm
  · decide
  · rw [mem_singleton.mp hm]
    exact valid_id_name id h

theorem hidden_valid (h : validId id = true) (hs : '/' ∉ tail) (hz : '\x00' ∉ tail)
    (ht : 2 ≤ tail.length) :
    (root.path.join ('.' :: id++tail)).target = hiddenDir root id tail := by
  rw [hidden_path root id h hs hz]
  apply named_target root (named_single (long_name ?_))
  rw [cons_append,length_cons,length_append]
  omega

theorem temporary_valid (h : validId id = true) :
    (root.temporary id).target = hiddenDir root id ".rollback" :=
  hidden_valid root id h (by decide) (by decide) (by decide)

theorem installing_valid (h : validId id = true) :
    (root.installing id).target = hiddenDir root id ".installing" :=
  hidden_valid root id h (by decide) (by decide) (by decide)

def ownDirs (root : PluginRoot) (id : Text) : List Loc :=
  [installedDir root id,rollbackDir root id,hiddenDir root id ".rollback"]

variable {dirs : List Loc} {src dest : FsPath}

theorem within_move_aside {t moved : Tree} (h : moveAside t src dest = some moved)
    (hs : src.target ∈ dirs) (hd : dest.target ∈ dirs) : Within dirs t moved := by
  rw [moveAside] at h
  split_ifs at h
  · exact within_rename t h hs hd
  · obtain rfl := Option.some.inj h
    exact within_refl dirs t

theorem within_rename_or_keep (t : Tree) (hs : src.target ∈ dirs) (hd : dest.target ∈ dirs) :
    Within dirs t (renameOrKeep t src dest) := by
  rw [renameOrKeep]
  cases hr : rename t src dest with
  | none => exact within_refl dirs t
  | some moved => exact within_rename t hr hs hd

theorem remove_within (host : Host) (root : PluginRoot) (t : Tree) {id : Text}
    (h : validId id = true) : Within (ownDirs root id) t (remove host root t id).1 := by
  have ht : (root.target id).target ∈ ownDirs root id := by
    rw [target_valid root id h]
    exact mem_cons_self
  rw [remove]
  by_cases hd : isDirectory t (root.target id) = true
  · rw [if_pos hd]
    exact within_remove_all t _ ht
  · rw [if_neg hd]
    exact within_refl _ t

theorem rollback_within (t : Tree) {id : Text} (h : validId id = true) :
    Within (ownDirs root id) t (rollback root t id).1 := by
  have hc : (root.target id).target ∈ ownDirs root id := by
    rw [target_valid root id h]
    exact mem_cons_self
  have hp : (root.rollback id).target ∈ ownDirs root id := by
    rw [rollback_valid root id h]
    exact mem_cons_of_mem _ mem_cons_self
  have ht : (root.temporary id).target ∈ ownDirs root id := by
    rw [temporary_valid root id h]
    exact mem_cons_of_mem _ (mem_cons_of_mem _ mem_cons_self)
  have hcl := within_remove_all t _ ht
  rw [rollback]
  dsimp only
  split_ifs
  · cases hm : moveAside (removeAll t (root.temporary id)) (root.target id) (root.temporary id) with
    | none => exact hcl
    | some aside =>
      have ha := within_trans _ hcl (within_move_aside hm hc ht)
      dsimp only
      cases hr : rename aside (root.rollback id) (root.target id) with
      | none =>
        exact within_trans _ ha (within_rename_or_keep aside ht hc)
      | some active =>
        exact within_trans _ ha
          (within_trans _ (within_rename aside hr hp hc) (within_remove_all _ _ ht))
  · exact within_refl _ t

variable {x : Loc}

theorem first_agrees {l s r : Loc} {m : Text} (h1 : l++n::s <+: x) (h2 : l++m::r <+: x) :
    n = m ∧ (s <+: r ∨ r <+: s) := by
  rcases List.prefix_or_prefix_of_prefix h1 h2 with h | h
  · obtain ⟨he,hp⟩ := cons_prefix_cons.mp ((prefix_append_right_inj l).mp h)
    exact ⟨he,.inl hp⟩
  · obtain ⟨he,hp⟩ := cons_prefix_cons.mp ((prefix_append_right_inj l).mp h)
    exact ⟨he.symm,.inr hp⟩

theorem valid_not_hidden (rest : Text) (h : validId id = true) : id ≠ '.' :: rest := by
  rintro rfl
  exact (valid_id_parts h).2.1 rfl

theorem own_dirs_apart {o : Text} {d : Loc} (hid : validId id = true)
    (ho : validId o = true) (hne : o ≠ id) (hd : d ∈ ownDirs root id) (hx : d <+: x) :
    ¬installedDir root o <+: x ∧ ¬rollbackDir root o <+: x := by
  simp only [ownDirs,mem_cons,not_mem_nil,or_false] at hd
  rcases hd with rfl | rfl | rfl
  · constructor
    · intro h
      exact hne (first_agrees h hx).1
    · intro h
      exact valid_not_hidden id _ hid (first_agrees h hx).1.symm
  · constructor
    · intro h
      exact valid_not_hidden o _ ho (first_agrees h hx).1
    · intro h
      rcases (first_agrees h hx).2 with hp | hp
      · exact hne (cons_prefix_cons.mp hp).1
      · exact hne (cons_prefix_cons.mp hp).1.symm
  · constructor
    · intro h
      exact valid_not_hidden o _ ho (first_agrees h hx).1
    · intro h
      have he := congrArg List.length (first_agrees h hx).1
      have hps := length_pos_iff.mpr (valid_id_parts hid).1
      rw [cons_append,length_cons,length_append] at he
      have hl : ".rollback".toList.length = 9 := by decide
      omega

/-- What a client can put where the routes expect an identifier. -/
structure Segment where
  text : Text
  single : '/' ∉ text

structure Honours (host : Host) (root : PluginRoot) (id : Text) : Prop where
  own : ∀ t, Within (ownDirs root id) t (remove host root t id).1 ∧
    Within (ownDirs root id) t (rollback root t id).1
  others : ∀ other, validId other = true → other ≠ id → ∀ t x,
    installedDir root other <+: x ∨ rollbackDir root other <+: x →
    (remove host root t id).1.node x = t.node x ∧ (rollback root t id).1.node x = t.node x
  invalid : validId id = false → ∀ t x,
    (remove host root t id).1.node x = t.node x ∧ (rollback root t id).1.node x = t.node x

theorem honours_valid (host : Host) (root : PluginRoot) {id : Text} (h : validId id = true) :
    Honours host root id where
  own t := ⟨remove_within host root t h,rollback_within root t h⟩
  others := by
    intro o ho hne t x hx
    have hot : ∀ d ∈ ownDirs root id, ¬d <+: x := by
      intro d hd hp
      obtain ⟨h1,h2⟩ := own_dirs_apart root id h ho hne hd hp
      exact hx.elim h1 h2
    exact ⟨remove_within host root t h x hot,rollback_within root t h x hot⟩
  invalid := by
    intro hf
    rw [h] at hf
    cases hf

theorem remove_reaches (host : Host) (root : PluginRoot) (id : Segment) :
    ∃ t x, t.node x = some .dir ∧ (remove host root t id.text).1.node x = none := by
  have hp := join_single root.path id.text rfl id.single
  let dir := walk root.loc [cString id.text]
  let t := span [root.loc,dir++[['x']]]
  have hrt : t.node root.loc = some .dir := span_dir mem_cons_self prefix_rfl
  have hm : dir++[['x']] ∈ [root.loc,dir++[['x']]] := mem_cons_of_mem _ mem_cons_self
  have hd : t.node dir = some .dir := span_dir hm (prefix_append _ _)
  have hr : resolve t (root.target id.text) = some dir := by
    rw [PluginRoot.target,hp]
    apply resolve_rooted root.named _ hrt
    intro x hx
    rw [mem_singleton.mp hx]
    exact hrt
  refine ⟨t,dir++[['x']],span_dir hm prefix_rfl,?_⟩
  have his : isDirectory t (root.target id.text) = true := by
    rw [isDirectory,hr]
    exact decide_eq_true hd
  rw [remove,if_pos his]
  exact remove_all_below hr (prefix_append _ _) (by simp)

/-- Removal and rollback keep to the plugin they name exactly for valid identifiers. -/
theorem honours_iff (host : Host) (root : PluginRoot) (id : Segment) :
    Honours host root id.text ↔ validId id.text = true := by
  constructor
  · intro h
    by_contra hv
    obtain ⟨t,x,hd,hn⟩ := remove_reaches host root id
    have hs := (h.invalid (eq_false_of_ne_true hv) t x).1
    rw [hd,hn] at hs
    cases hs
  · exact honours_valid host root

def bareHost : Host where
  apiVersion := 65536
  platformTriple := "linux-arm64"
  codec := ⟨fun _ => .error [],fun _ => .error [],fun _ => []⟩
  ecMessage _ := []

def optRoot : PluginRoot where
  loc := ["opt","plugins"]
  named := by decide

/-- A removal of the identifier `.rollback` takes the rollback package of another plugin. -/
theorem rollback_packages_removed :
    validId ".rollback".toList = false ∧ validId "hsf.demo".toList = true ∧
      (span [rollbackDir optRoot "hsf.demo".toList]).node
        (rollbackDir optRoot "hsf.demo".toList) = some .dir ∧
      (remove bareHost optRoot (span [rollbackDir optRoot "hsf.demo".toList])
        ".rollback".toList).1.node (rollbackDir optRoot "hsf.demo".toList) = none := by
  decide

end EMaster.Plugins
