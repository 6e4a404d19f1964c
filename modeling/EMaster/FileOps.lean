import EMaster.PathWalk

/-!
# File operations

The operations of the file library on a tree: making the directories of a path,
writing a file, removing, renaming and copying a whole subtree. Each comes with
its frame, the locations it can change. A recursive removal that cannot take the
named directory itself, because the path ends in dots, still empties it.
-/

set_option autoImplicit false

namespace EMaster.FileOps
open FileTree PathWalk List

def isDirectory (t : Tree) (p : FsPath) : Bool :=
  match resolve t p with
  | none => false
  | some l => t.node l = some .dir

def fileExists (t : Tree) (p : FsPath) : Bool :=
  match resolve t p with
  | none => false
  | some l => t.node l ≠ none

def readFile (t : Tree) (p : FsPath) : Option Text :=
  match resolve t p with
  | none => none
  | some l =>
    match t.node l with
    | some (.file content) => some content
    | _ => none

def makeDir (t : Tree) (l : Loc) : Option Tree :=
  if t.node l = some .dir then some t
  else if h : t.node l = none ∧ l ≠ [] ∧ t.node l.dropLast = some .dir then
    some (t.put l .dir h.2.1 h.2.2 (by rw [h.1]; exact nofun))
  else none

def makeDirs (t : Tree) (l : Loc) : List Text → Tree×Bool
  | [] => (t,true)
  | c::cs =>
    match makeDir t (step l c) with
    | none => (t,false)
    | some made => makeDirs made (step l c) cs

def createDirectories (t : Tree) (p : FsPath) : Tree×Bool := makeDirs t [] p.comps

def writeFile (t : Tree) (p : FsPath) (content : Text) : Tree :=
  match resolve t p with
  | none => t
  | some l =>
    if h : l ≠ [] ∧ t.node l.dropLast = some .dir ∧ t.node l ≠ some .dir then
      if p.endsInName then t.put l (.file content) h.1 h.2.1 h.2.2 else t
    else t

def removeAll (t : Tree) (p : FsPath) : Tree :=
  match resolve t p with
  | none => t
  | some l =>
    if h : p.endsInName = true ∧ l ≠ [] then t.prune l h.2 else t.clear l

def removeAllFails (t : Tree) (p : FsPath) : Bool :=
  match resolve t p with
  | none => false
  | some l => t.node l ≠ none && !p.endsInName

def emptyAt (t : Tree) (l : Loc) : Prop := ∀ x ∈ t.locs, t.node x ≠ none → l <+: x → x = l

instance (t : Tree) (l : Loc) : Decidable (emptyAt t l) :=
  inferInstanceAs (Decidable (∀ x ∈ t.locs, t.node x ≠ none → l <+: x → x = l))

/-- What may be replaced by a rename: nothing, a file by a file, an empty directory by
a directory. -/
def replaceable (t : Tree) (source dest : Loc) : Prop :=
  t.node dest = none ∨
    (t.node source ≠ some .dir ∧ t.node dest ≠ some .dir) ∨
    (t.node source = some .dir ∧ t.node dest = some .dir ∧ emptyAt t dest)

instance (t : Tree) (source dest : Loc) : Decidable (replaceable t source dest) :=
  inferInstanceAs (Decidable (_ ∨ _ ∨ _))

def move (t : Tree) (source dest : Loc) : Option Tree :=
  if hs : source ≠ [] then
    if hd : dest ≠ [] then
      if hp : (t.prune dest hd).node dest.dropLast = some .dir then
        if t.node source ≠ none ∧ replaceable t source dest ∧ ¬source <+: dest ∧
            ¬dest <+: source then
          some (((t.prune dest hd).graft source dest hd hp).prune source hs)
        else none
      else none
    else none
  else none

def rename (t : Tree) (source dest : FsPath) : Option Tree :=
  match resolve t source, resolve t dest with
  | some a, some b => if source.endsInName && dest.endsInName then move t a b else none
  | _, _ => none

def copyTree (t : Tree) (source : Loc) (dest : FsPath) : Option Tree :=
  match resolve t dest with
  | none => none
  | some b =>
    if hd : b ≠ [] then
      if hp : t.node b.dropLast = some .dir then
        if t.node source = some .dir ∧ t.node b = none ∧ dest.endsInName = true ∧
            ¬source <+: b then
          some (t.graft source b hd hp)
        else none
      else none
    else none

variable (t : Tree) (p : FsPath) (l : Loc) (content : Text) (x : Loc)

theorem make_dir_node {made : Tree} {l : Loc} (x : Loc) (h : makeDir t l = some made) :
    made.node x = if x = l then some .dir else t.node x := by
  rw [makeDir] at h
  split_ifs at h with hd hn
  · obtain rfl := Option.some.inj h
    by_cases hx : x = l
    · rw [if_pos hx,hx,hd]
    · rw [if_neg hx]
  · obtain rfl := Option.some.inj h
    rfl

/-- One step of a walk in a tree where the place reached so far is a directory and the
next is not a file. -/
theorem make_dir_step {c : Text} (hl : t.node l = some .dir)
    (hf : t.node (step l c) = none ∨ t.node (step l c) = some .dir) :
    ∃ made, makeDir t (step l c) = some made := by
  rcases hf with hn | hd
  · rw [step] at hn ⊢
    split_ifs at hn ⊢ with h1 h2
    · rw [hl] at hn
      cases hn
    · rcases eq_nil_or_concat l with rfl | ⟨base,name,rfl⟩
      · rw [dropLast_nil,t.top] at hn
        cases hn
      · rw [concat_eq_append] at hl hn
        rw [dropLast_concat] at hn
        rw [t.parent base name (by rw [hl]; exact Option.some_ne_none _)] at hn
        cases hn
    · rw [makeDir, if_neg (by simp [hn]), dif_pos]
      · exact ⟨_,rfl⟩
      · refine ⟨hn,by simp,?_⟩
        rwa [dropLast_concat]
  · exact ⟨t,by rw [makeDir,if_pos hd]⟩

variable (cs : List Text)

theorem make_dirs_frame :
    (makeDirs t l cs).1.node x = t.node x ∨
      (t.node x = none ∧ (makeDirs t l cs).1.node x = some .dir ∧ x ∈ positions l cs) := by
  induction cs generalizing t l with
  | nil => exact .inl rfl
  | cons c cs ih =>
    rw [makeDirs]
    cases hm : makeDir t (step l c) with
    | none => exact .inl rfl
    | some made =>
      have hn := make_dir_node t x hm
      rcases ih made (step l c) with hs | ⟨hnn,hdr,hmm⟩
      · by_cases hx : x = step l c
        · rw [if_pos hx] at hn
          dsimp only
          rw [hs,hn]
          rw [makeDir] at hm
          split_ifs at hm with hd hnw
          · left
            rw [hx,hd]
          · right
            refine ⟨by rw [hx]; exact hnw.1,rfl,?_⟩
            rw [positions,hx]
            exact mem_cons_of_mem l (by cases cs <;> exact mem_cons_self)
        · rw [if_neg hx] at hn
          exact .inl (hs.trans hn)
      · right
        refine ⟨?_,hdr,mem_cons_of_mem l hmm⟩
        rw [hn] at hnn
        split_ifs at hnn
        exact hnn

theorem make_dirs_keeps (h : t.node x = some .dir) : (makeDirs t l cs).1.node x = some .dir := by
  rcases make_dirs_frame t l x cs with hs | ⟨hn,_⟩
  · rw [hs,h]
  · rw [h] at hn
    cases hn

theorem make_dirs_made {cs : List Text} (hl : t.node l = some .dir)
    (hok : (makeDirs t l cs).2 = true) :
    ∀ x ∈ positions l cs, (makeDirs t l cs).1.node x = some .dir := by
  induction cs generalizing t l with
  | nil =>
    intro x hx
    rw [mem_singleton.mp hx]
    exact hl
  | cons c cs ih =>
    intro x hx
    rcases mem_cons.mp hx with rfl | hx
    · exact make_dirs_keeps t x x (c::cs) hl
    · rw [makeDirs] at hok ⊢
      cases hm : makeDir t (step l c) with
      | none =>
        rw [hm] at hok
        cases hok
      | some made =>
        rw [hm] at hok
        have hn := make_dir_node t (step l c) hm
        rw [if_pos rfl] at hn
        exact ih made (step l c) hn hok x hx

theorem make_dirs_succeeds (hl : t.node l = some .dir)
    (hf : ∀ x ∈ positions l cs, t.node x = none ∨ t.node x = some .dir) :
    (makeDirs t l cs).2 = true := by
  induction cs generalizing t l with
  | nil => rfl
  | cons c cs ih =>
    have hnx : step l c ∈ positions l (c::cs) :=
      mem_cons_of_mem l (by cases cs <;> exact mem_cons_self)
    obtain ⟨made,hm⟩ := make_dir_step t l hl (hf _ hnx)
    have hn := fun x => make_dir_node t x hm
    rw [makeDirs,hm]
    apply ih made (step l c) ((hn _).trans (if_pos rfl))
    intro x hx
    rw [hn x]
    split_ifs
    · exact .inr rfl
    · exact hf x (mem_cons_of_mem l hx)

theorem write_file_frame :
    (writeFile t p content).node x = t.node x ∨ (x = p.target ∧ t.node x ≠ some .dir) := by
  rw [writeFile]
  cases hr : resolve t p with
  | none => exact .inl rfl
  | some l =>
    obtain ⟨rfl,_⟩ := resolve_some hr
    dsimp only
    split_ifs with hp hn
    · by_cases hx : x = p.target
      · exact .inr ⟨hx,hx ▸ hp.2.2⟩
      · exact .inl (if_neg hx)
    · exact .inl rfl
    · exact .inl rfl

theorem write_far (hx : x ≠ p.target) : (writeFile t p content).node x = t.node x := by
  rcases write_file_frame t p content x with h | ⟨h,_⟩
  · exact h
  · exact absurd h hx

theorem write_file_written {l : Loc} (hr : resolve t p = some l) (hnm : p.endsInName = true)
    (hl : l ≠ []) (hp : t.node l.dropLast = some .dir) (hn : t.node l ≠ some .dir) :
    (writeFile t p content).node l = some (.file content) := by
  rw [writeFile,hr]
  dsimp only
  rw [dif_pos ⟨hl,hp,hn⟩,if_pos hnm]
  exact if_pos rfl

theorem write_file_skipped
    (h : resolve t p = some p.target → p.endsInName = true → t.node p.target = some .dir) :
    writeFile t p content = t := by
  rw [writeFile]
  cases hr : resolve t p with
  | none => rfl
  | some l =>
    obtain ⟨rfl,_⟩ := resolve_some hr
    dsimp only
    split_ifs with hp hn
    · exact absurd (h hr hn) hp.2.2
    · rfl
    · rfl

theorem write_keeps_dir (h : t.node x = some .dir) :
    (writeFile t p content).node x = some .dir := by
  rcases write_file_frame t p content x with hs | ⟨_,hne⟩
  · rw [hs,h]
  · exact absurd h hne

variable {content}

theorem write_makes_no_dir (h : (writeFile t p content).node x = some .dir) :
    t.node x = some .dir := by
  rw [writeFile] at h
  split at h
  · exact h
  · split_ifs at h with hp hn
    · change (if x = _ then some (Node.file content) else t.node x) = _ at h
      split_ifs at h
      · cases h
      · exact h
    · exact h
    · exact h

theorem remove_all_frame (h : ¬p.target <+: x) : (removeAll t p).node x = t.node x := by
  rw [removeAll]
  cases hr : resolve t p with
  | none => rfl
  | some l =>
    obtain ⟨rfl,_⟩ := resolve_some hr
    dsimp only
    split_ifs
    · exact if_neg h
    · exact if_neg (fun hp => h hp.1)

theorem remove_all_only : (removeAll t p).node x = t.node x ∨ (removeAll t p).node x = none := by
  rw [removeAll]
  cases hr : resolve t p with
  | none => exact .inl rfl
  | some l =>
    dsimp only
    split_ifs
    · exact (ite_eq_or_eq (l <+: x) none (t.node x)).symm
    · exact (ite_eq_or_eq (l <+: x ∧ x ≠ l) none (t.node x)).symm

variable {l p t x}

theorem remove_all_below (hr : resolve t p = some l) (hp : l <+: x) (hx : x ≠ l) :
    (removeAll t p).node x = none := by
  rw [removeAll,hr]
  dsimp only
  split_ifs
  · exact if_pos hp
  · exact if_pos ⟨hp,hx⟩

variable {moved : Tree} {src : Loc}

theorem move_frame {dest x : Loc} (h : move t src dest = some moved) (hs : ¬src <+: x)
    (hd : ¬dest <+: x) : moved.node x = t.node x := by
  rw [move] at h
  split_ifs at h
  obtain rfl := Option.some.inj h
  change (if src <+: x then none else if dest <+: x then _ else
    if dest <+: x then none else t.node x) = _
  rw [if_neg hs,if_neg hd,if_neg hd]

variable {dest : FsPath}

theorem rename_frame {src : FsPath} {x : Loc} (h : rename t src dest = some moved)
    (hs : ¬src.target <+: x) (hd : ¬dest.target <+: x) : moved.node x = t.node x := by
  rw [rename] at h
  split at h
  next a b ha hb =>
    obtain ⟨rfl,_⟩ := resolve_some ha
    obtain ⟨rfl,_⟩ := resolve_some hb
    split_ifs at h
    exact move_frame h hs hd
  next => cases h

theorem copy_tree_frame {copied : Tree} {x : Loc} (h : copyTree t src dest = some copied)
    (hd : ¬dest.target <+: x) : copied.node x = t.node x := by
  rw [copyTree] at h
  cases hr : resolve t dest with
  | none =>
    rw [hr] at h
    cases h
  | some b =>
    rw [hr] at h
    obtain ⟨rfl,_⟩ := resolve_some hr
    dsimp only at h
    split_ifs at h
    obtain rfl := Option.some.inj h
    exact if_neg hd

end EMaster.FileOps
