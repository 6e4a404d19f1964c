import EMaster.FileOps

/-!
# Confinement to a directory

Two trees agree outside a directory, except that directories on the way to it may
have been made; or they agree outside a list of directories altogether. Both
relations compose, and each file operation satisfies them under a condition on the
locations it names. The tree that a set of directories spans is the least one in
which they exist.
-/

set_option autoImplicit false

namespace EMaster.Confinement
open FileTree PathWalk FileOps List

def Near (root x : Loc) : Prop := root <+: x ∨ x <+: root

instance (root x : Loc) : Decidable (Near root x) := inferInstanceAs (Decidable (_ ∨ _))

def Confined (root : Loc) (t u : Tree) : Prop :=
  ∀ x, ¬root <+: x → u.node x = t.node x ∨ (x <+: root ∧ t.node x = none ∧ u.node x = some .dir)

def Within (dirs : List Loc) (t u : Tree) : Prop :=
  ∀ x, (∀ d ∈ dirs, ¬d <+: x) → u.node x = t.node x

variable (root : Loc) (dirs : List Loc) (t : Tree) (p : FsPath)

theorem confined_refl : Confined root t t := fun _ _ => .inl rfl

theorem confined_trans (u v : Tree) (h1 : Confined root t u) (h2 : Confined root u v) :
    Confined root t v := by
  intro x hx
  rcases h1 x hx with h | ⟨hp,hn,hd⟩ <;> rcases h2 x hx with h' | ⟨hp',hn',hd'⟩
  · exact .inl (h'.trans h)
  · exact .inr ⟨hp',h ▸ hn',hd'⟩
  · exact .inr ⟨hp,hn,h'.trans hd⟩
  · rw [hd] at hn'
    cases hn'

variable {u : Tree}

theorem confined_below (h : Within dirs t u) (hd : ∀ d ∈ dirs, root <+: d) : Confined root t u := by
  intro x hx
  exact .inl (h x (fun d hm hp => hx ((hd d hm).trans hp)))

theorem within_refl : Within dirs t t := fun _ _ => rfl

variable {dirs}

theorem within_trans {v : Tree} (h1 : Within dirs t u) (h2 : Within dirs u v) :
    Within dirs t v := by
  intro x hx
  exact (h2 x hx).trans (h1 x hx)

theorem within_remove_all (h : p.target ∈ dirs) : Within dirs t (removeAll t p) := by
  intro x hx
  exact remove_all_frame t p x (hx p.target h)

theorem within_rename {moved : Tree} {src dest : FsPath} (h : rename t src dest = some moved)
    (hs : src.target ∈ dirs) (hd : dest.target ∈ dirs) : Within dirs t moved := by
  intro x hx
  exact rename_frame h (hx _ hs) (hx _ hd)

theorem confined_remove (h : root <+: p.target) : Confined root t (removeAll t p) := by
  intro x hx
  exact .inl (remove_all_frame t p x (fun hp => hx (h.trans hp)))

theorem confined_create (h : ∀ x ∈ positions [] p.comps, Near root x) :
    Confined root t (createDirectories t p).1 := by
  intro x hx
  rcases make_dirs_frame t [] x p.comps with hs | ⟨hn,hd,hm⟩
  · exact .inl hs
  · rcases h x hm with hin | hup
    · exact absurd hin hx
    · exact .inr ⟨hup,hn,hd⟩

variable {p root t}

theorem confined_write {content : Text} (h : root <+: p.target ∨ writeFile t p content = t) :
    Confined root t (writeFile t p content) := by
  rcases h with h | h
  · intro x hx
    rcases write_file_frame t p content x with hs | ⟨rfl,_⟩
    · exact .inl hs
    · exact absurd h hx
  · rw [h]
    exact confined_refl root t

def spanNode (qs : List Loc) (l : Loc) : Option Node :=
  if l = [] ∨ ∃ q ∈ qs, l <+: q then some .dir else none

def span (qs : List Loc) : Tree where
  node := spanNode qs
  locs := [] :: qs.flatMap List.inits
  top := if_pos (Or.inl rfl)
  parent := by
    intro l name h
    rw [spanNode] at h
    split_ifs at h with hs
    · rcases hs with hnil | ⟨q,hq,hp⟩
      · exact absurd hnil (by simp)
      · exact if_pos (Or.inr ⟨q,hq,(prefix_append l [name]).trans hp⟩)
    · exact absurd rfl h
  covered := by
    intro l h
    rw [spanNode] at h
    split_ifs at h with hs
    · rcases hs with rfl | ⟨q,hq,hp⟩
      · exact mem_cons_self
      · exact mem_cons_of_mem _ (mem_flatMap.mpr ⟨q,hq,(mem_inits l q).mpr hp⟩)
    · exact absurd rfl h

variable {qs : List Loc} {l : Loc}

theorem span_dir {q : Loc} (hq : q ∈ qs) (h : l <+: q) :
    (span qs).node l = some .dir := if_pos (.inr ⟨q,hq,h⟩)

theorem span_none (hl : l ≠ []) (h : ∀ q ∈ qs, ¬l <+: q) : (span qs).node l = none := by
  apply if_neg
  rintro (hn | ⟨q,hq,hp⟩)
  · exact hl hn
  · exact h q hq hp

theorem span_no_file (qs : List Loc) (l : Loc) :
    (span qs).node l = none ∨ (span qs).node l = some .dir :=
  (ite_eq_or_eq (l = [] ∨ ∃ q ∈ qs, l <+: q) (some Node.dir) none).symm

def freshName (used : List Text) : Text := List.replicate (used.flatten.length+3) 'x'

theorem fresh_name_longer {used : List Text} {n : Text} (h : n ∈ used) :
    n.length < (freshName used).length := by
  have hle := (sublist_flatten_of_mem h).length_le
  rw [freshName,length_replicate]
  omega

end EMaster.Confinement
