import EMaster.Text

/-!
# Directory trees and path resolution

A tree assigns a node to each location; whatever exists stands in an existing
directory, and finitely many locations exist. There are no links. A path is a
sequence of components, walked one directory at a time: every directory passed
through has to exist, and two dots lead to the directory above.
-/

set_option autoImplicit false

namespace EMaster.FileTree
open List

abbrev Loc := List Text

inductive Node where
  | dir
  | file (content : Text)
  deriving DecidableEq

structure Tree where
  node : Loc → Option Node
  locs : List Loc
  top : node [] = some .dir
  parent : ∀ l name, node (l++[name]) ≠ none → node l = some .dir
  covered : ∀ l, node l ≠ none → l ∈ locs

theorem prefix_snoc (a l : Loc) (name : Text) : a <+: l++[name] ↔ a <+: l ∨ a = l++[name] := by
  rw [prefix_concat_iff,or_comm]

variable (t : Tree)

def Tree.prune (l : Loc) (hl : l ≠ []) : Tree where
  node x := if l <+: x then none else t.node x
  locs := t.locs
  top := by
    rw [if_neg (by simpa using hl)]
    exact t.top
  parent := by
    intro x name h
    split_ifs at h with hx
    · exact absurd rfl h
    · rw [if_neg (fun hp => hx ((prefix_snoc l x name).mpr (Or.inl hp)))]
      exact t.parent x name h
  covered := by
    intro x h
    split_ifs at h with hx
    · exact absurd rfl h
    · exact t.covered x h

def Tree.clear (l : Loc) : Tree where
  node x := if l <+: x ∧ x ≠ l then none else t.node x
  locs := t.locs
  top := by
    rw [if_neg (by rintro ⟨hp,hne⟩; exact hne (prefix_nil.mp hp).symm)]
    exact t.top
  parent := by
    intro x name h
    split_ifs at h with hx
    · exact absurd rfl h
    · have hdir := t.parent x name h
      rw [if_neg]
      · exact hdir
      · rintro ⟨hp,_⟩
        have hlonger : l <+: x++[name] := (prefix_snoc l x name).mpr (Or.inl hp)
        have heq : x++[name] = l := by
          by_contra hne
          exact hx ⟨hlonger,hne⟩
        have := hp.length_le
        rw [← heq] at this
        simp only [length_append,length_singleton] at this
        omega
  covered := by
    intro x h
    split_ifs at h with hx
    · exact absurd rfl h
    · exact t.covered x h

def Tree.put (l : Loc) (n : Node) (hl : l ≠ [])
    (hp : t.node l.dropLast = some .dir) (hn : t.node l ≠ some .dir) : Tree where
  node x := if x = l then some n else t.node x
  locs := l::t.locs
  top := by
    rw [if_neg hl.symm]
    exact t.top
  parent := by
    intro x name h
    by_cases hx : x++[name] = l
    · have hdir : x = l.dropLast := by rw [← hx,dropLast_concat]
      have hne : l.dropLast ≠ l := by
        intro he
        have := congrArg List.length he
        rw [length_dropLast] at this
        have := length_pos_iff.mpr hl
        omega
      rw [hdir,if_neg hne]
      exact hp
    · rw [if_neg hx] at h
      have hdir := t.parent x name h
      rw [if_neg]
      · exact hdir
      · rintro rfl
        exact hn hdir
  covered := by
    intro x h
    by_cases hx : x = l
    · exact hx ▸ mem_cons_self
    · rw [if_neg hx] at h
      exact mem_cons_of_mem _ (t.covered x h)

def Tree.graft (source dest : Loc) (hd : dest ≠ [])
    (hp : t.node dest.dropLast = some .dir) : Tree where
  node x := if dest <+: x then t.node (source++x.drop dest.length) else t.node x
  locs := t.locs++t.locs.map (fun x => dest++x.drop source.length)
  top := by
    rw [if_neg (by simpa using hd)]
    exact t.top
  parent := by
    intro x name h
    by_cases hx : dest <+: x
    · obtain ⟨rest,rfl⟩ := hx
      rw [if_pos ⟨rest++[name],by simp⟩] at h
      rw [if_pos (prefix_append dest rest),drop_left]
      apply t.parent (source++rest) name
      rwa [append_assoc,drop_left,← append_assoc] at h
    · rw [if_neg hx]
      by_cases hdx : dest = x++[name]
      · rw [hdx,dropLast_concat] at hp
        exact hp
      · rw [if_neg (fun hpre => ((prefix_snoc dest x name).mp hpre).elim hx hdx)] at h
        exact t.parent x name h
  covered := by
    intro x h
    rw [mem_append]
    split_ifs at h with hx
    · right
      obtain ⟨rest,rfl⟩ := hx
      rw [drop_left] at h
      refine mem_map.mpr ⟨source++rest,t.covered _ h,?_⟩
      rw [drop_left]
    · exact Or.inl (t.covered x h)

theorem Tree.dir_above (l x : Loc) (h : x <+: l) (hl : t.node l = some .dir) :
    t.node x = some .dir := by
  induction l using List.reverseRecOn with
  | nil => rwa [prefix_nil.mp h]
  | append_singleton l name ih =>
    rcases (prefix_snoc x l name).mp h with hp | rfl
    · exact ih hp (t.parent l name (by rw [hl]; exact nofun))
    · exact hl

end EMaster.FileTree
