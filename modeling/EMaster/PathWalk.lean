import EMaster.FileTree

/-!
# Walking a path

The components of a path are taken one after the other from the top: an empty
component or a dot stays, two dots go up, a name goes down. A text handed to the
system ends at its first zero character, so whatever is joined to a path that
contains one is never read.
-/

set_option autoImplicit false

namespace EMaster.PathWalk
open FileTree List

def isName (c : Text) : Bool := !(c = [] || c = ['.'] || c = ['.','.'])

def step (l : Loc) (c : Text) : Loc :=
  if c = [] ∨ c = ['.'] then l else if c = ['.','.'] then l.dropLast else l++[c]

def walk (l : Loc) : List Text → Loc
  | [] => l
  | c::cs => walk (step l c) cs

def stops (l : Loc) : List Text → List Loc
  | [] => []
  | c::cs => l::stops (step l c) cs

def positions (l : Loc) : List Text → List Loc
  | [] => [l]
  | c::cs => l::positions (step l c) cs

def Named (ns : List Text) : Prop := ∀ n ∈ ns, isName n = true

instance (ns : List Text) : Decidable (Named ns) :=
  inferInstanceAs (Decidable (∀ n ∈ ns, isName n = true))

variable {c : Text} (l : Loc)

theorem step_name (h : isName c = true) : step l c = l++[c] := by
  simp only [isName,Bool.not_eq_true',Bool.or_eq_false_iff,decide_eq_false_iff_not] at h
  rw [step,if_neg (not_or.mpr ⟨h.1.1,h.1.2⟩),if_neg h.2]

theorem walk_append (a b : List Text) : walk l (a++b) = walk (walk l a) b := by
  induction a generalizing l with
  | nil => rfl
  | cons c a ih => exact ih (step l c)

theorem stops_append (a b : List Text) : stops l (a++b) = stops l a++stops (walk l a) b := by
  induction a generalizing l with
  | nil => rfl
  | cons c a ih => exact congrArg (l :: ·) (ih (step l c))

variable (x : Loc) (cs : List Text)

theorem positions_eq : positions l cs = stops l cs++[walk l cs] := by
  induction cs generalizing l with
  | nil => rfl
  | cons c cs ih => exact congrArg (l :: ·) (ih (step l c))

theorem mem_positions : x ∈ positions l cs ↔ x ∈ stops l cs ∨ x = walk l cs := by
  rw [positions_eq,mem_append,mem_singleton]

theorem step_mem {c n : Text} (h : n ∈ step l c) : n ∈ l ∨ n = c := by
  rw [step] at h
  split_ifs at h
  · exact .inl h
  · exact .inl (mem_of_mem_dropLast h)
  · rcases mem_append.mp h with h | h
    · exact .inl h
    · exact .inr (mem_singleton.mp h)

theorem position_names {n : Text} (hx : x ∈ positions l cs) (hn : n ∈ x) : n ∈ l ∨ n ∈ cs := by
  induction cs generalizing l with
  | nil =>
    rw [mem_singleton.mp hx] at hn
    exact .inl hn
  | cons c cs ih =>
    rcases mem_cons.mp hx with rfl | hx
    · exact .inl hn
    · rcases ih (step l c) hx with h | h
      · rcases step_mem l h with h | rfl
        · exact .inl h
        · exact .inr mem_cons_self
      · exact .inr (mem_cons_of_mem c h)

theorem walk_snoc_name (h : isName c = true) :
    walk l (cs++[c]) = walk l cs++[c] ∧ walk l cs ∈ stops l (cs++[c]) := by
  constructor
  · rw [walk_append]
    exact step_name _ h
  · rw [stops_append]
    exact mem_append_right _ mem_cons_self

variable {ns : List Text}

theorem walk_named (h : Named ns) : walk l ns = l++ns := by
  induction ns generalizing l with
  | nil => exact (append_nil l).symm
  | cons n ns ih =>
    rw [walk, step_name l (h n mem_cons_self),
      ih (l++[n]) (fun m hm => h m (mem_cons_of_mem n hm)), append_assoc]
    rfl

theorem stops_named (h : Named ns) : x ∈ stops l ns ↔ l <+: x ∧ x <+: l++ns ∧ x ≠ l++ns := by
  induction ns generalizing l with
  | nil =>
    constructor
    · intro hx
      cases hx
    · rintro ⟨h1,h2,h3⟩
      rw [append_nil] at h2 h3
      exact absurd (h2.eq_of_length_le h1.length_le) h3
  | cons n ns ih =>
    have hns : Named ns := fun m hm => h m (mem_cons_of_mem n hm)
    have ha : l++[n]++ns = l++n::ns := by rw [append_assoc]; rfl
    rw [stops, step_name l (h n mem_cons_self), mem_cons, ih (l++[n]) hns, ha]
    constructor
    · rintro (rfl | ⟨h1,h2,h3⟩)
      · refine ⟨prefix_rfl,prefix_append x (n::ns),?_⟩
        intro he
        exact cons_ne_nil n ns (self_eq_append_right.mp he)
      · exact ⟨(prefix_append l [n]).trans h1,h2,h3⟩
    · rintro ⟨⟨rest,rfl⟩,h2,h3⟩
      cases rest with
      | nil => exact .inl (append_nil l)
      | cons m rest =>
        have hm := prefix_append_right_inj l |>.mp h2
        obtain ⟨rfl,_⟩ := cons_prefix_cons.mp hm
        refine .inr ⟨⟨rest,?_⟩,h2,h3⟩
        rw [append_assoc]
        rfl

structure FsPath where
  comps : List Text
  cut : Bool

def cString (text : Text) : Text := text.takeWhile (· ≠ '\x00')

def FsPath.ofText (text : Text) : FsPath where
  comps := List.splitOn '/' (cString text)
  cut := text.contains '\x00'

def FsPath.isAbsolute (text : Text) : Bool := text.head? = some '/'

def FsPath.join (base : FsPath) (text : Text) : FsPath :=
  if FsPath.isAbsolute text then FsPath.ofText text
  else if base.cut then base
  else ⟨base.comps++(FsPath.ofText text).comps,(FsPath.ofText text).cut⟩

def FsPath.endsInName (p : FsPath) : Bool :=
  match p.comps.getLast? with
  | none => false
  | some c => isName c

variable {p : FsPath}

theorem ends_in_name (h : p.endsInName = true) : ∃ cs c, p.comps = cs++[c] ∧ isName c = true := by
  rw [FsPath.endsInName] at h
  cases hl : p.comps.getLast? with
  | none =>
    rw [hl] at h
    cases h
  | some c =>
    rw [hl] at h
    obtain ⟨cs,hcs⟩ := List.getLast?_eq_some_iff.mp hl
    exact ⟨cs,c,hcs,h⟩

def FsPath.target (p : FsPath) : Loc := walk [] p.comps

def resolve (t : Tree) (p : FsPath) : Option Loc :=
  if ∀ l ∈ stops [] p.comps, t.node l = some .dir then some p.target else none

variable {t : Tree}

theorem resolve_some {l : Loc} (h : resolve t p = some l) :
    l = p.target ∧ ∀ x ∈ stops [] p.comps, t.node x = some .dir := by
  rw [resolve] at h
  split_ifs at h with hs
  exact ⟨(Option.some.inj h).symm,hs⟩

theorem resolve_passed (h : ∀ x ∈ stops [] p.comps, t.node x = some .dir) :
    resolve t p = some p.target := by
  rw [resolve,if_pos h]

variable {root : Loc}

theorem target_rooted (hn : Named root) (cs : List Text) (cut : Bool) :
    (FsPath.mk (root++cs) cut).target = walk root cs := by
  rw [FsPath.target, walk_append, walk_named [] hn, nil_append]

theorem positions_rooted (hn : Named root) (cs : List Text) (x : Loc) :
    x ∈ positions [] (root++cs) ↔ x <+: root ∧ x ≠ root ∨ x ∈ positions root cs := by
  rw [positions_eq, stops_append, walk_append, walk_named [] hn, nil_append,
    append_assoc, ← positions_eq, mem_append, stops_named [] x hn]
  simp

theorem resolve_rooted (hn : Named root) {cs : List Text} (cut : Bool)
    (hr : t.node root = some .dir) (hs : ∀ x ∈ stops root cs, t.node x = some .dir) :
    resolve t ⟨root++cs,cut⟩ = some (walk root cs) := by
  rw [resolve_passed,target_rooted hn]
  intro x hx
  rw [stops_append, walk_named [] hn, nil_append, mem_append, stops_named [] x hn] at hx
  rcases hx with ⟨_,hx,_⟩ | hx
  · exact t.dir_above root x hx hr
  · exact hs x hx

theorem join_single (base : FsPath) (n : Text) (hc : base.cut = false) (hs : '/' ∉ n) :
    base.join n = ⟨base.comps++[cString n],n.contains '\x00'⟩ := by
  have ha : FsPath.isAbsolute n = false := by
    rw [FsPath.isAbsolute,decide_eq_false_iff_not]
    intro h
    exact hs (mem_of_mem_head? h)
  have hsp : List.splitOn '/' (cString n) = [cString n] :=
    splitOn_eq_singleton (fun h => hs (takeWhile_subset _ h))
  rw [FsPath.join,ha,hc,if_neg Bool.false_ne_true,if_neg Bool.false_ne_true,FsPath.ofText,hsp]

theorem join_name {base : FsPath} {n : Text} (hct : base.cut = false) (hs : '/' ∉ n)
    (hz : '\x00' ∉ n) : base.join n = ⟨base.comps++[n],false⟩ := by
  have hc : cString n = n := by
    rw [cString,takeWhile_eq_self_iff]
    intro c hc
    rw [decide_eq_true_iff]
    rintro rfl
    exact hz hc
  have hk : n.contains '\x00' = false := by
    rw [Bool.eq_false_iff,Ne,contains_iff_mem]
    exact hz
  rw [join_single base n hct hs,hc,hk]

end EMaster.PathWalk
