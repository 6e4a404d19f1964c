import Mathlib

/-!
# A relation stored on both sides

Owners carry a code and a link to a place; places carry the code of their holder.
The sides agree on an owner if its link names exactly the place that holds its
code. Operations write one side at a time, so agreement may be suspended for a set
of owners and is restored by the write to the other side.
-/

set_option autoImplicit false

namespace EMaster.TwoSided

structure Sides (Owner Place Code : Type) where
  owner : Owner → Option (Code × Option Place)
  place : Place → Option (Option Code)

variable {Owner Place Code : Type}

def Held (s : Sides Owner Place Code) (code : Code) (p : Place) : Prop :=
  s.place p = some (some code)

def Coded (s : Sides Owner Place Code) (o : Owner) (code : Code) : Prop :=
  ∃ target, s.owner o = some (code,target)

/-- Codes are keys on both sides, every held code has its owner, and outside the
suspended set the link of an owner is the place that holds its code. -/
structure Agrees (off : Set Owner) (s : Sides Owner Place Code) : Prop where
  unique : ∀ o o' code, Coded s o code → Coded s o' code → o = o'
  owned : ∀ p code, Held s code p → ∃ o, Coded s o code
  single : ∀ p p' code, Held s code p → Held s code p' → p = p'
  sided : ∀ o code target, o ∉ off → s.owner o = some (code,target) →
    ∀ p, target = some p ↔ Held s code p

variable {off : Set Owner} {s : Sides Owner Place Code}

theorem Agrees.mono {off' : Set Owner} (h : Agrees off s) (hs : off ⊆ off') : Agrees off' s :=
  ⟨h.unique,h.owned,h.single,fun o code target ho => h.sided o code target (fun hm => ho (hs hm))⟩

theorem Agrees.resume {o : Owner} {code : Code} {target : Option Place}
    (h : Agrees (insert o off) s) (ho : s.owner o = some (code,target))
    (ht : ∀ p, target = some p ↔ Held s code p) : Agrees off s := by
  refine ⟨h.unique,h.owned,h.single,?_⟩
  intro a c k ha hk p
  by_cases hao : a = o
  · rw [hao,ho] at hk
    obtain ⟨rfl,rfl⟩ := Prod.mk.inj (Option.some.inj hk)
    exact ht p
  · exact h.sided a c k (fun hm => hm.elim hao ha) hk p

section Owners
variable [DecidableEq Owner]

def link (s : Sides Owner Place Code) (o : Owner) (target : Option Place) :
    Sides Owner Place Code :=
  { s with owner := fun o' => (s.owner o').map (fun row => if o' = o then (row.1,target) else row) }

def add (s : Sides Owner Place Code) (o : Owner) (code : Code) (target : Option Place) :
    Sides Owner Place Code :=
  { s with owner := fun o' => if o' = o then some (code,target) else s.owner o' }

theorem coded_link (s : Sides Owner Place Code) (o o' : Owner) (target : Option Place)
    (code : Code) : Coded (link s o target) o' code ↔ Coded s o' code := by
  unfold Coded link
  dsimp only
  cases s.owner o' with
  | none => simp
  | some row =>
    by_cases ho : o' = o
    · simp [ho,Prod.ext_iff]
    · simp [ho]

variable {o : Owner} {s : Sides Owner Place Code} {code : Code}

theorem link_same (target : Option Place) (h : Coded s o code) : (link s o target).owner o = some (code,target) := by
  obtain ⟨old,hold⟩ := h
  simp [link,hold]

theorem link_other (s : Sides Owner Place Code) {o' : Owner} (target : Option Place) (h : o' ≠ o) : (link s o target).owner o' = s.owner o' := by
  cases ho : s.owner o' <;> simp [link,h,ho]

variable {off : Set Owner}

/-- Pointing an owner at the place that holds its code, or nowhere if there is none,
restores the agreement on it. -/
theorem agrees_link {target : Option Place} (h : Agrees (insert o off) s) (hc : Coded s o code)
    (ht : ∀ p, target = some p ↔ Held s code p) : Agrees off (link s o target) := by
  have hl : Agrees (insert o off) (link s o target) := by
    refine ⟨?_,?_,h.single,?_⟩
    · intro a b c ha hb
      exact h.unique a b c ((coded_link s o a _ c).mp ha) ((coded_link s o b _ c).mp hb)
    · intro p c hp
      obtain ⟨a,ha⟩ := h.owned p c hp
      exact ⟨a,(coded_link s o a _ c).mpr ha⟩
    · intro a c k ha hk p
      rw [link_other s _ (fun hao => ha (.inl hao))] at hk
      exact h.sided a c k ha hk p
  exact hl.resume (link_same _ hc) ht

theorem coded_add (code : Code) (target : Option Place) (ho : s.owner o = none) (o' : Owner)
    (code' : Code) :
    Coded (add s o code target) o' code' ↔ (o' = o ∧ code' = code) ∨ Coded s o' code' := by
  unfold Coded add
  by_cases hs : o' = o
  · simp [hs,ho,eq_comm]
  · simp [hs]

theorem agrees_add (target : Option Place) (h : Agrees off s) (ho : s.owner o = none)
    (hn : ∀ o', ¬Coded s o' code) : Agrees (insert o off) (add s o code target) := by
  have hc := coded_add code target ho
  refine ⟨?_,?_,h.single,?_⟩
  · intro a b c ha hb
    rcases (hc a c).mp ha with ⟨rfl,rfl⟩ | ha'
    · rcases (hc b c).mp hb with ⟨rfl,_⟩ | hb'
      · rfl
      · exact absurd hb' (hn b)
    · rcases (hc b c).mp hb with ⟨rfl,rfl⟩ | hb'
      · exact absurd ha' (hn a)
      · exact h.unique a b c ha' hb'
  · intro p c hp
    obtain ⟨a,ha⟩ := h.owned p c hp
    exact ⟨a,(hc a c).mpr (.inr ha)⟩
  · intro a c k ha hk p
    have hold : s.owner a = some (c,k) := (if_neg (fun hao => ha (.inl hao))).symm.trans hk
    exact h.sided a c k (fun hm => ha (.inr hm)) hold p

end Owners

section Places
variable [DecidableEq Place]

def occupy (s : Sides Owner Place Code) (p : Place) (holder : Option Code) :
    Sides Owner Place Code :=
  { s with place := fun p' => (s.place p').map (fun held => if p' = p then holder else held) }

variable {p : Place} {s : Sides Owner Place Code}

theorem occupy_same {old : Option Code} (holder : Option Code) (h : s.place p = some old) : (occupy s p holder).place p = some holder := by
  simp [occupy,h]

theorem occupy_other (s : Sides Owner Place Code) {p' : Place} (holder : Option Code) (h : p' ≠ p) : (occupy s p holder).place p' = s.place p' := by
  cases hp : s.place p' <;> simp [occupy,h,hp]

variable {off : Set Owner} {o : Owner} {code : Code}

theorem agrees_give (h : Agrees (insert o off) s) (hc : Coded s o code) (hp : s.place p = some none)
    (hn : ∀ p', ¬Held s code p') : Agrees (insert o off) (occupy s p (some code)) := by
  -- the holders after the write: the new one at the place, the old ones elsewhere
  have hh (c : Code) (q : Place) :
      Held (occupy s p (some code)) c q ↔ (q = p ∧ c = code) ∨ Held s c q := by
    unfold Held
    by_cases hq : q = p
    · subst hq
      rw [occupy_same _ hp,hp]
      simp [eq_comm]
    · rw [occupy_other s _ hq]
      simp [hq]
  refine ⟨h.unique,?_,?_,?_⟩
  · intro q c hq
    rcases (hh c q).mp hq with ⟨_,rfl⟩ | hold
    · exact ⟨o,hc⟩
    · exact h.owned q c hold
  · intro q q' c hq hq'
    rcases (hh c q).mp hq with ⟨rfl,rfl⟩ | hold
    · rcases (hh c q').mp hq' with ⟨rfl,_⟩ | ho
      · rfl
      · exact absurd ho (hn q')
    · rcases (hh c q').mp hq' with ⟨rfl,rfl⟩ | ho
      · exact absurd hold (hn q)
      · exact h.single q q' c hold ho
  · intro a c k ha hk q
    have hne : c ≠ code := by
      rintro rfl
      exact ha (.inl (h.unique a o c ⟨k,hk⟩ hc))
    rw [hh c q,h.sided a c k ha hk q]
    simp [hne]

theorem agrees_free (h : Agrees (insert o off) s) (hc : Coded s o code) (hp : Held s code p) :
    Agrees (insert o off) (occupy s p none) ∧ ∀ p', ¬Held (occupy s p none) code p' := by
  have hh (c : Code) (q : Place) : Held (occupy s p none) c q ↔ q ≠ p ∧ Held s c q := by
    unfold Held
    by_cases hq : q = p
    · subst hq
      rw [occupy_same none hp]
      simp
    · rw [occupy_other s none hq]
      simp [hq]
  refine ⟨⟨h.unique,?_,?_,?_⟩,?_⟩
  · intro q c hq
    exact h.owned q c ((hh c q).mp hq).2
  · intro q q' c hq hq'
    exact h.single q q' c ((hh c q).mp hq).2 ((hh c q').mp hq').2
  · intro a c k ha hk q
    rw [hh c q,h.sided a c k ha hk q]
    refine ⟨fun hq => ⟨?_,hq⟩,And.right⟩
    rintro rfl
    have hcd : c = code := Option.some.inj (Option.some.inj (hq.symm.trans hp))
    subst hcd
    exact ha (.inl (h.unique a o c ⟨k,hk⟩ hc))
  · intro q hq
    obtain ⟨hne,hold⟩ := (hh code q).mp hq
    exact hne (h.single q p code hold hp)

end Places

end EMaster.TwoSided
