import Mathlib

/-!
# Programs that may not have returned

A program works on a world and returns a value, or it has not returned yet. In both cases
there is the world as it has been changed so far. A triple says what holds of the world all
along, and what holds when the program returns.
-/

set_option autoImplicit false

namespace EMaster.Program

def Prog (W α : Type) : Type := W → Option α×W

variable {W α β : Type}

instance : Monad (Prog W) where
  pure a := fun w => (some a,w)
  bind m f := fun w =>
    match m w with
    | (some a,w') => f a w'
    | (none,w') => (none,w')

def unfinished : Prog W α := fun w => (none,w)

def ask (f : W → α) : Prog W α := fun w => (some (f w),w)

def modify (f : W → W) : Prog W Unit := fun w => (some (),f w)

theorem pure_apply (a : α) (w : W) : (pure a : Prog W α) w = (some a,w) := rfl

theorem bind_apply (m : Prog W α) (f : α → Prog W β) (w : W) :
    (m >>= f) w = match m w with
      | (some a,w') => f a w'
      | (none,w') => (none,w') := rfl

theorem bind_returned {m : Prog W α} {f : α → Prog W β} {w w' : W} {a : α}
    (h : m w = (some a,w')) : (m >>= f) w = f a w' := by
  rw [bind_apply,h]

def Triple (always pre : W → Prop) (m : Prog W α) (post : α → W → Prop) : Prop :=
  ∀ w, pre w → always (m w).2 ∧ ∀ a, (m w).1 = some a → post a (m w).2

section Rules
variable {always pre pre' : W → Prop} {post post' : α → W → Prop} {m : Prog W α}

theorem Triple.weaken (h : Triple always pre m post) (hpr : ∀ w, pre' w → pre w)
    (hp : ∀ a w, post a w → post' a w) : Triple always pre' m post' := by
  intro w hw
  obtain ⟨hal,hr⟩ := h w (hpr w hw)
  exact ⟨hal,fun a ha => hp a _ (hr a ha)⟩

theorem Triple.pure (a : α) (h : ∀ w, pre w → always w ∧ post a w) :
    Triple always pre (pure a) post := by
  intro w hw
  obtain ⟨ha,hp⟩ := h w hw
  refine ⟨ha,?_⟩
  rintro b hb
  cases hb
  exact hp

theorem Triple.unfinished (h : ∀ w, pre w → always w) : Triple always pre unfinished post := by
  intro w hw
  refine ⟨h w hw,?_⟩
  rintro a ha
  cases ha

theorem Triple.bind {f : α → Prog W β} {final : β → W → Prop} (hm : Triple always pre m post)
    (hf : ∀ a, Triple always (post a) (f a) final) : Triple always pre (m >>= f) final := by
  intro w hw
  obtain ⟨ha,hr⟩ := hm w hw
  rw [bind_apply]
  rcases hrn : m w with ⟨_ | a,w'⟩
  · rw [hrn] at ha
    refine ⟨ha,?_⟩
    rintro b hb
    cases hb
  · rw [hrn] at hr
    exact hf a w' (hr a rfl)

theorem Triple.ite {c : Prop} [Decidable c] {n : Prog W α} (hm : c → Triple always pre m post)
    (hn : ¬c → Triple always pre n post) : Triple always pre (if c then m else n) post := by
  by_cases hc : c
  · rw [if_pos hc]
    exact hm hc
  · rw [if_neg hc]
    exact hn hc

theorem Triple.given {known : Prop} (h : known → Triple always pre m post) :
    Triple always (fun w => pre w ∧ known) m post := by
  rintro w ⟨hw,hk⟩
  exact h hk w hw

theorem Triple.ask {f : W → α} (h : ∀ w, pre w → always w ∧ post (f w) w) :
    Triple always pre (ask f) post := by
  intro w hw
  obtain ⟨hal,hp⟩ := h w hw
  refine ⟨hal,?_⟩
  rintro a ha
  cases ha
  exact hp

theorem Triple.modify {f : W → W} {final : Unit → W → Prop}
    (h : ∀ w, pre w → always (f w) ∧ final () (f w)) : Triple always pre (modify f) final := by
  intro w hw
  obtain ⟨ha,hf⟩ := h w hw
  exact ⟨ha,fun _ _ => hf⟩

end Rules

end EMaster.Program
