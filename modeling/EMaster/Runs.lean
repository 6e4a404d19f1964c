import Mathlib

/-!
# Runs of a machine

A machine takes events one after the other. A property that every step keeps, as long
as the event meets a condition on the state before it, holds along every run whose
events meet the condition.
-/

set_option autoImplicit false

namespace EMaster.Runs

variable {State Event : Type*} (step : State → Event → State)

def run (s : State) : List Event → State
  | [] => s
  | e::es => run (step s e) es

def Meets (condition : State → Event → Prop) (s : State) : List Event → Prop
  | [] => True
  | e::es => condition s e ∧ Meets condition (step s e) es

instance decidableMeets (condition : State → Event → Prop) [∀ s e, Decidable (condition s e)]
    (s : State) (es : List Event) : Decidable (Meets step condition s es) :=
  match es with
  | [] => .isTrue trivial
  | e::es =>
    have := decidableMeets condition (step s e) es
    inferInstanceAs (Decidable (condition s e ∧ Meets step condition (step s e) es))

variable (cond : State → Event → Prop) (s : State) (es : List Event)

theorem run_append (fs : List Event) : run step s (es++fs) = run step (run step s es) fs := by
  induction es generalizing s with
  | nil => rfl
  | cons e es ih => exact ih (step s e)

theorem meets_append (fs : List Event) :
    Meets step cond s (es++fs) ↔ Meets step cond s es ∧ Meets step cond (run step s es) fs := by
  induction es generalizing s with
  | nil => simp [Meets,run]
  | cons e es ih => simp [Meets,run,ih,and_assoc]

theorem meets_iff_forall :
    Meets step cond s es ↔
      ∀ before e after, es = before++e::after → cond (run step s before) e := by
  constructor
  · rintro hm before e after rfl
    exact ((meets_append step cond s before (e::after)).mp hm).2.1
  · intro ha
    induction es generalizing s with
    | nil => trivial
    | cons e es ih =>
      refine ⟨ha [] e es rfl,ih (step s e) ?_⟩
      intro before f after hs
      exact ha (e::before) f after (by rw [hs]; rfl)

theorem meets_of_forall (h : ∀ e ∈ es, ∀ s, cond s e) : Meets step cond s es := by
  induction es generalizing s with
  | nil => trivial
  | cons e es ih =>
    exact ⟨h e List.mem_cons_self s,ih (step s e) (fun f hf => h f (List.mem_cons_of_mem e hf))⟩

variable (invariant : State → Prop)

theorem run_invariant (hst : ∀ s e, invariant s → cond s e → invariant (step s e)) (s : State)
    (es : List Event) (hs : invariant s) (hm : Meets step cond s es) :
    invariant (run step s es) := by
  induction es generalizing s with
  | nil => exact hs
  | cons e es ih => exact ih (step s e) (hst s e hs hm.1) hm.2

theorem run_always (hst : ∀ s e, invariant s → cond s e → invariant (step s e)) (s : State)
    (es fs : List Event) (hs : invariant s) (hm : Meets step cond s (es++fs)) :
    invariant (run step s es) :=
  run_invariant step cond invariant hst s es hs ((meets_append step cond s es fs).mp hm).1

/-- While the surroundings are as expected, a property that each step breaks unless its event
meets the condition holds in every state of a run exactly if all events meet it. -/
theorem always_iff_meets_within (expected cond : State → Event → Prop)
    (invariant property : State → Prop)
    (hst : ∀ s e, invariant s → expected s e → cond s e → invariant (step s e))
    (hp : ∀ s, invariant s → property s)
    (hb : ∀ s e, invariant s → expected s e → ¬cond s e → ¬property (step s e))
    (s : State) (es : List Event) (hs : invariant s) (hm : Meets step expected s es) :
    (∀ fs gs, es = fs++gs → property (run step s fs)) ↔ Meets step cond s es := by
  induction es generalizing s with
  | nil =>
    refine ⟨fun _ => trivial,fun _ fs gs hsp => ?_⟩
    rw [(List.nil_eq_append_iff.mp hsp).1]
    exact hp s hs
  | cons e es ih =>
    constructor
    · intro ha
      have hmt : cond s e := by
        by_contra hn
        exact hb s e hs hm.1 hn (ha [e] es rfl)
      refine ⟨hmt,(ih (step s e) (hst s e hs hm.1 hmt) hm.2).mp ?_⟩
      intro fs gs hsp
      exact ha (e::fs) gs (by rw [hsp]; rfl)
    · intro hmt fs gs hsp
      cases fs with
      | nil => exact hp s hs
      | cons f fs =>
        injection hsp with hh hr
        subst hh
        exact (ih (step s e) (hst s e hs hm.1 hmt.1) hm.2).mpr hmt.2 fs gs hr

/-- A property that each step breaks unless its event meets the condition holds in every
state of a run exactly if all events meet it. -/
theorem always_iff_meets (property : State → Prop)
    (hst : ∀ s e, invariant s → cond s e → invariant (step s e))
    (hp : ∀ s, invariant s → property s)
    (hb : ∀ s e, invariant s → ¬cond s e → ¬property (step s e)) (s : State) (es : List Event)
    (hs : invariant s) : (∀ fs gs, es = fs++gs → property (run step s fs)) ↔ Meets step cond s es :=
  always_iff_meets_within step (fun _ _ => True) cond invariant property
    (fun s e hs _ => hst s e hs) hp (fun s e hs _ => hb s e hs) s es hs
    (meets_of_forall step _ s es (fun _ _ _ => trivial))

end EMaster.Runs
