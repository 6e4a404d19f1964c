import EMaster.Runs

/-!
# Calls that take turns

A call asks for one operation on a shared state at a time and goes on with the answer. The
operations of several calls come in any order.
-/

set_option autoImplicit false

namespace EMaster.Calls
open Runs

inductive Call (Op : Type) (Answer : Op → Type) (Result : Type) where
  | done (result : Result)
  | ask (op : Op) (next : Answer op → Call Op Answer Result)

variable {Op : Type} {Answer : Op → Type} {Result State Input : Type}

structure Sys (State Op : Type) (Answer : Op → Type) (Result : Type) where
  state : State
  calls : List (Call Op Answer Result)

inductive Event (Input Op : Type) (Answer : Op → Type) (Result : Type) where
  | start (call : Call Op Answer Result)
  | turn (i : ℕ) (input : Input)

variable (perform : Input → State → (op : Op) → State×Answer op)

def step (s : Sys State Op Answer Result) :
    Event Input Op Answer Result → Sys State Op Answer Result
  | .start call => { s with calls := s.calls++[call] }
  | .turn i input =>
    match s.calls[i]? with
    | some (.ask op next) =>
      ⟨(perform input s.state op).1,s.calls.set i (next (perform input s.state op).2)⟩
    | _ => s

variable (grows : State → State → Prop) (property : State → Prop)

/-- A call that keeps the property from a state on, while others may let the state grow before
each of its operations. -/
def Safe : Call Op Answer Result → State → Prop
  | .done _, _ => True
  | .ask op next, s => ∀ input t, grows s t → property (perform input t op).1 ∧
      Safe (next (perform input t op).2) (perform input t op).1

variable (quiet : Op → Prop) (fresh : Call Op Answer Result → Prop)

/-- An operation that is not quiet is carried out while every other call is over or has not
begun. -/
def Alone (s : Sys State Op Answer Result) : Event Input Op Answer Result → Prop
  | .start _ => True
  | .turn i _ => ∀ op next, s.calls[i]? = some (.ask op next) → ¬quiet op →
      ∀ j call, j ≠ i → s.calls[j]? = some call → (∃ result, call = .done result) ∨ fresh call

variable {perform grows property quiet fresh}

theorem safe_grows (ht : ∀ r s t, grows r s → grows s t → grows r t)
    {call : Call Op Answer Result} {s t : State} (hg : grows s t)
    (h : Safe perform grows property call s) : Safe perform grows property call t := by
  cases call with
  | done result => trivial
  | ask op next => exact fun input u hu => h input u (ht s t u hg hu)

variable (ht : ∀ r s t, grows r s → grows s t → grows r t) (hr : ∀ s, grows s s)
  (hq : ∀ input s op, quiet op → grows s (perform input s op).1)
  (hf : ∀ call s, fresh call → property s → Safe perform grows property call s)
include ht hr hq hf

/-- Between quiet operations of others a call stays safe, and the others wait for the rest. -/
theorem safe_turn {s : Sys State Op Answer Result} {i : ℕ} {input : Input} (hp : property s.state)
    (hs : ∀ call ∈ s.calls, Safe perform grows property call s.state)
    (ha : Alone quiet fresh s (.turn i input)) :
    property (step perform s (.turn i input)).state ∧
      ∀ call ∈ (step perform s (.turn i input)).calls,
        Safe perform grows property call (step perform s (.turn i input)).state := by
  rw [step]
  cases hc : s.calls[i]? with
  | none => exact ⟨hp,hs⟩
  | some call =>
    cases call with
    | done result => exact ⟨hp,hs⟩
    | ask op next =>
      obtain ⟨hn,hsafe⟩ := hs _ (List.mem_of_getElem? hc) input s.state (hr _)
      refine ⟨hn,fun call hcall => ?_⟩
      obtain ⟨j,hj⟩ := List.mem_iff_getElem?.mp hcall
      rw [List.getElem?_set] at hj
      split_ifs at hj with hij hlt
      · obtain rfl := Option.some.inj hj
        exact hsafe
      · by_cases hquiet : quiet op
        · exact safe_grows ht (hq input s.state op hquiet) (hs call (List.mem_of_getElem? hj))
        · rcases ha op next hc hquiet j call (Ne.symm hij) hj with ⟨result,rfl⟩ | hfresh
          · trivial
          · exact hf call _ hfresh hn

/-- Calls that are safe on their own keep the property along every interleaving in which the
operations that are not quiet are carried out alone. -/
theorem alone_keeps {s : Sys State Op Answer Result} (past rest : List (Event Input Op Answer Result))
    (hstart : ∀ call, .start call ∈ past → fresh call) (hp : property s.state)
    (hs : ∀ call ∈ s.calls, Safe perform grows property call s.state)
    (hm : Meets (step perform) (Alone quiet fresh) s (past++rest)) :
    property (run (step perform) s past).state := by
  induction past generalizing s with
  | nil => exact hp
  | cons e past ih =>
    have hrest : ∀ call, .start call ∈ past → fresh call :=
      fun call hc => hstart call (List.mem_cons_of_mem _ hc)
    cases e with
    | start call =>
      refine ih hrest hp (fun c hc => ?_) hm.2
      rcases List.mem_append.mp hc with hc | hc
      · exact hs c hc
      · rw [List.mem_singleton.mp hc]
        exact hf call _ (hstart call List.mem_cons_self) hp
    | turn i input =>
      obtain ⟨hp',hs'⟩ := safe_turn ht hr hq hf hp hs hm.1
      exact ih hrest hp' hs' hm.2

end EMaster.Calls
