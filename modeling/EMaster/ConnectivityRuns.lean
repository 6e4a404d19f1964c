import EMaster.ConnectivitySessions

/-!
# Handles against connections, sessions against connections

The state of a handle and the state of its connection are written by different layers, and a
connection can be forgotten while the transport still holds its session.
-/

set_option autoImplicit false

namespace EMaster.Connectivity
open KeyedTable Text Managers Option EMaster.Connectivity.Runtime

/-! ## The state of a handle -/

def Task.isData : Task → Bool
  | .setUp .. | .takeDown .. | .publish .. | .request .. => true
  | _ => false

inductive Call where
  | own (op : Op)
  | data (t : Task) (h : t.isData = true)

def Runtime.call (s : Runtime) : Call → Runtime
  | .own op => step s op
  | .data t _ => { s with managers := (s.managers.serve t).1 }

abbrev Managers.state (m : Managers) : Kind → Text → Option ConnectionState :=
  m.view Connection.state

def Agrees (s : Runtime) : Prop :=
  ∀ i h, s.registry.get i = some h →
    (h.state = .started ↔ s.managers.state h.kind (ofNat i) = some .connected)

/-- A start that connects and cannot restore everything is one of a handle started before, and
no request that is sent uses up its attempts. -/
def Keeps (s : Runtime) : Call → Prop
  | .own (.start owner i a) => ∀ g c, s.registry.get i = some g → g.owner = owner →
      g.kind ≠ .rest → s.managers.connections g.kind (ofNat i) = some c → a.connect = true →
      c.recorded.all a.restore = false → g.state = .started
  | .data (.request id path method reply) _ => ∀ c, s.managers.connections .rest id = some c →
      c.state = .connected → path.head? = some '/' → blank method = false →
      attempts reply (min (c.config.maxRetries+1) (2^32-1)) ≠ none
  | _ => True

variable (m : Managers) (a : Answers) (k : Kind) (id : Text) (s : Runtime)

theorem agrees_at {i : ℕ} {r : Registry} {v : Option ConnectionState} (h : Agrees s)
    (hr : ∀ j, j ≠ i → r.get j = s.registry.get j)
    (hm : m.state = setAt s.managers.state k (ofNat i) v)
    (hat : ∀ x, r.get i = some x → x.kind = k ∧ (x.state = .started ↔ v = some .connected)) :
    Agrees ⟨r,m⟩ := by
  intro j x hx
  by_cases hj : j = i
  · subst hj
    rw [(hat x hx).2]
    dsimp only
    rw [hm,setAt,if_pos ⟨(hat x hx).1,rfl⟩]
  · dsimp only
    rw [hm,setAt,if_neg (fun hp => hj (of_nat_injective hp.2))]
    exact h j x (by rw [← hr j hj]; exact hx)

theorem get_set_state {r : Registry} {i : ℕ} {g : Handle} (state : HandleState)
    (hg : r.get i = some g) : (r.setState i state).get i = some { g with state } ∧
      ∀ j, j ≠ i → (r.setState i state).get j = r.get j := by
  have hid := ((get_some r i g).mp hg).2
  refine ⟨?_,fun j hj => ?_⟩
  · rw [Registry.setState,get_modify,hg,map_some,patchRow,if_pos hid]
  · rw [Registry.setState,get_modify]
    cases hx : r.get j with
    | none => rfl
    | some x =>
      rw [map_some, patchRow, if_neg (by rw [((get_some r j x).mp hx).2]; exact hj)]

theorem revise_view {α : Type} {f : Connection → α} (chg : List Item → List Item)
    (hf : ∀ c items, f { c with recorded := items } = f c) :
    (m.revise a k id chg).1.view f = m.view f := by
  rw [revise]
  rcases connected_cases m a k id _ with ⟨e,he⟩ | ⟨c,hc,_,hr⟩
  · rw [he]
  · rw [hr]
    exact view_kept f m k id _ hc (hf c _)

theorem request_failed_iff (path method : Text) (reply : ℕ → Option ℕ) :
    (m.request id path method reply).2 = some .transport ↔
      ∃ c, m.connections .rest id = some c ∧ c.state = .connected ∧ path.head? = some '/' ∧
        blank method = false ∧ attempts reply (min (c.config.maxRetries+1) (2^32-1)) = none := by
  simp only [request]
  cases m.connections .rest id with
  | none => simp
  | some c =>
    dsimp only
    split_ifs with hs hp
    · simp [hs]
    · rw [ne_eq] at hp
      simp only [some.injEq,exists_eq_left']
      exact iff_of_false (by simp) fun hn => hp.elim (fun h => h hn.2.1) fun h => by
        rw [hn.2.2.1] at h
        cases h
    · simp only [not_or,ne_eq,not_not] at hs hp
      simp only [some.injEq,exists_eq_left',hs,hp]
      cases attempts reply (min (c.config.maxRetries+1) (2^32-1)) <;> simp

/-- The data operations keep the configuration of every connection and, a failing request
apart, its state. -/
theorem data_view {t : Task} (h : t.isData = true) :
    (m.serve t).1.config = m.config ∧ ((m.serve t).1.state = m.state ∨
      ∃ id path method reply, t = .request id path method reply ∧
        (m.request id path method reply).2 = some .transport) := by
  cases t with
  | setUp k id item a =>
    rw [serve,setUp]
    split_ifs
    · exact ⟨rfl,.inl rfl⟩
    · exact ⟨revise_view m a k id _ (fun _ _ => rfl),.inl (revise_view m a k id _ (fun _ _ => rfl))⟩
  | takeDown k id slot a =>
    rw [serve,takeDown]
    split_ifs
    · exact ⟨rfl,.inl rfl⟩
    · exact ⟨revise_view m a k id _ (fun _ _ => rfl),.inl (revise_view m a k id _ (fun _ _ => rfl))⟩
  | publish k id a =>
    rw [serve,publish]
    rcases connected_cases m a k id _ with ⟨e,he⟩ | ⟨c,_,_,hr⟩
    · rw [he]; exact ⟨rfl,.inl rfl⟩
    · rw [hr]; exact ⟨rfl,.inl rfl⟩
  | request id path method reply =>
    rw [serve]
    rcases request_cases m id path _ reply with ⟨hs,_⟩ | ⟨c,hc,_,hf⟩
    · rw [hs]
      exact ⟨rfl,.inl rfl⟩
    · refine ⟨?_,.inr ⟨id,path,method,reply,rfl,by rw [hf]⟩⟩
      rw [hf]
      exact view_kept _ m _ id _ hc rfl
  | _ => cases h

variable (c : Call)

theorem linked_call (h : Linked s) : Linked (s.call c) := by
  cases c with
  | own op => exact linked_step s op h
  | data t ht => exact linked_kept _ s h (data_view s.managers ht).1 rfl

theorem agrees_dispatch {own : Text} {i : ℕ} {act : Kind → Text → Outcome}
    {state : HandleState} (h : Agrees s) (ha : ∀ g, s.registry.get i = some g →
      g.owner = own → (act g.kind (ofNat i)).1 = s.managers ∧ (act g.kind (ofNat i)).2 ≠ none ∨
        ∃ v, (act g.kind (ofNat i)).1.state =
          setAt s.managers.state g.kind (ofNat i) (some v) ∧
          ((act g.kind (ofNat i)).2 = none ∧ (state = .started ↔ v = .connected) ∨
            (act g.kind (ofNat i)).2 ≠ none ∧ (g.state = .started ↔ v = .connected))) :
    Agrees (s.dispatch own i act (·.setState i state)).1 := by
  rcases dispatch_cases s own i act _ with hd |
    ⟨g,hg,ho,⟨e,he,hd⟩ | ⟨he,hd⟩⟩ <;> rw [hd]
  · exact h
  · rcases ha g hg ho with ⟨hsa,_⟩ | ⟨v,hv,⟨hn,_⟩ | ⟨_,hs⟩⟩
    · rw [hsa]; exact h
    · rw [hn] at he; cases he
    · refine agrees_at _ _ s h (fun _ _ => rfl) hv fun x hx => ?_
      obtain rfl := some.inj (hg.symm.trans hx)
      exact ⟨rfl,by simpa using hs⟩
  · rcases ha g hg ho with ⟨_,hsm⟩ | ⟨v,hv,⟨_,hs⟩ | ⟨hsm,_⟩⟩
    · exact absurd he hsm
    · obtain ⟨hat,hot⟩ := get_set_state state hg
      refine agrees_at _ _ s h hot hv fun x hx => ?_
      obtain rfl := some.inj (hat.symm.trans hx)
      exact ⟨rfl,by simpa using hs⟩
    · exact absurd he hsm

section Calls
variable {s} (h : Agrees s) (owner : Text) (i : ℕ)
include h

theorem agrees_create (config : Config) : Agrees (step s (.create owner config)) := by
  rw [step,perform]
  rcases create_result s owner config with ⟨r,e,hr,_,hgt⟩ | ⟨_,_,hm⟩
  · rw [hr]
    exact fun i g hg => h i g (by rw [← hgt]; exact hg)
  · rw [hm]
    refine agrees_at _ _ s h
      (fun j hj => by rw [get_push,if_neg hj]) (view_put _ _ _ _ _ _) fun x hx => ?_
    rw [get_push,if_pos rfl] at hx
    obtain rfl := some.inj hx
    refine ⟨rfl,by simp [initialState]; split_ifs <;> simp⟩

theorem agrees_start (hk : Keeps s (.own (.start owner i a))) :
    Agrees (step s (.start owner i a)) := by
  refine agrees_dispatch s h fun g hg ho => ?_
  rcases start_cases _ a _ _ with ⟨e,hr,_⟩ | ⟨d,w,e,hd,hr,hcs⟩
  · exact .inl (by rw [hr]; exact ⟨rfl,some_ne_none _⟩)
  · have hv := view_put Connection.state s.managers g.kind (ofNat i)
      (some { d with state := .connected }) w
    refine .inr ⟨.connected,by rw [hr]; exact hv,?_⟩
    cases e with
    | none => exact .inl ⟨by rw [hr],by simp⟩
    | some e =>
      obtain ⟨hrest,ha,_,he⟩ := hcs.resolve_left (fun hrs => some_ne_none _ hrs.2)
      split_ifs at he with hall
      have hst := hk g d hg ho hrest hd ha (Bool.eq_false_iff.mpr hall)
      exact .inr ⟨by rw [hr]; exact some_ne_none _,by simp [hst]⟩

theorem agrees_stop : Agrees (step s (.stop owner i a)) := by
  refine agrees_dispatch s h fun g hg ho => ?_
  rcases stop_cases _ a _ _ with ⟨e,hr⟩ | ⟨d,w,_,hr,_⟩
  · exact .inl (by rw [hr]; exact ⟨rfl,some_ne_none _⟩)
  · exact .inr ⟨.disconnected,by rw [hr]; exact view_put _ _ _ _ _ _, .inl ⟨by rw [hr],by simp⟩⟩

theorem agrees_destroy : Agrees (step s (.destroy owner i)) := by
  rw [step,perform]
  rcases dispatch_cases s owner i _ _ with hd |
    ⟨g,hg,ho,⟨e,he,hd⟩ | ⟨he,hd⟩⟩ <;> rw [hd]
  · exact h
  · rcases destroy_cases _ _ _ with hn | hgn
    · rw [hn]; exact h
    · rw [hgn] at he; cases he
  · rcases destroy_cases _ _ _ with hn | hgn
    · rw [hn] at he; cases he
    · rw [hgn]
      have hid := ((get_some _ i g).mp hg).2
      refine agrees_at _ _ s h (fun j hj => ?_) (view_put _ _ _ _ _ _) fun x hx => ?_
      · rw [Registry.destroy,get_retain]
        cases hx : s.registry.get j with
        | none => rfl
        | some x =>
          have hot := ((get_some _ j x).mp hx).2
          simp [Option.filter,hot,hj]
      · rw [Registry.destroy,get_retain,hg] at hx
        simp [Option.filter,hid,ho] at hx

theorem agrees_destroy_owner (hl : Linked s) : Agrees (step s (.destroyOwner owner)) := by
  intro i g hg
  obtain ⟨hgt,hk⟩ := filter_eq_some_iff.mp ((get_retain s.registry _ i).symm.trans hg)
  have ho : g.owner ≠ owner := by simpa using hk
  rw [h i g hgt]
  show _ ↔ Option.map _ ((s.perform (.destroyOwner owner)).1.managers.connections _ _) = _
  rw [perform,destroy_owner_connections,state,view]
  have hs := hl.same g.kind i
  rw [hgt,filter_some_pos (by simp)] at hs
  cases hc : s.managers.connections g.kind (ofNat i) with
  | none => rfl
  | some c =>
    rw [config,view,hc] at hs
    have htg : c.config.owner = g.owner := congrArg Prod.fst (some.inj hs)
    rw [filter_some_pos (by simpa [htg] using ho)]

theorem agrees_data {t : Task} (ht : t.isData = true) (hk : Keeps s (.data t ht)) :
    Agrees (s.call (.data t ht)) := by
  rcases (data_view _ ht).2 with hs | ⟨id,path,method,reply,rfl,hf⟩
  · intro i g hg
    rw [h i g hg]
    show _ ↔ (s.managers.serve t).1.state _ _ = _
    rw [hs]
  · obtain ⟨c,hc,hst,hp,hb,ha⟩ := (request_failed_iff _ id path method reply).mp hf
    exact absurd ha (hk c hc hst hp hb)

end Calls

theorem agrees_call (hl : Linked s) (h : Agrees s) (hc : Keeps s c) : Agrees (s.call c) := by
  cases c with
  | own op =>
    cases op with
    | create owner config => exact agrees_create h owner config
    | start owner i a => exact agrees_start a h owner i hc
    | stop owner i a => exact agrees_stop a h owner i
    | destroy owner i => exact agrees_destroy h owner i
    | destroyOwner owner => exact agrees_destroy_owner h owner hl
  | data t ht => exact agrees_data h ht hc

theorem keeps_breaks (hl : Linked s) (h : Agrees s) (hc : ¬Keeps s c) : ¬Agrees (s.call c) := by
  intro haf
  refine hc ?_
  cases c with
  | own op =>
    cases op with
    | start owner i a =>
      intro g d hg ho hk hd hcn hall
      have ha := (authorized_iff s.registry owner i g).mpr ⟨hg,ho⟩
      have hst : s.managers.start a g.kind (ofNat i) = (s.managers.put g.kind (ofNat i)
          (some { d with state := .connected }) (some (d.recorded.takeWhile a.restore)),
            some .transport) := by
        simp only [Managers.start,hd,if_neg hk,hcn,hall]
        rfl
      have hcl : s.call (.own (.start owner i a)) =
          ⟨s.registry,(s.managers.start a g.kind (ofNat i)).1⟩ := by
        simp only [call,step,perform,dispatch,ha,hst]
      rw [hcl,hst] at haf
      rw [haf i g hg]
      dsimp only
      rw [state,view_put,setAt,if_pos ⟨rfl,rfl⟩]
      rfl
    | _ => trivial
  | data t ht =>
    cases t with
    | request id path method reply =>
      intro d hd hst hp hb ha
      have hf := (request_failed_iff _ id path method reply).mpr ⟨d,hd,hst,hp,hb,ha⟩
      rcases request_cases _ id path _ reply with ⟨_,hne⟩ | ⟨c,hc,hse,hrs⟩
      · exact hne hf
      · have hs : s.managers.config .rest id = some c.config := by
          rw [config,view,hc,map_some]
        -- the connection belongs to a handle, which the failure leaves started
        have hid : ∃ i, id = ofNat i := by
          by_contra hn
          push Not at hn
          rw [hl.stray .rest id hn] at hs
          cases hs
        obtain ⟨i,rfl⟩ := hid
        have hsm := hl.same .rest i
        rw [hs] at hsm
        obtain ⟨g,hg,_⟩ := map_eq_some_iff.mp hsm.symm
        obtain ⟨hgt,hk⟩ := filter_eq_some_iff.mp hg
        have hk : g.kind = .rest := by simpa using hk
        have hb := h i g hgt
        have hlt := haf i g hgt
        simp only [call,serve,hrs,hk] at hb hlt
        rw [state,view,hc,map_some,hse] at hb
        rw [state,write,view_put,setAt,if_pos ⟨rfl,rfl⟩] at hlt
        exact absurd (hlt.mp (hb.mpr rfl)) (by simp)
    | _ => trivial

/-- The two layers agree about every handle exactly as long as no start fails in its restore
for a handle not yet started and no request uses up its attempts. -/
theorem handle_states_agree_iff (cs : List Call) :
    (∀ ds es, cs = ds++es → Agrees (Runs.run Runtime.call .new ds)) ↔
      Runs.Meets Runtime.call Keeps .new cs :=
  Runs.always_iff_meets Runtime.call Keeps (fun s => Linked s ∧ Agrees s) Agrees
    (fun s c h hc => ⟨linked_call s c h.1,agrees_call s c h.1 h.2 hc⟩) (fun _ h => h.2)
    (fun s c h hc => keeps_breaks s c h.1 h.2 hc) .new cs
    ⟨linked_new,fun _ _ hg => by cases hg⟩

def service : Config := ⟨"api","plc",1000,0,.rest "http://host"⟩

/-- One request that the server does not answer. -/
theorem started_but_failed :
    let s := Runs.run Runtime.call .new
      [.own (.create "plc" service),.own (.start "plc" 1 good),
        .data (.request ['1'] ['/'] "GET" (fun _ => none)) rfl]
    s.registry.rows = [⟨1,"plc","api",.rest,.started⟩] ∧
    s.managers.connections .rest ['1'] = some ⟨service,.failed,[]⟩ := by
  decide +kernel

/-! ## Sessions without a connection -/

inductive ApplicationState where
  | registered
  | running
  | stopped
  | failed
  deriving DecidableEq, Repr

structure Host where
  applications : Text → Option ApplicationState
  runtime : Runtime

inductive HostCall where
  | register (id : Text)
  | start (id : Text)
  | stop (id : Text)
  | fail (id : Text)
  | remove (id : Text)
  | own (op : Op)
  | serve (t : Task)

def Host.turn (h : Host) (id : Text) (source target : ApplicationState) : Option Host :=
  if h.applications id = some source then
    some { h with applications := Function.update h.applications id (some target) }
  else none

def Host.destroyOwner (h : Host) (id : Text) : Host :=
  { h with runtime := step h.runtime (.destroyOwner id) }

def Host.call (h : Host) : HostCall → Host
  | .register id =>
    if (h.applications id).isSome then h
    else { h with applications := Function.update h.applications id (some .registered) }
  | .start id => (h.turn id .registered .running).getD h
  | .stop id => ((h.turn id .running .stopped).map (·.destroyOwner id)).getD h
  | .fail id => ((h.turn id .running .failed).map (·.destroyOwner id)).getD h
  | .remove id =>
    if (h.applications id).isSome then
      { h with applications := Function.update h.applications id none }.destroyOwner id
    else h
  | .own op => { h with runtime := step h.runtime op }
  | .serve t => { h with runtime := { h.runtime with managers := (h.runtime.managers.serve t).1 } }

def Held (m : Managers) : Prop := ∀ k id, (m.sessions k id).isSome → (m.connections k id).isSome

/-- The owner's connection stands under this key. -/
def Managers.Owned (m : Managers) (owner : Text) (k : Kind) (id : Text) : Prop :=
  ∃ c, m.connections k id = some c ∧ c.config.owner = owner

/-- The connections that a call is to end: the one it destroys, or those of an owner or of an
application that stops, fails or is removed. -/
def Task.Ends (m : Managers) (k : Kind) (id : Text) : Task → Prop
  | .destroy k' id' => (k = k' ∧ id = id') ∧ (m.connections k id).isSome
  | .destroyOwner k' owner => k = k' ∧ m.Owned owner k id
  | _ => False

def Op.Ends (s : Runtime) (k : Kind) (id : Text) : Op → Prop
  | .destroy owner i => (∃ g, s.registry.get i = some g ∧ g.owner = owner ∧ k = g.kind ∧
      id = ofNat i) ∧ (s.managers.connections k id).isSome
  | .destroyOwner owner => s.managers.Owned owner k id
  | _ => False

def HostCall.Ends (h : Host) (k : Kind) (id : Text) : HostCall → Prop
  | .stop app | .fail app => h.applications app = some .running ∧ h.runtime.managers.Owned app k id
  | .remove app => (h.applications app).isSome ∧ h.runtime.managers.Owned app k id
  | .own op => op.Ends h.runtime k id
  | .serve t => t.Ends h.runtime.managers k id
  | _ => False

/-- The connections that a call is to end are forgotten, and their sessions and all others
without a connection are closed. -/
structure Released (h : Host) (c : HostCall) : Prop where
  ended : ∀ k id, c.Ends h k id → (h.call c).runtime.managers.connections k id = none ∧
    (h.call c).runtime.managers.sessions k id = none
  held : Held (h.call c).runtime.managers

/-- The connections that a call is to end have no session. -/
def Stopped (h : Host) (c : HostCall) : Prop :=
  ∀ k id, c.Ends h k id → h.runtime.managers.sessions k id = none

/-- Where no connection is left, the transport was not asked for anything, and there was none
before or it was to end. -/
def Untouched (ends : Kind → Text → Prop) (m m' : Managers) : Prop :=
  ∀ k id, m'.connections k id = none →
    m'.sessions k id = m.sessions k id ∧ (m.connections k id = none ∨ ends k id)

variable {ends : Kind → Text → Prop}

theorem untouched_refl : Untouched ends m m := fun _ _ h => ⟨rfl,.inl h⟩

theorem untouched_put {m' : Managers} (c : Connection) (w : Option (List Item))
    (h : Untouched ends m m') : Untouched ends m (m'.put k id (some c) w) := by
  intro k' id' hn
  simp only [put,setAt] at hn ⊢
  split_ifs at hn ⊢
  exact h k' id' hn

theorem untouched_start {m' : Managers} (h : Untouched ends m m') :
    Untouched ends m (m'.start a k id).1 := by
  rcases start_cases m' a k id with ⟨e,hr,_⟩ | ⟨c,w,e,_,hr,_⟩ <;> rw [hr]
  · exact h
  · exact untouched_put m k id _ _ h

theorem untouched_stop : Untouched ends m (m.stop a k id).1 := by
  rcases stop_cases m a k id with ⟨e,hr⟩ | ⟨c,w,_,hr,_⟩ <;> rw [hr]
  · exact untouched_refl m
  · exact untouched_put m k id _ _ (untouched_refl m)

theorem untouched_revise (chg : List Item → List Item) :
    Untouched ends m (m.revise a k id chg).1 := by
  rw [revise]
  rcases connected_cases m a k id _ with ⟨e,he⟩ | ⟨c,_,_,hr⟩
  · rw [he]; exact untouched_refl m
  · rw [hr]; exact untouched_put m k id _ _ (untouched_refl m)

theorem untouched_destroy : Untouched (fun k' id' => (k' = k ∧ id' = id) ∧
    (m.connections k' id').isSome) m (m.destroy k id).1 := by
  intro k' id' hn
  rw [destroy] at hn ⊢
  cases hc : m.connections k id with
  | none =>
    rw [hc] at hn
    exact ⟨rfl,.inl hn⟩
  | some c =>
    rw [hc] at hn
    by_cases hp : k' = k ∧ id' = id
    · obtain ⟨rfl,rfl⟩ := hp
      exact ⟨by simp [write,put,setAt],.inr ⟨⟨rfl,rfl⟩,by rw [hc]; rfl⟩⟩
    · simp only [write,put,setAt,if_neg hp] at hn ⊢
      exact ⟨trivial,.inl hn⟩

theorem untouched_owner {k' : Kind} (own : Text) (hn : (m.connections k' id).filter
    (fun c => c.config.owner ≠ own) = none) : m.connections k' id = none ∨ m.Owned own k' id := by
  cases hc : m.connections k' id with
  | none => exact .inl rfl
  | some c =>
    rw [hc,Option.filter_some] at hn
    split_ifs at hn with ho
    exact .inr ⟨c,hc,by simpa using ho⟩

theorem untouched_serve (t : Task) : Untouched (fun k id => t.Ends m k id) m (m.serve t).1 := by
  cases t with
  | create id cfg =>
    rw [serve]
    rcases create_cases m id cfg with ⟨e,he⟩ | hmd
    · rw [he]; exact untouched_refl m
    · rw [hmd]; exact untouched_put m _ id _ _ (untouched_refl m)
  | start k id a => exact untouched_start m a k id (untouched_refl m)
  | stop k id a => exact untouched_stop m a k id
  | restart k id a =>
    rw [serve]
    rcases restart_cases m a k id with ⟨_,he⟩ | ⟨c,_,_,_,_,hr⟩
    · rw [he]; exact untouched_refl m
    · rw [hr]; exact untouched_start m a k id (untouched_stop m a k id)
  | destroy k id => exact untouched_destroy m k id
  | destroyOwner k owner =>
    intro k' id' hn
    refine ⟨rfl,?_⟩
    simp only [serve,destroyOwner] at hn
    split_ifs at hn with hk
    · exact (untouched_owner m id' owner hn).imp_right (⟨hk,·⟩)
    · exact .inl hn
  | setUp k id item a =>
    rw [serve,setUp]
    split_ifs
    · exact untouched_refl m
    · exact untouched_revise m a k id _
  | takeDown k id slot a =>
    rw [serve,takeDown]
    split_ifs
    · exact untouched_refl m
    · exact untouched_revise m a k id _
  | publish k id a =>
    rw [serve,publish]
    rcases connected_cases m a k id _ with ⟨e,he⟩ | ⟨c,_,_,hr⟩
    · rw [he]; exact untouched_refl m
    · rw [hr]; exact untouched_refl m
  | request id path method reply =>
    rw [serve]
    rcases request_cases m id path _ reply with ⟨hm,_⟩ | ⟨c,_,_,hf⟩
    · rw [hm]; exact untouched_refl m
    · rw [hf]; exact untouched_put m _ id _ _ (untouched_refl m)

theorem untouched_dispatch (owner : Text) (i : ℕ) {act : Kind → Text → Outcome}
    {settle : Registry → Registry} (ha : ∀ g, s.registry.get i = some g → g.owner = owner →
      Untouched ends s.managers (act g.kind (ofNat i)).1) :
    Untouched ends s.managers (s.dispatch owner i act settle).1.managers := by
  rcases dispatch_cases s owner i act _ with hd | ⟨g,hg,ho,⟨e,_,hd⟩ | ⟨_,hd⟩⟩ <;> rw [hd]
  · exact untouched_refl s.managers
  · exact ha g hg ho
  · exact ha g hg ho

theorem untouched_step (op : Op) :
    Untouched (fun k id => op.Ends s k id) s.managers (step s op).managers := by
  cases op with
  | create owner cfg =>
    rw [step,perform]
    rcases create_result s owner cfg with ⟨r,e,hr,_⟩ | ⟨_,_,hm⟩
    · rw [hr]; exact untouched_refl s.managers
    · rw [hm]; exact untouched_put _ _ _ _ _ (untouched_refl s.managers)
  | start owner i a =>
    exact untouched_dispatch s owner i fun _ _ _ => untouched_start _ a _ _ (untouched_refl _)
  | stop owner i a => exact untouched_dispatch s owner i fun _ _ _ => untouched_stop _ a _ _
  | destroy owner i =>
    refine untouched_dispatch s owner i fun g hg ho k id hn => ?_
    exact (untouched_destroy s.managers g.kind (ofNat i) k id hn).imp_right
      (Or.imp_right fun he => ⟨⟨g,hg,ho,he.1⟩,he.2⟩)
  | destroyOwner owner =>
    intro k id hn
    rw [step,perform,destroy_owner_connections] at hn
    exact ⟨rfl,untouched_owner s.managers id owner hn⟩

theorem untouched_call (h : Host) (c : HostCall) :
    Untouched (fun k id => c.Ends h k id) h.runtime.managers (h.call c).runtime.managers := by
  have hs : Untouched (fun k id => c.Ends h k id) h.runtime.managers h.runtime.managers :=
    untouched_refl _
  cases c with
  | register app =>
    rw [Host.call]
    split_ifs <;> exact hs
  | start app =>
    rw [Host.call,Host.turn]
    split_ifs <;> exact hs
  | stop app =>
    rw [Host.call,Host.turn]
    split_ifs with ha
    · exact fun k id hn => (untouched_step h.runtime (.destroyOwner app) k id hn).imp_right
        (Or.imp_right (⟨ha,·⟩))
    · exact hs
  | fail app =>
    rw [Host.call,Host.turn]
    split_ifs with ha
    · exact fun k id hn => (untouched_step h.runtime (.destroyOwner app) k id hn).imp_right
        (Or.imp_right (⟨ha,·⟩))
    · exact hs
  | remove app =>
    rw [Host.call]
    split_ifs with ha
    · exact fun k id hn => (untouched_step h.runtime (.destroyOwner app) k id hn).imp_right
        (Or.imp_right (⟨ha,·⟩))
    · exact hs
  | own op => exact untouched_step h.runtime op
  | serve t => exact untouched_serve _ t

variable {k id}

theorem owner_ended {own : Text} (h : m.Owned own k id) :
    (m.connections k id).filter (fun c => c.config.owner ≠ own) = none := by
  obtain ⟨c,hc,ho⟩ := h
  rw [hc,Option.filter_some,if_neg (by simpa using ho)]

theorem step_owner_ended {own : Text} (h : s.managers.Owned own k id) :
    (step s (.destroyOwner own)).managers.connections k id = none := by
  rw [step,perform,destroy_owner_connections]
  exact owner_ended s.managers h

theorem destroy_ended (h : (m.connections k id).isSome) :
    m.destroy k id = (m.write k id none,none) := by
  obtain ⟨c,hc⟩ := isSome_iff_exists.mp h
  rw [destroy,hc]

/-- What a call is to end is forgotten. -/
theorem ends_call (h : Host) (c : HostCall) (he : c.Ends h k id) :
    (h.call c).runtime.managers.connections k id = none := by
  have hw : ∀ m : Managers, (m.write k id none).connections k id = none := by
    intro m
    simp [write,put,setAt]
  cases c with
  | register app => cases he
  | start app => cases he
  | stop app =>
    rw [Host.call,Host.turn,if_pos he.1]
    exact step_owner_ended _ he.2
  | fail app =>
    rw [Host.call,Host.turn,if_pos he.1]
    exact step_owner_ended _ he.2
  | remove app =>
    rw [Host.call,if_pos he.1]
    exact step_owner_ended _ he.2
  | own op =>
    cases op with
    | destroy owner i =>
      obtain ⟨⟨g,hg,ho,rfl,rfl⟩,hc⟩ := he
      have ha := (authorized_iff h.runtime.registry owner i g).mpr ⟨hg,ho⟩
      simp only [Host.call,step,perform,dispatch,ha,destroy_ended h.runtime.managers hc]
      exact hw _
    | destroyOwner owner => exact step_owner_ended _ he
    | _ => cases he
  | serve t =>
    cases t with
    | destroy k' id' =>
      obtain ⟨⟨rfl,rfl⟩,hc⟩ := he
      rw [Host.call,serve,destroy_ended h.runtime.managers hc]
      exact hw _
    | destroyOwner k' owner =>
      obtain ⟨rfl,ho⟩ := he
      simp only [Host.call,serve,destroyOwner,if_pos]
      exact owner_ended h.runtime.managers ho
    | _ => cases he

theorem released_iff (h : Host) (c : HostCall) (hh : Held h.runtime.managers) :
    Released h c ↔ Stopped h c := by
  constructor
  · intro hr k id he
    rw [← (untouched_call h c k id (ends_call h c he)).1]
    exact (hr.ended k id he).2
  · intro hs
    refine ⟨fun k id he => ⟨ends_call h c he,?_⟩,fun k id hk => ?_⟩
    · rw [(untouched_call h c k id (ends_call h c he)).1]
      exact hs k id he
    · by_contra hn
      obtain ⟨hsame,hold⟩ := untouched_call h c k id (Option.not_isSome_iff_eq_none.mp hn)
      rw [hsame] at hk
      rcases hold with hold | he
      · have hc := hh k id hk
        rw [hold] at hc
        cases hc
      · rw [hs k id he] at hk
        cases hk

/-- All calls of a run release the sessions of the connections they end exactly if none of these
has a session before its call. -/
theorem sessions_released_iff (cs : List HostCall) :
    (∀ ds c es, cs = ds++c::es → Released (Runs.run Host.call ⟨fun _ => none,.new⟩ ds) c) ↔
    Runs.Meets Host.call Stopped ⟨fun _ => none,.new⟩ cs := by
  have hn : Held (Runtime.new).managers := fun _ _ h => by cases h
  constructor
  · intro h
    refine (Runs.meets_iff_forall _ _ _ _).mpr fun ds c es hsp k id he => ?_
    have hr := h ds c es hsp
    rw [← (untouched_call _ c k id (ends_call _ c he)).1]
    exact (hr.ended k id he).2
  · intro hm ds c es hsp
    have hst := (Runs.meets_iff_forall _ _ _ _).mp hm ds c es hsp
    rw [hsp] at hm
    exact (released_iff _ c (Runs.run_always Host.call Stopped (fun h => Held h.runtime.managers)
      (fun h c hh hs => ((released_iff h c hh).mpr hs).held) ⟨fun _ => none,.new⟩ ds (c::es) hn
        hm)).mpr hst

theorem session_left_behind :
    let h := Runs.run Host.call ⟨fun _ => none,.new⟩ [.register "plc",.start "plc",
      .own (.create "plc" broker),.own (.start "plc" 1 good)]
    (h.call (.stop "plc")).runtime.managers.connections .mqtt ['1'] = none ∧
      (h.call (.stop "plc")).runtime.managers.sessions .mqtt ['1'] = some [] ∧
      ¬Released h (.stop "plc") := by
  have hc : ((Runs.run Host.call ⟨fun _ => none,.new⟩ [.register "plc",.start "plc",
      .own (.create "plc" broker),.own (.start "plc" 1 good)]).call
        (.stop "plc")).runtime.managers.connections .mqtt ['1'] = none := by
    decide +kernel
  refine ⟨hc,by decide +kernel,fun hr => ?_⟩
  have hh := hr.held .mqtt ['1'] (by decide +kernel)
  rw [hc] at hh
  cases hh

end EMaster.Connectivity
