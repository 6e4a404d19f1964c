import EMaster.ZkController

/-!
# Connection events of the panel controller

A thread that changes the connection sets the flag under one lock and queues the event under
another. Between the two sections other threads may change the flag and queue their events.
-/

set_option autoImplicit false

namespace EMaster.Zk
open Runs List

def Worker.queues : Worker → Option Bool
  | .queueing event => some event
  | _ => none

@[simp]
theorem Worker.queueing_queues (event : Bool) : (Worker.queueing event).queues = some event := rfl

def Caller.queues : Caller → Option Bool
  | .queueing event _ => some event
  | _ => none

@[simp]
theorem Caller.queueing_queues (event unlocks : Bool) :
    (Caller.queueing event unlocks).queues = some event := rfl

namespace Controller

def events (s : Controller) : List Bool := s.delivered++s.connectionEvents

def lastEvent (s : Controller) : Bool := s.events.getLast?.getD false

/-- The events of the threads that have changed the flag and not yet queued. -/
def pending (s : Controller) : List Bool :=
  s.worker.queues.toList++s.callers.filterMap Caller.queues

/-- Events alternate, beginning with a connect, and once all are delivered and no thread is
about to queue one, the last of them is the flag. -/
structure Orderly (s : Controller) : Prop where
  alternate : (false::s.events).IsChain (· ≠ ·)
  last : s.connectionEvents = [] → s.pending = [] → s.delivered.getLast?.getD false = s.connected

/-- The argument of SetConnected, where a step enters its first section. -/
def requested (s : Controller) : Event → Option Bool
  | .worker _ =>
    match s.worker with
    | .failing => some false
    | .cleared => some true
    | _ => none
  | .caller n _ =>
    match s.callers[n]? with
    | some .dropping => if s.clientLocked then none else some false
    | some (.dialed ok) => some ok
    | _ => none
  | .call _ => none

/-- A thread changes the flag while no other stands between its two sections. -/
def Undivided (s : Controller) (e : Event) : Prop :=
  ∀ connected, s.requested e = some connected → connected ≠ s.connected → s.pending = []

instance (s : Controller) (e : Event) : Decidable (s.Undivided e) :=
  inferInstanceAs (Decidable (∀ _, _))

/-- What a step does to the flag, the events and the threads about to queue one. -/
inductive Effect (s t : Controller) : Option Bool → Prop where
  | keeps (request : Option Bool) (hconnected : t.connected = s.connected)
      (hevents : t.events = s.events) (hpending : t.pending ~ s.pending) : Effect s t request
  | changes (connected : Bool) (hne : connected ≠ s.connected) (hconnected : t.connected = connected)
      (hevents : t.events = s.events) (hpending : t.pending ~ connected::s.pending) :
      Effect s t (some connected)
  | queues (event : Bool) (hconnected : t.connected = s.connected)
      (hevents : t.events = s.events++[event]) (hpending : s.pending ~ event::t.pending) :
      Effect s t none

section Steps
variable (s : Controller) {t : Controller}

theorem Effect.quiet {s : Controller} {request : Option Bool} (hc : t.connected = s.connected)
    (he : t.events = s.events) (hw : t.worker.queues = s.worker.queues)
    (hcl : t.callers = s.callers) : Effect s t request :=
  .keeps _ hc he (by rw [pending,pending,hw,hcl])

theorem after_set_queues (connected : Bool) : (afterSet connected).queues = none := by
  cases connected <;> rfl

theorem worker_sets_effect (connected : Bool) (hp : s.worker.queues = none) :
    Effect s (s.workerSets connected) (some connected) := by
  rw [workerSets]
  split_ifs with hs
  · exact .quiet rfl rfl (by rw [after_set_queues,hp]) rfl
  · exact .changes _ (Ne.symm hs) rfl rfl (by rw [pending,pending,hp]; rfl)

theorem worker_effect (out : Bool) : Effect s (s.workerStep out) (s.requested (.worker out)) := by
  rw [requested]
  cases hw : s.worker with
  | draining =>
    cases he : s.connectionEvents with
    | nil =>
      simp only [workerStep,hw,he]
      exact .quiet rfl (by simp [events,he]) (by rw [hw]; rfl) rfl
    | cons event rest =>
      simp only [workerStep,hw,he]
      exact .quiet rfl (by simp [events,he]) (by rw [hw]) rfl
  | gate =>
    simp only [workerStep,hw]
    exact .quiet rfl rfl (by rw [hw]; cases s.enabled <;> rfl) rfl
  | awake =>
    simp only [workerStep,hw]
    exact .quiet rfl rfl (by rw [hw]; cases s.connected <;> rfl) rfl
  | online =>
    simp only [workerStep,hw]
    split_ifs
    · exact .quiet rfl rfl rfl rfl
    · exact .quiet rfl rfl (by rw [hw]; rfl) rfl
    · exact .quiet rfl rfl (by rw [hw]; rfl) rfl
  | failing =>
    simp only [workerStep,hw]
    exact worker_sets_effect s false (by rw [hw]; rfl)
  | arming =>
    simp only [workerStep,hw]
    exact .quiet rfl rfl (by rw [hw]; rfl) rfl
  | offline =>
    simp only [workerStep,hw]
    exact .quiet rfl rfl (by rw [hw]; cases s.reconnecting && out <;> rfl) rfl
  | attempting =>
    simp only [workerStep,hw]
    split_ifs
    · exact .quiet rfl rfl rfl rfl
    · exact .quiet rfl rfl (by rw [hw]; rfl) rfl
    · exact .quiet rfl rfl (by rw [hw]; rfl) rfl
  | reached =>
    simp only [workerStep,hw]
    exact .quiet rfl rfl (by rw [hw]; rfl) rfl
  | cleared =>
    simp only [workerStep,hw]
    exact worker_sets_effect s true (by rw [hw]; rfl)
  | queueing event =>
    simp only [workerStep,hw]
    exact .queues event rfl (by simp [events]) (by rw [pending,pending,hw,after_set_queues]; rfl)

variable (n : ℕ) (place : Caller)

/-- One caller moves on: its event comes, goes or stays. -/
theorem filterMap_set (f : Caller → Option Bool) (callers : List Caller) (next : Caller)
    (h : callers[n]? = some place) : (f place).toList++(callers.set n next).filterMap f ~
      (f next).toList++callers.filterMap f := by
  have hc : ∀ c cs, (c::cs).filterMap f = (f c).toList++cs.filterMap f := by
    intro c cs
    rw [filterMap_cons]
    cases f c <;> rfl
  induction callers generalizing n with
  | nil => cases h
  | cons c callers ih =>
    cases n with
    | zero =>
      obtain rfl := Option.some.inj h
      rw [set_cons_zero,hc,hc]
      exact perm_append_comm_assoc _ _ _
    | succ n =>
      rw [set_cons_succ,hc,hc]
      exact (perm_append_comm_assoc _ _ _).trans
        (((ih n h).append_left _).trans (perm_append_comm_assoc _ _ _))

theorem moved_pending (next : Caller) (h : s.callers[n]? = some place) (t : Controller)
    (hw : t.worker = s.worker) (hcl : t.callers = s.callers) :
    place.queues.toList++(t.moveTo n next).pending ~ next.queues.toList++s.pending := by
  rw [pending,pending,moveTo,hw,hcl]
  exact (perm_append_comm_assoc _ _ _).trans (((filterMap_set n place _ _ next h).append_left
    _).trans (perm_append_comm_assoc _ _ _))

theorem Effect.moved {s : Controller} {request : Option Bool} (next : Caller)
    (h : s.callers[n]? = some place) (hc : t.connected = s.connected) (he : t.events = s.events)
    (hw : t.worker = s.worker) (hcl : t.callers = s.callers) (hp : place.queues = none)
    (hn : next.queues = none) : Effect s (t.moveTo n next) request := by
  have hf := moved_pending s n place next h t hw hcl
  rw [hp,hn] at hf
  exact .keeps _ hc he hf

theorem Effect.flipped {s : Controller} (event unlocks : Bool) (h : s.callers[n]? = some place)
    (hne : event ≠ s.connected) (hc : t.connected = event) (he : t.events = s.events)
    (hw : t.worker = s.worker) (hcl : t.callers = s.callers) (hp : place.queues = none) :
    Effect s (t.moveTo n (.queueing event unlocks)) (some event) := by
  have hf := moved_pending s n place (.queueing event unlocks) h t hw hcl
  rw [hp] at hf
  exact .changes _ hne hc he hf

theorem caller_effect (out : Bool) :
    Effect s (s.callerStep n out) (s.requested (.caller n out)) := by
  rw [requested]
  cases hp : s.callers[n]? with
  | none =>
    simp only [callerStep,hp]
    exact .quiet rfl rfl rfl rfl
  | some place =>
    simp only [callerStep,hp]
    cases place with
    | enabling => exact .moved n _ _ hp rfl rfl rfl rfl rfl rfl
    | disabling =>
      dsimp only
      split_ifs
      · exact .moved n _ _ hp rfl rfl rfl rfl rfl rfl
      · exact .moved n _ _ hp rfl rfl rfl rfl rfl rfl
    | stopping => exact .moved n _ _ hp rfl rfl rfl rfl rfl rfl
    | dropping =>
      dsimp only
      split_ifs with hl hc
      · exact .quiet rfl rfl rfl rfl
      · exact .flipped n _ _ _ hp (by rw [hc]; exact Bool.noConfusion) rfl rfl rfl rfl rfl
      · exact .moved n _ _ hp rfl rfl rfl rfl rfl rfl
    | connecting => exact .moved n _ _ hp rfl rfl rfl rfl rfl rfl
    | dialing =>
      dsimp only
      split_ifs
      · exact .quiet rfl rfl rfl rfl
      · exact .moved n _ _ hp rfl rfl rfl rfl rfl rfl
      · exact .moved n _ _ hp rfl rfl rfl rfl rfl rfl
    | dialed ok =>
      dsimp only
      split_ifs with hs
      · exact .moved n _ _ hp rfl rfl rfl rfl rfl rfl
      · exact .flipped n _ _ _ hp (Ne.symm hs) rfl rfl rfl rfl rfl
    | queueing event unlocks =>
      have hf := moved_pending s n _ .returned hp
        { s with connectionEvents := s.connectionEvents++[event] } rfl rfl
      dsimp only
      split_ifs
      · exact .queues event rfl (by simp [events,returns,moveTo]) hf.symm
      · exact .queues event rfl (by simp [events,moveTo]) hf.symm
    | returned => exact .quiet rfl rfl rfl rfl

theorem Effect.joined {s : Controller} (hc : t.connected = s.connected) (he : t.events = s.events)
    (hw : t.worker = s.worker) (hcl : t.callers = s.callers++[place]) (hp : place.queues = none) :
    Effect s t none := by
  refine .keeps _ hc he ?_
  rw [pending,pending,hw,hcl,filterMap_append,filterMap_cons,hp]
  simp

theorem call_effect (call : Call) : Effect s (s.called call) none := by
  cases call with
  | setEnabled enabled =>
    cases enabled
    · exact .joined .disabling rfl rfl rfl rfl rfl
    · exact .joined .enabling rfl rfl rfl rfl rfl
  | connect => exact .joined .connecting rfl rfl rfl rfl rfl
  | disconnect => exact .joined .stopping rfl rfl rfl rfl rfl

theorem step_effect (e : Event) : Effect s (s.step e) (s.requested e) := by
  cases e with
  | worker out => exact worker_effect s out
  | caller n out => exact caller_effect s n out
  | call call => exact call_effect s call

end Steps

/-- Events alternate. The last of them is the flag, or one thread is about to queue the flag. -/
structure Tracked (s : Controller) : Prop where
  alternate : (false::s.events).IsChain (· ≠ ·)
  one : s.pending = [] ∧ s.connected = s.lastEvent ∨
    s.pending = [s.connected] ∧ s.connected ≠ s.lastEvent

theorem chain_snoc (events : List Bool) (event : Bool) :
    (false::(events++[event])).IsChain (· ≠ ·) ↔
      (false::events).IsChain (· ≠ ·) ∧ event ≠ events.getLast?.getD false := by
  rw [← cons_append,isChain_append]
  simp [List.getLast?_cons,ne_comm]

theorem tracked_step (s : Controller) (e : Event) (h : s.Tracked) (ho : s.Undivided e) :
    (s.step e).Tracked := by
  have hef := step_effect s e
  rw [Undivided] at ho
  generalize s.step e = t at hef
  generalize s.requested e = request at hef ho
  cases hef with
  | keeps _ hc he hp =>
    refine ⟨by rw [he]; exact h.alternate,?_⟩
    rw [hc,lastEvent,he]
    rcases h.one with ⟨hn,hl⟩ | ⟨hn,hl⟩
    · exact .inl ⟨perm_nil.mp (hn ▸ hp),hl⟩
    · exact .inr ⟨perm_singleton.mp (hn ▸ hp),hl⟩
  | changes connected hne hc he hp =>
    have hn := ho connected rfl hne
    refine ⟨by rw [he]; exact h.alternate,.inr ?_⟩
    rcases h.one with ⟨_,hl⟩ | ⟨hs,_⟩
    · rw [hl] at hne
      rw [hc,lastEvent,he]
      exact ⟨perm_singleton.mp (hn ▸ hp),hne⟩
    · exact absurd (hn.symm.trans hs) (cons_ne_nil _ _).symm
  | queues event hc he hp =>
    rcases h.one with ⟨hn,_⟩ | ⟨hn,hl⟩
    · exact absurd (nil_perm.mp (hn ▸ hp)) (cons_ne_nil _ _)
    · -- the one thread in between queues the flag
      obtain ⟨rfl,hr⟩ := cons.inj (singleton_perm.mp (hn ▸ hp))
      refine ⟨by rw [he,chain_snoc]; exact ⟨h.alternate,hl⟩,.inl ⟨hr.symm,?_⟩⟩
      rw [hc,lastEvent,he,getLast?_concat,Option.getD_some]

theorem Tracked.orderly {s : Controller} (h : s.Tracked) : s.Orderly := by
  refine ⟨h.alternate,fun hq hn => ?_⟩
  rcases h.one with ⟨_,hl⟩ | ⟨hs,_⟩
  · rw [hl,lastEvent,events,hq,append_nil]
  · exact absurd (hn.symm.trans hs) (cons_ne_nil _ _).symm

/-- Over any interleaving in which no thread changes the flag while another has yet to queue its
event, all states are orderly. -/
theorem undivided_orderly (es fs : List Event) (h : Meets step Undivided {} (es++fs)) :
    (run step {} es).Orderly :=
  (run_always step Undivided Tracked tracked_step {} es fs ⟨isChain_singleton _,.inl ⟨rfl,rfl⟩⟩
    h).orderly

/-- A connect, then a disconnect. -/
def inTurn : List Event :=
  [.call .connect,.caller 0 true,.caller 0 true,.caller 0 true,.caller 0 true,
    .call .disconnect,.caller 1 true,.caller 1 true,.caller 1 true,.worker true,.worker true]

theorem in_turn_orderly :
    (run step {} inTurn).delivered = [true,false] ∧ Meets step Undivided {} inTurn ∧
      (run step {} inTurn).Orderly :=
  have h : Meets step Undivided {} inTurn := by decide
  ⟨by decide,h,undivided_orderly inTurn [] h⟩

/-- A connect and a disconnect overlap: the flag is set and cleared, but the events are
queued the other way round. -/
def overlap : List Event :=
  [.call .connect,.caller 0 true,.caller 0 true,.caller 0 true,
    .call .disconnect,.caller 1 true,.caller 1 true,.caller 1 true,.caller 0 true,
    .worker true,.worker true]

theorem overlap_disagrees :
    (run step {} overlap).callers = [.returned,.returned] ∧
      (run step {} overlap).connectionEvents = [] ∧
      (run step {} overlap).delivered = [false,true] ∧
      (run step {} overlap).connected = false ∧ ¬(run step {} overlap).Orderly := by
  refine ⟨by decide,by decide,by decide,by decide,fun h => ?_⟩
  have hl := h.last (by decide) (by decide)
  revert hl
  decide

end Controller

end EMaster.Zk
