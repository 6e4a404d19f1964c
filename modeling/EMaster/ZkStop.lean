import EMaster.ZkController

/-!
# Stopping the panel controller

A call that disconnects, or that switches the driver off, clears the connection. A reconnect
attempt that is under way at that moment does not learn of it.
-/

set_option autoImplicit false

namespace EMaster.Zk
open Runs List Worker

/-- Not on the way to a reconnect: neither in a heartbeat nor in an attempt. -/
def Worker.calm : Worker → Bool
  | .draining => true
  | .gate => true
  | .awake => true
  | .offline => true
  | .queueing event => event
  | _ => false

def Caller.dials : Caller → Bool
  | .connecting => true
  | .dialing => true
  | .dialed ok => ok
  | _ => false

namespace Controller

/-- Nothing is under way that would connect again. -/
structure Calm (s : Controller) : Prop where
  reconnecting : s.reconnecting = false
  worker : s.worker.calm = true
  callers : ∀ c ∈ s.callers, c.dials = false

/-- A connection is dropped while nothing is under way that would connect again; and a call
to stop does not return before the connection was dropped, or after a new connect. -/
def Undisturbed (s : Controller) : Event → Prop
  | .caller n _ =>
    match s.callers[n]? with
    | some .dropping => s.clientLocked = false → s.Calm
    | some .disabling => s.enabled = false → s.dropped = true
    | some (.queueing _ true) => s.dropped = true
    | _ => True
  | _ => True

/-- Once dropped the controller is down for good, and a call to stop has returned only after
that. -/
structure Kept (s : Controller) : Prop where
  down : s.dropped = true → s.connected = false ∧ s.Calm
  after : s.stopped = true → s.dropped = true

section Steps
variable {s : Controller}

theorem kept_fresh (hd : s.dropped = false) (hs : s.stopped = false) : s.Kept :=
  ⟨fun hdr => absurd hdr (by simp [hd]),fun hst => absurd hst (by simp [hs])⟩

theorem worker_frame (out : Bool) :
    (s.workerStep out).dropped = s.dropped ∧ (s.workerStep out).stopped = s.stopped ∧
      (s.workerStep out).callers = s.callers := by
  rw [workerStep]
  repeat' split
  all_goals first | exact ⟨rfl,rfl,rfl⟩ | (rw [workerSets]; split_ifs <;> exact ⟨rfl,rfl,rfl⟩)

theorem worker_calm (out : Bool) (hc : s.connected = false)
    (hr : s.reconnecting = false) (hcl : s.worker.calm = true) :
    (s.workerStep out).connected = false ∧ (s.workerStep out).reconnecting = false ∧
      (s.workerStep out).worker.calm = true := by
  cases hw : s.worker with
  | draining =>
    cases he : s.connectionEvents with
    | nil => simp [workerStep,hw,he,hc,hr,calm]
    | cons event rest =>
      simp [workerStep,hw,he,hc,hr,calm]
  | gate =>
    cases hen : s.enabled <;> simp [workerStep,hw,hen,hc,hr,calm]
  | awake => simp [workerStep,hw,hc,hr,calm]
  | offline => simp [workerStep,hw,hc,hr,calm]
  | queueing event =>
    rw [hw] at hcl
    have hev : event = true := hcl
    simp [workerStep,hw,hev,hc,hr,afterSet,calm]
  | _ =>
    rw [hw] at hcl
    cases hcl

theorem worker_kept (h : s.Kept) (out : Bool) : (s.workerStep out).Kept := by
  obtain ⟨hd,hs,hca⟩ := worker_frame (s := s) out
  refine ⟨fun hdr => ?_,fun hst => ?_⟩
  · obtain ⟨hc,hcl⟩ := h.down (hd ▸ hdr)
    obtain ⟨ho,hq,hw⟩ := worker_calm out hc hcl.reconnecting hcl.worker
    exact ⟨ho,hq,hw,by rw [hca]; exact hcl.callers⟩
  · rw [hd]
    exact h.after (hs ▸ hst)

variable {n : ℕ} {place : Caller}

theorem moved_dials (hp : place.dials = false) (h : ∀ c ∈ s.callers, c.dials = false) : ∀ c ∈ s.callers.set n place, c.dials = false := by
  intro c hc
  rcases mem_or_eq_of_mem_set hc with hold | rfl
  · exact h c hold
  · exact hp

variable {t : Controller}

theorem Kept.moved (h : s.Kept) (n : ℕ) (place : Caller) (hp : place.dials = false)
    (hd : t.dropped = s.dropped) (hs : t.stopped = true → s.stopped = true ∨ s.dropped = true)
    (hc : s.connected = false → t.connected = false)
    (hr : s.reconnecting = false → t.reconnecting = false) (hw : t.worker = s.worker)
    (hca : t.callers = s.callers) : (t.moveTo n place).Kept := by
  refine ⟨fun hdr => ?_,fun hst => ?_⟩
  · obtain ⟨ho,hcl⟩ := h.down (hd ▸ hdr)
    refine ⟨hc ho,hr hcl.reconnecting,?_,?_⟩
    · show t.worker.calm = true
      rw [hw]
      exact hcl.worker
    · show ∀ c ∈ t.callers.set n place, c.dials = false
      rw [hca]
      exact moved_dials hp hcl.callers
  · show t.dropped = true
    rw [hd]
    exact (hs hst).elim h.after id

/-- A call that could still connect is under way only if the connection was not dropped. -/
theorem Kept.dialing (h : s.Kept) (n : ℕ) (place next : Caller) (hg : s.callers[n]? = some place)
    (hp : place.dials = true) (hdr : t.dropped = s.dropped) (hs : t.stopped = s.stopped) :
    (t.moveTo n next).Kept := by
  have hn : s.dropped = false := by
    by_contra hd
    have hc := (h.down (Bool.not_eq_false _ ▸ hd)).2
    have hdl := hc.callers place (mem_of_getElem? hg)
    rw [hp] at hdl
    cases hdl
  refine ⟨fun hd => ?_,fun hst => ?_⟩
  · rw [show (t.moveTo n next).dropped = s.dropped from hdr,hn] at hd
    cases hd
  · exact hdr.trans (h.after (hs ▸ hst))

theorem dropped_kept (n : ℕ) (hp : place.dials = false) (hc : s.Calm) (hcn : t.connected = false)
    (hd : t.dropped = true) (hr : t.reconnecting = s.reconnecting) (hw : t.worker = s.worker)
    (hcl : t.callers = s.callers) : (t.moveTo n place).Kept := by
  refine ⟨fun _ => ⟨hcn,?_,?_,?_⟩,fun _ => hd⟩
  · exact hr.trans hc.reconnecting
  · show t.worker.calm = true
    rw [hw]
    exact hc.worker
  · show ∀ c ∈ t.callers.set n place, c.dials = false
    rw [hcl]
    exact moved_dials hp hc.callers

theorem caller_kept (h : s.Kept) {out : Bool} (hq : s.Undisturbed (.caller n out)) : (s.callerStep n out).Kept := by
  rw [Undisturbed] at hq
  cases hp : s.callers[n]? with
  | none =>
    simp only [callerStep,hp]
    exact h
  | some place =>
    rw [hp] at hq
    simp only [callerStep,hp]
    cases place with
    | enabling => exact h.moved n _ rfl rfl .inl id id rfl rfl
    | disabling =>
      dsimp only
      split_ifs with he
      · exact h.moved n _ rfl rfl .inl id id rfl rfl
      · have hd := hq (by simpa using he)
        exact h.moved n _ rfl rfl (fun _ => .inr hd) id id rfl rfl
    | stopping => exact h.moved n _ rfl rfl .inl id (fun _ => rfl) rfl rfl
    | dropping =>
      dsimp only
      split_ifs with hl hc
      · exact h
      · exact dropped_kept n rfl (hq (by simpa using hl)) rfl rfl rfl rfl rfl
      · have ho : s.connected = false := by simpa using hc
        exact dropped_kept n rfl (hq (by simpa using hl)) ho rfl rfl rfl rfl
    | connecting => exact h.dialing n _ _ hp rfl rfl rfl
    | dialing =>
      dsimp only
      split_ifs
      · exact h
      · exact h.dialing n _ _ hp rfl rfl rfl
      · exact h.dialing n _ _ hp rfl rfl rfl
    | dialed ok =>
      cases ok with
      | true =>
        dsimp only
        split_ifs
        · exact h.dialing n _ _ hp rfl rfl rfl
        · exact h.dialing n _ _ hp rfl rfl rfl
      | false =>
        dsimp only
        split_ifs
        · exact h.moved n _ rfl rfl .inl id id rfl rfl
        · exact h.moved n _ rfl rfl .inl (fun _ => rfl) id rfl rfl
    | queueing event unlocks =>
      cases unlocks with
      | true =>
        let t : Controller :=
          { s with
            connectionEvents := s.connectionEvents++[event]
            clientLocked := false
            stopped := true }
        have hm : (t.moveTo n .returned).Kept :=
          h.moved n _ rfl rfl (fun _ => .inr hq) id id rfl rfl
        exact hm
      | false => exact h.moved n _ rfl rfl .inl id id rfl rfl
    | returned => exact h

theorem Kept.joined (h : s.Kept) (place : Caller) (hp : place.dials = false)
    (hd : t.dropped = s.dropped) (hs : t.stopped = true → s.stopped = true)
    (hcn : t.connected = s.connected) (hr : t.reconnecting = s.reconnecting)
    (hw : t.worker = s.worker) (hca : t.callers = s.callers++[place]) : t.Kept := by
  refine ⟨fun hdr => ?_,fun hst => ?_⟩
  · obtain ⟨ho,hcl⟩ := h.down (hd ▸ hdr)
    refine ⟨hcn.trans ho,hr.trans hcl.reconnecting,by rw [hw]; exact hcl.worker,?_⟩
    rw [hca]
    intro c hc
    rcases mem_append.mp hc with hold | hn
    · exact hcl.callers c hold
    · rw [mem_singleton.mp hn]
      exact hp
  · exact hd.trans (h.after (hs hst))

theorem call_kept (h : s.Kept) (call : Call) : (s.called call).Kept := by
  cases call with
  | setEnabled enabled =>
    cases enabled with
    | true => exact h.joined .enabling rfl rfl (fun hs => by cases hs) rfl rfl rfl rfl
    | false => exact h.joined .disabling rfl rfl id rfl rfl rfl rfl
  | connect => exact kept_fresh rfl rfl
  | disconnect => exact h.joined .stopping rfl rfl id rfl rfl rfl rfl

end Steps

theorem kept_step (s : Controller) (e : Event) (h : s.Kept) (hq : s.Undisturbed e) :
    (s.step e).Kept := by
  cases e with
  | worker out => exact worker_kept h out
  | caller n out => exact caller_kept h hq
  | call call => exact call_kept h call

/-- In every state of an undisturbed run: once a call to stop has returned and until the
driver is switched on or a connect is called, the controller is not connected. -/
theorem stays_stopped (es fs gs : List Event) (hsplit : es = fs++gs)
    (h : Meets step Undisturbed {} es) (hstopped : (run step {} fs).stopped = true) :
    (run step {} fs).connected = false := by
  subst hsplit
  have hk : (run step {} fs).Kept := run_always step _ Kept kept_step {} fs gs
    (kept_fresh rfl rfl) h
  exact (hk.down (hk.after hstopped)).1

/-- Connect, and disconnect while the thread of the controller drains its queue. -/
def plainStop : List Event :=
  [.call .connect,.caller 0 true,.caller 0 true,.caller 0 true,.caller 0 true,
    .call .disconnect,.caller 1 true,.caller 1 true,.caller 1 true]

theorem plain_stop_stays :
    Meets step Undisturbed {} plainStop ∧ (run step {} plainStop).connected = false := by
  have hm : Meets step Undisturbed {} plainStop := by
    refine ⟨trivial,trivial,trivial,trivial,trivial,trivial,trivial,?_,rfl,trivial⟩
    exact fun _ => ⟨rfl,rfl,by decide⟩
  exact ⟨hm,stays_stopped _ _ [] (by simp) hm (by decide)⟩

/-- A heartbeat fails and the controller reconnects. The driver is switched off while the
attempt has reached the panel and has not yet set the flag. -/
def overtaken : List Event :=
  [.call .connect,.caller 0 true,.caller 0 true,.caller 0 true,.caller 0 true,
    .worker true,.worker true,.worker true,.worker true,.worker true,.worker true,.worker true,
    .worker true,.worker true,.worker true,.worker true,.worker true,.worker true,.worker true,
    .call (.setEnabled false),.caller 1 true,.caller 1 true,.caller 1 true,
    .worker true,.worker true]

theorem overtaken_connected :
    (run step {} overtaken).enabled = false ∧ (run step {} overtaken).stopped = true ∧
      (run step {} overtaken).callers = [.returned,.returned] ∧
      (run step {} overtaken).connected = true := by decide

end Controller

end EMaster.Zk
