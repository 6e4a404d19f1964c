import EMaster.EventBus
import EMaster.PluginLifecycle

/-!
# Event handlers of plugins that are unloaded

The manager and the event bus side by side. A plugin subscribes its own functions as
handlers, so each handler lies in the library of one instance. Neither `Unload` nor the bus
takes a subscription away on its own; only the plugin does, with `Unsubscribe`.
-/

set_option autoImplicit false

namespace EMaster.PluginHandlers
open EventBus List

variable {Id Thread Value Handler : Type} [DecidableEq Id] [DecidableEq Thread]

structure Host (Id Thread Value Handler : Type) where
  manager : PluginLifecycle.Manager Id Thread
  bus : Bus Value Handler

inductive Step (Id Thread Value Handler : Type) where
  | manage (e : PluginLifecycle.Step Id Thread)
  | bus (e : EventBus.Step Value Handler)

def step (s : Host Id Thread Value Handler) :
    Step Id Thread Value Handler → Host Id Thread Value Handler
  | .manage e => { s with manager := PluginLifecycle.step s.manager e }
  | .bus e => { s with bus := busStep s.bus e }

def quietBus : EventBus.Step Value Handler → Bool
  | .publish _ => true
  | e => e.dispatches

def quiet : Step Id Thread Value Handler → Bool
  | .bus e => quietBus e
  | .manage _ => false

def pending : Point Value Handler → List (Subscriber Handler)
  | .calling _ _ _ xs => xs
  | _ => []

def called (s : Host Id Thread Value Handler) :
    Step Id Thread Value Handler → Option (Subscriber Handler)
  | .bus .advance =>
    match (advance s.bus).2 with
    | some (.called x _) => some x
    | _ => none
  | _ => none

/-- The library that a step of the plugin manager closes. -/
def closesLibrary (m : PluginLifecycle.Manager Id Thread) : PluginLifecycle.Step Id Thread → Option ℕ
  | .call _ _ => none
  | .advance t _ =>
    match m.threads t with
    | .store id _ loaded =>
      match m.entries id with
      | none => some loaded.handle
      | some e => e.held
    | .closing handle _ => some handle
    | _ => none

theorem closes_iff {n : ℕ} {held : Option ℕ} {log : List Custody.Event} :
    .closed n ∈ Custody.closes held++log ↔ .closed n ∈ log ∨ held = some n := by
  cases held <;> simp [Custody.closes,eq_comm,or_comm]

open PluginLifecycle in
theorem closed_iff (m : Manager Id Thread) (e : PluginLifecycle.Step Id Thread) (n : ℕ) :
    .closed n ∈ (PluginLifecycle.step m e).log ↔ .closed n ∈ m.log ∨ closesLibrary m e = some n := by
  have hlog : (PluginLifecycle.step m e).log = (Runs.run Custody.apply (ledger m) (ops m e)).log :=
    congrArg Custody.Ledger.log (ledger_step m e)
  have hl : (ledger m).log = m.log := rfl
  rw [hlog]
  cases e with
  | call t call => simp [ops,closesLibrary,Runs.run,hl]
  | advance t choice =>
    have hcall (handle : ℕ) : .closed n ∈
        (Runs.run Custody.apply (ledger m) (callOps choice handle)).log ↔ .closed n ∈ m.log := by
      unfold callOps
      split_ifs <;> simp [Runs.run,Custody.apply,ledger]
    cases hp : m.threads t with
    | store id enables loaded =>
      simp only [ops,closesLibrary,hp]
      cases he : m.entries id with
      | none =>
        simp [Runs.run,Custody.apply,ledger,holder,hp,Point.held,Custody.closes,Custody.destroys,
          eq_comm,or_comm]
      | some e => simpa [Runs.run,Custody.apply,ledger,holder,he] using closes_iff
    | closing handle found =>
      simpa [ops,closesLibrary,hp,Runs.run,Custody.apply,ledger,closing,Point.closes] using
        @closes_iff n (some handle) m.log
    | create id enables =>
      simp only [ops,closesLibrary,hp]
      split_ifs <;> simp [Runs.run,Custody.apply,ledger]
    | unload id found =>
      simp only [ops,closesLibrary,hp]
      cases m.entries id with
      | none => simp [Runs.run,ledger]
      | some e =>
        dsimp only
        split_ifs <;>
          simp [Runs.run,Custody.apply,ledger,holder,hp,Point.held,Custody.closes]
    | stopping loaded found =>
      simp only [ops,closesLibrary,hp]
      split_ifs
      · simp [hcall]
      · simp [Runs.run,ledger]
    | destroying handle found =>
      simp [ops,closesLibrary,hp,Runs.run,Custody.apply,ledger,holder,Point.held,Custody.destroys]
    | _ => simp [ops,closesLibrary,hp,hcall,Runs.run,hl]

section
variable (library : Handler → ℕ) (s : Host Id Thread Value Handler)

def LibraryClosed (x : Subscriber Handler) : Prop := .closed (library x.handler) ∈ s.manager.log

/-- It has been unsubscribed, or its plugin has been unloaded. -/
def Gone (x : Subscriber Handler) : Prop :=
  x.number ∉ numbers s.bus.subscribers ∨ LibraryClosed library s x

def Timely (e : Step Id Thread Value Handler) : Prop := ∀ x, called s e = some x → ¬Gone library s x

/-- Whatever is published and dispatched from here on, no handler is called that is gone. -/
def NoneCalledLate : Prop :=
  ∀ rest : List (Step Id Thread Value Handler), (∀ e ∈ rest, quiet e = true) →
    Runs.Meets step (Timely library) s rest

/-- A subscriber is taken away while the dispatcher does not have it in its copy, a library
is closed when it has no subscriber left in the list or the copy, and none is added later. -/
def Undisturbed : Step Id Thread Value Handler → Prop
  | .bus (.unsubscribe id) => ∀ x, s.bus.subscribers.find? (fun x => x.id = id) = some x →
      x.number ∉ numbers (pending s.bus.point)
  | .bus (.subscribe filter (some handler)) =>
      filter ≠ [] → .closed (library handler) ∉ s.manager.log
  | .manage e => ∀ x ∈ s.bus.subscribers++pending s.bus.point,
      closesLibrary s.manager e ≠ some (library x.handler)
  | _ => True

end

/-! ## The list of subscribers -/

structure Numbered (bus : Bus Value Handler) : Prop where
  fresh : ∀ n ∈ numbers bus.subscribers, n < bus.nextSub
  nodup : (numbers bus.subscribers).Nodup

structure Wired (bus : Bus Value Handler) : Prop where
  capacity : 0 < bus.capacity
  numbered : Numbered bus
  filters : ∀ x ∈ bus.subscribers, x.filter ≠ []

theorem quiet_frame (bus : Bus Value Handler) (e : EventBus.Step Value Handler)
    (h : quietBus e = true) :
    (busStep bus e).capacity = bus.capacity ∧ (busStep bus e).subscribers = bus.subscribers ∧
      (busStep bus e).nextSub = bus.nextSub := by
  cases e with
  | publish q =>
    simp only [busStep,publish]
    split_ifs <;> exact ⟨rfl,rfl,rfl⟩
  | dispatch limit =>
    simp only [busStep,dispatch]
    split <;> exact ⟨rfl,rfl,rfl⟩
  | advance =>
    simp only [busStep,advance]
    cases bus.point with
    | idle => exact ⟨rfl,rfl,rfl⟩
    | looping limit handled =>
      dsimp only
      split_ifs
      · cases bus.queue <;> exact ⟨rfl,rfl,rfl⟩
      · exact ⟨rfl,rfl,rfl⟩
    | calling limit handled q xs => cases xs <;> exact ⟨rfl,rfl,rfl⟩
  | subscribe filter hdl => cases h
  | unsubscribe id => cases h

variable (bus : Bus Value Handler)

theorem subscribe_numbered (filter : Text) (hdl : Option Handler) (h : Numbered bus) :
    Numbered (subscribe bus filter hdl).2 := by
  cases hdl with
  | none => exact h
  | some hdl =>
    simp only [subscribe]
    split_ifs
    · exact h
    · constructor
      · intro n hn
        simp only [numbers,map_append,mem_append] at hn
        rcases hn with hold | hnw
        · exact Nat.lt_succ_of_lt (h.fresh n hold)
        · simp at hnw
          simp [hnw]
      · simp only [numbers,map_append]
        refine nodup_append.mpr ⟨h.nodup,by simp,?_⟩
        intro n hn m hm
        have hlt := h.fresh n hn
        simp at hm
        omega

theorem unsubscribe_numbered (id : UInt64) (h : Numbered bus) : Numbered (unsubscribe bus id) := by
  have hs : (numbers (unsubscribe bus id).subscribers).Sublist (numbers bus.subscribers) :=
    eraseP_sublist.map Subscriber.number
  exact ⟨fun n hn => h.fresh n (hs.subset hn),h.nodup.sublist hs⟩

variable {bus}

theorem subscribe_wired (filter : Text) (hdl : Option Handler) (h : Wired bus) : Wired (subscribe bus filter hdl).2 := by
  have hn := subscribe_numbered bus filter hdl h.numbered
  cases hdl with
  | none => exact h
  | some hdl =>
    simp only [subscribe] at hn ⊢
    split_ifs at hn ⊢ with hf
    · exact h
    · refine ⟨h.capacity,hn,?_⟩
      intro x hx
      rcases mem_append.mp hx with hold | hnw
      · exact h.filters x hold
      · rw [mem_singleton.mp hnw]
        exact hf

theorem unsubscribe_wired (id : UInt64) (h : Wired bus) : Wired (unsubscribe bus id) :=
  ⟨h.capacity,unsubscribe_numbered bus id h.numbered,
    fun x hx => h.filters x (eraseP_sublist.subset hx)⟩

theorem wired_step {s : Host Id Thread Value Handler} (e : Step Id Thread Value Handler)
    (h : Wired s.bus) : Wired (step s e).bus := by
  have hq (e : EventBus.Step Value Handler)
      (he : quietBus e = true) : Wired (busStep s.bus e) := by
    obtain ⟨hc,hs,hn⟩ := quiet_frame s.bus e he
    refine ⟨hc ▸ h.capacity,⟨?_,?_⟩,hs ▸ h.filters⟩
    · rw [hs,hn]
      exact h.numbered.fresh
    · rw [hs]
      exact h.numbered.nodup
  cases e with
  | manage e => exact h
  | bus e =>
    cases e with
    | publish q => exact hq (.publish q) rfl
    | dispatch limit => exact hq (.dispatch limit) rfl
    | advance => exact hq .advance rfl
    | subscribe filter hdl => exact subscribe_wired _ hdl h
    | unsubscribe id => exact unsubscribe_wired id h

section
variable (library : Handler → ℕ)

/-- A handler that is still to be called is gone, or one that may be called again lies in a
closed library. -/
def Doomed (s : Host Id Thread Value Handler) : Prop :=
  (∃ x ∈ pending s.bus.point, Gone library s x) ∨ ∃ x ∈ s.bus.subscribers, LibraryClosed library s x

variable (s : Host Id Thread Value Handler) (e : Step Id Thread Value Handler)
  {x : Subscriber Handler}

omit [DecidableEq Id] [DecidableEq Thread] in
theorem called_pending (h : called s e = some x) : x ∈ pending s.bus.point := by
  cases e with
  | manage e => cases h
  | bus e =>
    cases e with
    | advance =>
      cases hp : s.bus.point with
      | idle => simp [called,advance,hp] at h
      | looping limit handled =>
        by_cases hl : handled < limit
        · cases hq : s.bus.queue <;> simp [called,advance,hp,hl,hq] at h
        · simp [called,advance,hp,hl] at h
      | calling limit handled q xs =>
        cases xs with
        | nil => simp [called,advance,hp] at h
        | cons y ys =>
          have hy : y = x := by simpa [called,advance,hp] using h
          simp [pending,hy]
    | publish q => cases h
    | subscribe filter hdl => cases h
    | unsubscribe id => cases h
    | dispatch limit => cases h

/-- Afterwards the dispatcher has in its copy what it had, or subscribers of the list. -/
theorem quiet_pending {bus : Bus Value Handler} {e : EventBus.Step Value Handler}
    (h : quietBus e = true) (hx : x ∈ pending (busStep bus e).point) : x ∈ pending bus.point ∨ x ∈ bus.subscribers := by
  cases e with
  | publish q =>
    left
    simp only [busStep,publish] at hx
    split_ifs at hx <;> exact hx
  | dispatch limit =>
    left
    simp only [busStep,dispatch] at hx
    cases hp : bus.point <;> simp_all [pending]
  | advance =>
    cases hp : bus.point with
    | idle => simp [busStep,advance,hp,pending] at hx
    | looping limit handled =>
      right
      by_cases hl : handled < limit
      · cases hq : bus.queue with
        | nil => simp [busStep,advance,hp,hl,hq,pending] at hx
        | cons q rest =>
          have hm : x ∈ targets bus.subscribers q := by
            simpa [busStep,advance,hp,hl,hq,pending] using hx
          exact mem_of_mem_filter hm
      · simp [busStep,advance,hp,hl,pending] at hx
    | calling limit handled q xs =>
      left
      cases xs with
      | nil => simp [busStep,advance,hp,pending] at hx
      | cons y ys =>
        have hys : x ∈ ys := by simpa [busStep,advance,hp,pending] using hx
        exact mem_cons_of_mem y hys
  | subscribe filter hdl => cases h
  | unsubscribe id => cases h

theorem quiet_not_doomed (h : quiet e = true) (hs : ¬Doomed library s) :
    ¬Doomed library (step s e) := by
  cases e with
  | manage e => cases h
  | bus e =>
    obtain ⟨_,hsb,_⟩ := quiet_frame s.bus e h
    rintro (⟨x,hx,hgn⟩ | ⟨x,hx,hc⟩)
    · have hg : Gone library s x := by
        simpa only [Gone,LibraryClosed,step,hsb] using hgn
      rcases quiet_pending h hx with hp | hl
      · exact hs (.inl ⟨x,hp,hg⟩)
      · have hc := hg.resolve_left (not_not_intro (mem_map_of_mem hl))
        exact hs (.inr ⟨x,hl,hc⟩)
    · have hl : x ∈ s.bus.subscribers := by simpa only [step,hsb] using hx
      exact hs (.inr ⟨x,hl,hc⟩)

theorem none_called_late (hs : ¬Doomed library s) : NoneCalledLate library s := by
  intro rest hr
  induction rest generalizing s with
  | nil => trivial
  | cons e rest ih =>
    constructor
    · intro x hx hg
      exact hs (.inl ⟨x,called_pending s e hx,hg⟩)
    · exact ih _ (quiet_not_doomed library s e (hr e mem_cons_self) hs)
        (fun f hf => hr f (mem_cons_of_mem e hf))

theorem none_called_late_run {es : List (Step Id Thread Value Handler)}
    (hes : ∀ e ∈ es, quiet e = true) (h : NoneCalledLate library s) :
    NoneCalledLate library (Runs.run step s es) := by
  intro rest hr
  have ha : ∀ e ∈ es++rest, quiet e = true := by
    intro e he
    rcases mem_append.mp he with hf | ht
    · exact hes e hf
    · exact hr e ht
  exact ((Runs.meets_append step _ s es rest).mp (h (es++rest) ha)).2

variable {xs : List (Subscriber Handler)}

theorem gone_is_called {limit handled : ℕ} {q : Queued Value}
    (hp : s.bus.point = .calling limit handled q xs) (hx : x ∈ xs) (hg : Gone library s x) :
    ¬NoneCalledLate library s := by
  have hq : ∀ e ∈ [(.bus .advance : Step Id Thread Value Handler)], quiet e = true := by
    simp [quiet,quietBus,Step.dispatches]
  induction xs generalizing s with
  | nil => cases hx
  | cons y ys ih =>
    intro hn
    rcases mem_cons.mp hx with rfl | hys
    · have hc : called s (.bus .advance) = some x := by simp [called,advance,hp]
      exact (hn _ hq).1 x hc hg
    · have hs := (quiet_frame s.bus .advance rfl).2.1
      refine ih (step s (.bus .advance)) ?_ hys ?_ (none_called_late_run _ s hq hn)
      · simp [step,busStep,advance,hp]
      · simpa only [Gone,LibraryClosed,step,hs] using hg

theorem dispatches_quiet {e : EventBus.Step Value Handler} (h : e.dispatches = true) :
    quietBus e = true := by
  cases e <;> first | rfl | exact h

theorem run_bus_steps (es : List (EventBus.Step Value Handler)) :
    Runs.run step s (es.map Step.bus) = { s with bus := Runs.run busStep s.bus es } := by
  induction es generalizing s with
  | nil => rfl
  | cons e es ih => exact ih _

theorem filter_matches_itself {filter : Text} (h : filter ≠ []) :
    filterMatches filter filter = true := by
  simp [filterMatches,h]

variable {s}

theorem closed_is_called (hs : Wired s.bus) (hx : x ∈ s.bus.subscribers)
    (hc : LibraryClosed library s x) : ¬NoneCalledLate library s := by
  intro hn
  obtain ⟨es,hes,hr⟩ := drains s.bus
  let q : Queued Value := ⟨x.filter,[],[],none,0⟩
  let more : List (EventBus.Step Value Handler) := es++[.publish q,.dispatch 1,.advance]
  have hq : ∀ e ∈ more.map (Step.bus : _ → Step Id Thread Value Handler), quiet e = true := by
    intro e he
    obtain ⟨b,hb,rfl⟩ := mem_map.mp he
    rcases mem_append.mp hb with hd | hl
    · exact dispatches_quiet (hes b hd)
    · simp only [mem_cons,not_mem_nil,or_false] at hl
      rcases hl with rfl | rfl | rfl <;> rfl
  have hm : Runs.run busStep s.bus more = { s.bus with
      queue := [], point := .calling 1 0 q (targets s.bus.subscribers q) } := by
    have hem : ¬s.bus.capacity ≤ 0 := not_le.mpr hs.capacity
    simp [more,q,Runs.run_append,hr,Runs.run,busStep,publish,dispatch,advance,hs.filters x hx,hem]
  have ht := none_called_late_run _ s hq hn
  rw [run_bus_steps,hm] at ht
  refine gone_is_called library ⟨s.manager,{ s.bus with
    queue := [], point := .calling 1 0 q (targets s.bus.subscribers q) }⟩ rfl ?_ (.inr hc) ht
  exact mem_filter.mpr ⟨hx,filter_matches_itself (hs.filters x hx)⟩

theorem doomed_called (hs : Wired s.bus) (h : Doomed library s) : ¬NoneCalledLate library s := by
  rcases h with ⟨x,hx,hg⟩ | ⟨x,hx,hc⟩
  · cases hp : s.bus.point with
    | idle => simp [hp,pending] at hx
    | looping limit handled => simp [hp,pending] at hx
    | calling limit handled q xs =>
      exact gone_is_called _ s hp (by simpa [hp,pending] using hx) hg
  · exact closed_is_called _ hs hx hc

variable {id : UInt64}

theorem erased_listed {n : ℕ} (hn : n ∈ numbers xs)
    (h : ∀ x, xs.find? (fun x => x.id = id) = some x → x.number ≠ n) :
    n ∈ numbers (xs.eraseP (fun x => x.id = id)) := by
  induction xs with
  | nil => cases hn
  | cons x xs ih =>
    by_cases hid : x.id = id
    · have hne := h x (by simp [hid])
      rcases mem_cons.mp hn with rfl | ht
      · exact absurd rfl hne
      · rw [eraseP_cons_of_pos (by simpa using hid)]
        exact ht
    · rcases mem_cons.mp hn with rfl | ht
      · simp [hid,numbers]
      · have hr := ih ht (fun y hy => h y (by simpa [hid] using hy))
        simpa [eraseP_cons,hid,numbers] using Or.inr hr

theorem erased_not_listed (hn : (numbers xs).Nodup) (h : xs.find? (fun x => x.id = id) = some x) :
    x.number ∉ numbers (xs.eraseP (fun x => x.id = id)) := by
  induction xs with
  | nil => cases h
  | cons y ys ih =>
    obtain ⟨hy,hys⟩ := nodup_cons.mp hn
    by_cases hid : y.id = id
    · have hyx : y = x := by simpa [hid] using h
      rw [eraseP_cons_of_pos (by simpa using hid),← hyx]
      exact hy
    · have hf : ys.find? (fun x => x.id = id) = some x := by simpa [hid] using h
      have hr := ih hys hf
      have hne : x.number ≠ y.number :=
        fun heq => hy (heq ▸ mem_map_of_mem (mem_of_find?_eq_some hf))
      simpa [eraseP_cons,hid,numbers] using ⟨hne,by simpa [numbers] using hr⟩

theorem unsubscribe_doomed_iff (id : UInt64) (hw : Wired s.bus) (hs : ¬Doomed library s) :
    ¬Doomed library (step s (.bus (.unsubscribe id))) ↔
      Undisturbed library s (.bus (.unsubscribe id)) := by
  constructor
  · intro hsf x hf hp
    obtain ⟨y,hy,hn⟩ := mem_map.mp hp
    refine hsf (.inl ⟨y,hy,.inl ?_⟩)
    rw [hn]
    exact erased_not_listed hw.numbered.nodup hf
  · intro hq
    rintro (⟨x,hx,hg⟩ | ⟨x,hx,hc⟩)
    · refine hs (.inl ⟨x,hx,?_⟩)
      rcases hg with hm | hc
      · refine .inl (fun hl => hm ?_)
        refine erased_listed hl ?_
        intro y hy heq
        exact hq y hy (heq ▸ mem_map_of_mem hx)
      · exact .inr hc
    · exact hs (.inr ⟨x,eraseP_sublist.subset hx,hc⟩)

theorem subscribe_doomed_iff (filter : Text) (hdl : Option Handler) (hs : ¬Doomed library s) :
    ¬Doomed library (step s (.bus (.subscribe filter hdl))) ↔
      Undisturbed library s (.bus (.subscribe filter hdl)) := by
  cases hdl with
  | none => exact iff_of_true hs trivial
  | some hdl =>
    by_cases hf : filter = []
    · have hsm : step s (.bus (.subscribe filter (some hdl))) = s := by
        simp [step,busStep,subscribe,hf]
      rw [hsm]
      exact iff_of_true hs (fun hne => absurd hf hne)
    · let added : Subscriber Handler := ⟨s.bus.nextSub,filter,hdl⟩
      have hsb : (step s (.bus (.subscribe filter (some hdl)))).bus.subscribers =
          s.bus.subscribers++[added] := by
        simp [step,busStep,subscribe,hf,added]
      have hp : (step s (.bus (.subscribe filter (some hdl)))).bus.point = s.bus.point := by
        simp [step,busStep,subscribe,hf]
      constructor
      · intro hsf _ hc
        exact hsf (.inr ⟨added,by simp [hsb],hc⟩)
      · intro hq
        rintro (⟨x,hx,hg⟩ | ⟨x,hx,hc⟩)
        · rw [hp] at hx
          refine hs (.inl ⟨x,hx,?_⟩)
          rcases hg with hm | hc
          · refine .inl (fun hl => hm ?_)
            rw [hsb,numbers,map_append]
            exact mem_append_left _ hl
          · exact .inr hc
        · rw [hsb] at hx
          rcases mem_append.mp hx with hold | hn
          · exact hs (.inr ⟨x,hold,hc⟩)
          · rw [mem_singleton.mp hn] at hc
            exact hq hf hc

theorem manage_doomed_iff (e : PluginLifecycle.Step Id Thread) (hs : ¬Doomed library s) :
    ¬Doomed library (step s (.manage e)) ↔ Undisturbed library s (.manage e) := by
  have hclosed (x : Subscriber Handler) : LibraryClosed library (step s (.manage e)) x ↔
      LibraryClosed library s x ∨ closesLibrary s.manager e = some (library x.handler) :=
    closed_iff s.manager e _
  constructor
  · intro hsf x hx hc
    rcases mem_append.mp hx with hl | hp
    · exact hsf (.inr ⟨x,hl,(hclosed x).mpr (.inr hc)⟩)
    · exact hsf (.inl ⟨x,hp,.inr ((hclosed x).mpr (.inr hc))⟩)
  · intro hq
    rintro (⟨x,hx,hm | hc⟩ | ⟨x,hx,hc⟩)
    · exact hs (.inl ⟨x,hx,.inl hm⟩)
    · rcases (hclosed x).mp hc with hc | hc
      · exact hs (.inl ⟨x,hx,.inr hc⟩)
      · exact hq x (mem_append_right _ hx) hc
    · rcases (hclosed x).mp hc with hc | hc
      · exact hs (.inr ⟨x,hx,hc⟩)
      · exact hq x (mem_append_left _ hx) hc

theorem step_doomed_iff (hw : Wired s.bus) (hs : ¬Doomed library s) :
    ¬Doomed library (step s e) ↔ Undisturbed library s e := by
  cases e with
  | manage e => exact manage_doomed_iff _ e hs
  | bus e =>
    cases e with
    | publish q => exact iff_of_true (quiet_not_doomed library s _ rfl hs) trivial
    | dispatch limit =>
      exact iff_of_true (quiet_not_doomed library s _ rfl hs) trivial
    | advance => exact iff_of_true (quiet_not_doomed library s _ rfl hs) trivial
    | subscribe filter hdl => exact subscribe_doomed_iff _ _ hdl hs
    | unsubscribe id => exact unsubscribe_doomed_iff _ id hw hs

variable (manager : PluginLifecycle.Manager Id Thread)

def opened (capacity : ℕ) : Host Id Thread Value Handler :=
  ⟨manager,new capacity⟩

omit [DecidableEq Id] [DecidableEq Thread] in
theorem opened_wired (capacity : ℕ) :
    Wired (opened manager capacity : Host Id Thread Value Handler).bus := by
  refine ⟨?_,⟨?_,?_⟩,?_⟩
  · simp only [opened,new]
    split_ifs with h
    · exact Nat.one_pos
    · exact Nat.pos_of_ne_zero h
  · simp [opened,new,numbers]
  · simp [opened,new,numbers]
  · simp [opened,new]

omit [DecidableEq Id] [DecidableEq Thread] in
theorem opened_not_doomed (capacity : ℕ) :
    ¬Doomed library (opened manager capacity : Host Id Thread Value Handler) := by
  simp [Doomed,opened,new,pending]

/-- In no state of a run can publishing and dispatching lead to a call of a handler that has
been unsubscribed or whose library is closed, exactly if no step of the run takes a
handler away from under the dispatcher. -/
theorem late_calls_iff (manager : PluginLifecycle.Manager Id Thread) (capacity : ℕ)
    (steps : List (Step Id Thread Value Handler)) :
    (∀ before after, steps = before++after →
      NoneCalledLate library (Runs.run step (opened manager capacity) before)) ↔
      Runs.Meets step (Undisturbed library) (opened manager capacity) steps := by
  refine Runs.always_iff_meets step _
    (fun s => Wired s.bus ∧ ¬Doomed library s) (NoneCalledLate library) ?_ ?_ ?_ _ steps
    ⟨opened_wired manager capacity,opened_not_doomed library manager capacity⟩
  · intro s e hs hq
    exact ⟨wired_step e hs.1,(step_doomed_iff _ e hs.1 hs.2).mpr hq⟩
  · intro s hs
    exact none_called_late _ s hs.2
  · intro s e hs hn
    have hd : Doomed library (step s e) := by
      by_contra hsf
      exact hn ((step_doomed_iff _ e hs.1 hs.2).mp hsf)
    exact doomed_called library (wired_step e hs.1) hd

end

def cardTopic : Text := "driver.zk.card"

def cardHandler : Subscriber ℕ := ⟨1,cardTopic,0⟩

def copied : List (Step Unit Bool Unit ℕ) :=
  [.bus (.subscribe cardTopic (some 0)),.bus (.publish ⟨cardTopic,[],[],none,0⟩),
    .bus (.dispatch 1),.bus .advance]

def managed (steps : List (PluginLifecycle.Step Unit Bool)) : List (Step Unit Bool Unit ℕ) :=
  steps.map Step.manage

/-- The plugin is loaded and subscribes; it is unloaded and unsubscribes when destroyed. -/
def unloadedInBetween : List (Step Unit Bool Unit ℕ) :=
  managed (.call false (.load ())::PluginLifecycle.proceed false 4)++copied++
    managed (.call true (.unload ())::PluginLifecycle.proceed true 2)++[.bus (.unsubscribe 1)]++
    managed (PluginLifecycle.proceed true 2)

def afterSteps (steps : List (Step Unit Bool Unit ℕ)) : Host Unit Bool Unit ℕ :=
  Runs.run step (opened (PluginLifecycle.scanned PluginLifecycle.validated) 256) steps

/-- A handler is called after `Unsubscribe` has returned, and also after its library has been
closed, though the plugin did unsubscribe it. -/
theorem handler_called_late :
    ¬NoneCalledLate (fun handler => handler) (afterSteps (copied++[.bus (.unsubscribe 1)])) ∧
      ¬NoneCalledLate (fun handler => handler) (afterSteps unloadedInBetween) := by
  have hq : ∀ e ∈ [(.bus .advance : Step Unit Bool Unit ℕ)], quiet e = true := by decide
  have hcl : called (afterSteps (copied++[.bus (.unsubscribe 1)])) (.bus .advance) =
      some cardHandler := by decide +kernel
  have hc : called (afterSteps unloadedInBetween) (.bus .advance) = some cardHandler := by
    decide +kernel
  have hg : cardHandler.number ∉
      numbers (afterSteps (copied++[.bus (.unsubscribe 1)])).bus.subscribers := by decide +kernel
  have hcs : .closed 0 ∈ (afterSteps unloadedInBetween).manager.log := by decide +kernel
  constructor
  · intro h
    exact (h _ hq).1 cardHandler hcl (Or.inl hg)
  · intro h
    exact (h _ hq).1 cardHandler hc (Or.inr hcs)

end EMaster.PluginHandlers
