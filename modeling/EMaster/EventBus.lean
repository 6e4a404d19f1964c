import EMaster.Runs
import EMaster.Text

/-!
# The event bus of the plugins

Publishers and subscribers work from any threads on one queue, which one thread dispatches.
A section under the lock is one step, and so is each call of a handler or of the sink. What
a handler itself does with the bus is a step as that of any other thread. The sink is the
one that the host has set before the first event.
-/

set_option autoImplicit false

namespace EMaster.EventBus
open List Runs

variable {Value Handler : Type}

inductive Status where
  | OK
  | ERR_INVALID_ARG
  | ERR_BUSY
  deriving DecidableEq, Repr

structure Queued (Value : Type) where
  (topic source payloadJson : Text)
  value : Option Value
  timestampMs : ℤ
  deriving DecidableEq, Repr

/-- Subscriptions are numbered without end, and the identifier is that number in 64 bits. -/
structure Subscriber (Handler : Type) where
  number : ℕ
  filter : Text
  handler : Handler
  deriving DecidableEq, Repr

def Subscriber.id (x : Subscriber Handler) : UInt64 := .ofNat x.number

def filterMatches (filter topic : Text) : Bool :=
  if filter = [] then false
  else if filter = ['*'] then true
  else if filter.getLast? = some '*' then
    let n := filter.length-1
    decide (n ≤ topic.length) && decide (topic.take n = filter.take n)
  else decide (filter = topic)

inductive Point (Value Handler : Type) where
  | idle
  | looping (limit handled : ℕ)
  | calling (limit handled : ℕ) (q : Queued Value) (targets : List (Subscriber Handler))

structure Bus (Value Handler : Type) where
  capacity : ℕ
  queue : List (Queued Value)
  subscribers : List (Subscriber Handler)
  nextSub : ℕ
  dropped : UInt64
  point : Point Value Handler

def new (capacity : ℕ) : Bus Value Handler := ⟨if capacity = 0 then 1 else capacity,[],[],1,0,.idle⟩

/-- The event is given as it is queued, with the source of the caller and the time. -/
def publish (bus : Bus Value Handler) (q : Queued Value) : Status×Bus Value Handler :=
  if q.topic = [] then (.ERR_INVALID_ARG,bus)
  else if bus.capacity ≤ bus.queue.length then (.ERR_BUSY,{ bus with dropped := bus.dropped+1 })
  else (.OK,{ bus with queue := bus.queue++[q] })

def subscribe (bus : Bus Value Handler) (filter : Text) : Option Handler → UInt64×Bus Value Handler
  | none => (0,bus)
  | some handler =>
    if filter = [] then (0,bus)
    else (.ofNat bus.nextSub,{ bus with
      subscribers := bus.subscribers++[⟨bus.nextSub,filter,handler⟩]
      nextSub := bus.nextSub+1 })

def unsubscribe (bus : Bus Value Handler) (id : UInt64) : Bus Value Handler :=
  { bus with subscribers := bus.subscribers.eraseP (fun x => x.id = id) }

def dispatch (bus : Bus Value Handler) (limit : ℕ) : Bus Value Handler :=
  match bus.point with
  | .idle => { bus with point := .looping limit 0 }
  | _ => bus

def cstr (text : Text) : Text := text.takeWhile (fun c => c ≠ '\x00')

/-- What a handler is given: the texts are passed as C strings. -/
def toEvent (q : Queued Value) : Queued Value :=
  { q with topic := cstr q.topic, source := cstr q.source, payloadJson := cstr q.payloadJson }

inductive Output (Value Handler : Type) where
  | took (q : Queued Value)
  | called (x : Subscriber Handler) (event : Queued Value)
  | sank (topic source payloadJson : Text)

def targets (subscribers : List (Subscriber Handler)) (q : Queued Value) :
    List (Subscriber Handler) :=
  subscribers.filter (fun x => filterMatches x.filter q.topic)

def advance (bus : Bus Value Handler) : Bus Value Handler×Option (Output Value Handler) :=
  match bus.point with
  | .idle => (bus,none)
  | .looping limit handled =>
    if handled < limit then
      match bus.queue with
      | [] => ({ bus with point := .idle },none)
      | q::rest =>
        -- the matching subscribers are copied, and the lock is released
        ({ bus with queue := rest, point := .calling limit handled q (targets bus.subscribers q) },
          some (.took q))
    else ({ bus with point := .idle },none)
  | .calling limit handled q (x::xs) =>
    ({ bus with point := .calling limit handled q xs },some (.called x (toEvent q)))
  | .calling limit handled q [] =>
    ({ bus with point := .looping limit (handled+1) },some (.sank q.topic q.source q.payloadJson))

inductive Step (Value Handler : Type) where
  | publish (q : Queued Value)
  | subscribe (filter : Text) (handler : Option Handler)
  | unsubscribe (id : UInt64)
  | dispatch (limit : ℕ)
  | advance

def busStep (bus : Bus Value Handler) : Step Value Handler → Bus Value Handler
  | .publish q => (publish bus q).2
  | .subscribe filter handler => (subscribe bus filter handler).2
  | .unsubscribe id => unsubscribe bus id
  | .dispatch limit => dispatch bus limit
  | .advance => (advance bus).1

/-! ## What is seen of a run -/

/-- The events accepted, how often the bus was busy, the subscriptions that callers have made and
those of them not yet cancelled, the events taken out of the queue with the latter at that time,
and the calls of the handlers and of the sink. -/
structure Seen (Value Handler : Type) where
  accepted : List (Queued Value)
  refused : ℕ
  joined : List (Subscriber Handler)
  live : List (Subscriber Handler)
  taken : List (Queued Value×List (Subscriber Handler))
  calls : List (Subscriber Handler×Queued Value)
  sunk : List (Text×Text×Text)

/-- The subscription that a caller asks for, after the others. -/
def Seen.asked (seen : Seen Value Handler) (filter : Text) (handler : Handler) :
    Subscriber Handler := ⟨seen.joined.length+1,filter,handler⟩

def Seen.subscribed (seen : Seen Value Handler) (filter : Text) :
    Option Handler → Seen Value Handler
  | none => seen
  | some handler =>
    if filter = [] then seen
    else { seen with
      joined := seen.joined++[seen.asked filter handler]
      live := seen.live++[seen.asked filter handler] }

/-- The oldest subscription with an identifier is cancelled. -/
def Seen.unsubscribed (seen : Seen Value Handler) (id : UInt64) : Seen Value Handler :=
  { seen with live := seen.live.eraseP (fun x => x.id = id) }

def Seen.published (seen : Seen Value Handler) (q : Queued Value) : Status → Seen Value Handler
  | .OK => { seen with accepted := seen.accepted++[q] }
  | .ERR_BUSY => { seen with refused := seen.refused+1 }
  | .ERR_INVALID_ARG => seen

def Seen.output (seen : Seen Value Handler) : Option (Output Value Handler) → Seen Value Handler
  | none => seen
  | some (.took q) => { seen with taken := seen.taken++[(q,seen.live)] }
  | some (.called x event) => { seen with calls := seen.calls++[(x,event)] }
  | some (.sank topic source payloadJson) =>
    { seen with sunk := seen.sunk++[(topic,source,payloadJson)] }

structure World (Value Handler : Type) where
  bus : Bus Value Handler
  seen : Seen Value Handler

def start (capacity : ℕ) : World Value Handler := ⟨new capacity,⟨[],0,[],[],[],[],[]⟩⟩

def step (w : World Value Handler) (e : Step Value Handler) : World Value Handler :=
  ⟨busStep w.bus e,
    match e with
    | .publish q => w.seen.published q (publish w.bus q).1
    | .subscribe filter handler => w.seen.subscribed filter handler
    | .unsubscribe id => w.seen.unsubscribed id
    | .dispatch _ => w.seen
    | .advance => w.seen.output (advance w.bus).2⟩

def handed (q : Queued Value) : Text×Text×Text := (q.topic,q.source,q.payloadJson)

def Point.inHand : Point Value Handler → List (Queued Value)
  | .calling _ _ q _ => [q]
  | _ => []

def Point.due : Point Value Handler → List (Subscriber Handler×Queued Value)
  | .calling _ _ q xs => xs.map (fun x => (x,toEvent q))
  | _ => []

def deliveries (d : Queued Value×List (Subscriber Handler)) :
    List (Subscriber Handler×Queued Value) :=
  (targets d.2 d.1).map (fun x => (x,toEvent d.1))

def numbers (subscribers : List (Subscriber Handler)) : List ℕ := subscribers.map Subscriber.number

/-- The bus holds the subscriptions that are not cancelled, as they were made. -/
structure Enrolled (subscribers : List (Subscriber Handler)) (nextSub : ℕ)
    (joined live : List (Subscriber Handler))
    (taken : List (Queued Value×List (Subscriber Handler))) : Prop where
  held : subscribers = live
  next : nextSub = joined.length+1
  old : ∀ x ∈ joined, x.number ≤ joined.length
  known : ∀ x ∈ live, x ∈ joined
  nodup : (numbers live).Nodup
  nodupTaken : ∀ d ∈ taken, (numbers d.2).Nodup
  knownTaken : ∀ d ∈ taken, ∀ x ∈ d.2, x ∈ joined

def World.Enrolled (w : World Value Handler) : Prop :=
  EventBus.Enrolled w.bus.subscribers w.bus.nextSub w.seen.joined w.seen.live w.seen.taken

variable (w : World Value Handler) (bus : Bus Value Handler) (number : ℕ) (q : Queued Value)

theorem subscribe_enrolled (filter : Text) (hdl : Option Handler) (h : w.Enrolled) :
    (step w (.subscribe filter hdl)).Enrolled := by
  cases hdl with
  | none => exact h
  | some hdl =>
    simp only [step,busStep,subscribe,Seen.subscribed]
    split_ifs
    · exact h
    · have hx : (⟨w.bus.nextSub,filter,hdl⟩ : Subscriber Handler) = w.seen.asked filter hdl := by
        rw [h.next]
        rfl
      refine ⟨by rw [hx,h.held],by simp [h.next],?_,?_,?_,h.nodupTaken,
        fun d hd x hx => mem_append_left _ (h.knownTaken d hd x hx)⟩
      · intro x hx
        rw [length_append]
        rcases mem_append.mp hx with hx | hx
        · exact Nat.le_add_right_of_le (h.old x hx)
        · exact le_of_eq (congrArg Subscriber.number (mem_singleton.mp hx))
      · intro x hx
        rcases mem_append.mp hx with hx | hx
        · exact mem_append_left _ (h.known x hx)
        · exact mem_append_right _ hx
      · rw [numbers,map_append]
        refine nodup_append.mpr ⟨h.nodup,nodup_singleton _,?_⟩
        intro n hn m hm
        obtain ⟨x,hx,rfl⟩ := mem_map.mp hn
        rw [mem_singleton.mp hm]
        exact ne_of_lt (Nat.lt_succ_of_le (h.old x (h.known x hx)))

theorem unsubscribe_enrolled (id : UInt64) (h : w.Enrolled) :
    (step w (.unsubscribe id)).Enrolled := by
  have hs : (w.seen.unsubscribed id).live.Sublist w.seen.live := eraseP_sublist
  exact ⟨congrArg (eraseP _) h.held,h.next,h.old,fun x hx => h.known x (hs.subset hx),
    h.nodup.sublist (hs.map Subscriber.number),h.nodupTaken,h.knownTaken⟩

structure Consistent (w : World Value Handler) : Prop where
  taken : w.seen.taken.map Prod.fst++w.bus.queue = w.seen.accepted
  sunk : w.seen.sunk++w.bus.point.inHand.map handed = w.seen.taken.map (fun d => handed d.1)
  calls : w.seen.calls++w.bus.point.due = w.seen.taken.flatMap deliveries
  bounded : w.bus.queue.length ≤ w.bus.capacity
  dropped : w.bus.dropped = .ofNat w.seen.refused
  enrolled : w.Enrolled

theorem start_consistent (capacity : ℕ) : Consistent (start capacity : World Value Handler) := by
  have hn : ∀ {α : Type} {p : α → Prop}, ∀ x ∈ ([] : List α), p x :=
    fun x hx => absurd hx not_mem_nil
  exact ⟨rfl,rfl,rfl,Nat.zero_le _,rfl,⟨rfl,rfl,hn,hn,nodup_nil,hn,hn⟩⟩

theorem publish_consistent (h : Consistent w) : Consistent (step w (.publish q)) := by
  simp only [step,busStep,publish]
  split_ifs with ht hf
  · exact h
  · refine ⟨h.taken,h.sunk,h.calls,h.bounded,?_,h.enrolled⟩
    simp [Seen.published,h.dropped,UInt64.ofNat_add]
  · refine ⟨?_,h.sunk,h.calls,?_,h.dropped,h.enrolled⟩
    · simp [Seen.published,← h.taken]
    · simpa using Nat.lt_of_not_le hf

theorem subscribe_consistent (filter : Text) (hdl : Option Handler) (h : Consistent w) :
    Consistent (step w (.subscribe filter hdl)) := by
  have hn := subscribe_enrolled w filter hdl h.enrolled
  cases hdl with
  | none => exact h
  | some hdl =>
    simp only [step,busStep,subscribe,Seen.subscribed] at hn ⊢
    split_ifs at hn ⊢
    · exact h
    · exact ⟨h.taken,h.sunk,h.calls,h.bounded,h.dropped,hn⟩

theorem unsubscribe_consistent (id : UInt64) (h : Consistent w) :
    Consistent (step w (.unsubscribe id)) :=
  ⟨h.taken,h.sunk,h.calls,h.bounded,h.dropped,unsubscribe_enrolled w id h.enrolled⟩

variable (limit : ℕ)

theorem dispatch_consistent (h : Consistent w) : Consistent (step w (.dispatch limit)) := by
  simp only [step,busStep,dispatch]
  split
  · rename_i hp
    have hs := h.sunk
    have hc := h.calls
    rw [hp] at hs hc
    exact ⟨h.taken,hs,hc,h.bounded,h.dropped,h.enrolled⟩
  · exact h

theorem take_enrolled (h : w.Enrolled) :
    EventBus.Enrolled w.bus.subscribers w.bus.nextSub w.seen.joined w.seen.live
      (w.seen.taken++[(q,w.seen.live)]) := by
  refine ⟨h.held,h.next,h.old,h.known,h.nodup,fun d hd => ?_,fun d hd => ?_⟩
  · rcases mem_append.mp hd with hd | hd
    · exact h.nodupTaken d hd
    · rw [mem_singleton.mp hd]
      exact h.nodup
  · rcases mem_append.mp hd with hd | hd
    · exact h.knownTaken d hd
    · rw [mem_singleton.mp hd]
      exact h.known

theorem advance_consistent (h : Consistent w) : Consistent (step w .advance) := by
  have hs := h.sunk
  have hc := h.calls
  simp only [step,busStep,advance]
  cases hp : w.bus.point with
  | idle => exact h
  | looping limit handled =>
    rw [hp] at hs hc
    dsimp only
    split_ifs
    · have ht := h.taken
      have hb := h.bounded
      cases hq : w.bus.queue with
      | nil =>
        rw [hq] at ht hb
        exact ⟨ht,hs,hc,hb,h.dropped,h.enrolled⟩
      | cons q rest =>
        rw [hq] at ht hb
        refine ⟨?_,?_,?_,Nat.le_of_succ_le hb,h.dropped,take_enrolled w q h.enrolled⟩
        · simpa [Seen.output] using ht
        · simpa [Seen.output,Point.inHand] using hs
        · simpa [Seen.output,Point.due,deliveries,h.enrolled.held] using hc
    · exact ⟨h.taken,hs,hc,h.bounded,h.dropped,h.enrolled⟩
  | calling limit handled q xs =>
    rw [hp] at hs hc
    cases xs with
    | nil =>
      refine ⟨h.taken,?_,hc,h.bounded,h.dropped,h.enrolled⟩
      simpa [Seen.output,Point.inHand,handed] using hs
    | cons x xs =>
      refine ⟨h.taken,hs,?_,h.bounded,h.dropped,h.enrolled⟩
      simpa [Seen.output,Point.due] using hc

theorem step_consistent (e : Step Value Handler) (h : Consistent w) : Consistent (step w e) := by
  cases e with
  | publish q => exact publish_consistent w q h
  | subscribe filter hdl => exact subscribe_consistent w _ hdl h
  | unsubscribe id => exact unsubscribe_consistent w id h
  | dispatch limit => exact dispatch_consistent w limit h
  | advance => exact advance_consistent w h

theorem run_consistent (capacity : ℕ) (steps : List (Step Value Handler)) :
    Consistent (run step (start capacity) steps) :=
  run_invariant step (fun _ _ => True) Consistent (fun w e h _ => step_consistent w e h) _
    steps (start_consistent capacity) (meets_of_forall step _ _ steps (fun _ _ _ => trivial))

/-! ## One subscriber -/

def received (w : World Value Handler) (number : ℕ) : List (Queued Value) :=
  (w.seen.calls.filter (fun c => c.1.number = number)).map Prod.snd

def awaited (w : World Value Handler) (number : ℕ) : List (Queued Value) :=
  (w.bus.point.due.filter (fun c => c.1.number = number)).map Prod.snd

/-- A filter is a topic, or the beginning of one and a star. -/
def Matches (filter topic : Text) : Prop := filter ≠ [] ∧ (filter = topic ∨
  filter.getLast? = some '*' ∧ filter.dropLast <+: topic)

instance (filter topic : Text) : Decidable (Matches filter topic) :=
  inferInstanceAs (Decidable (_ ∧ _))

theorem filter_matches_iff (filter topic : Text) :
    filterMatches filter topic = true ↔ Matches filter topic := by
  rw [filterMatches,Matches]
  split_ifs with he hs hl
  · simp [he]
  · simp [hs]
  · -- a topic that is the filter itself begins with the filter without its star, too
    rw [Bool.and_eq_true,decide_eq_true_iff,decide_eq_true_iff,← dropLast_eq_take,
      prefix_iff_eq_take,length_dropLast]
    constructor
    · exact fun h => ⟨he,.inr ⟨hl,h.2.symm⟩⟩
    · rintro ⟨-,rfl | ⟨-,h⟩⟩
      · exact ⟨Nat.sub_le _ _,dropLast_eq_take.symm⟩
      · refine ⟨?_,h.symm⟩
        rw [← length_dropLast,h]
        exact length_take_le' _ _
  · simp [he,hl]

def wanted (number : ℕ) (d : Queued Value×List (Subscriber Handler)) : Bool :=
  d.2.any (fun x => decide (x.number = number) && decide (Matches x.filter d.1.topic))

variable {xs : List (Subscriber Handler)}

theorem not_wanted (h : number ∉ numbers xs) : wanted number (q,xs) = false := by
  simp only [wanted,any_eq_false]
  intro x hx
  have hne : x.number ≠ number := fun heq => h (heq ▸ mem_map_of_mem hx)
  simp [hne]

theorem deliveries_cons (x : Subscriber Handler) (xs : List (Subscriber Handler)) :
    deliveries (q,x::xs) =
      (if filterMatches x.filter q.topic then [(x,toEvent q)] else [])++deliveries (q,xs) := by
  by_cases hm : filterMatches x.filter q.topic = true <;> simp [deliveries,targets,hm]

theorem deliveries_of (h : (numbers xs).Nodup) :
    ((deliveries (q,xs)).filter (fun c => c.1.number = number)).map Prod.snd =
      if wanted number (q,xs) then [toEvent q] else [] := by
  induction xs with
  | nil => rfl
  | cons x xs ih =>
    obtain ⟨hx,hxs⟩ := nodup_cons.mp h
    have hw : wanted number (q,x::xs) =
        (decide (x.number = number) && filterMatches x.filter q.topic || wanted number (q,xs)) := by
      rw [wanted,wanted,any_cons,Bool.eq_iff_iff.mpr (decide_eq_true_iff.trans
        (filter_matches_iff x.filter q.topic).symm)]
    rw [deliveries_cons,filter_append,map_append,ih hxs,hw]
    by_cases hn : x.number = number
    · rw [not_wanted _ q (hn ▸ hx)]
      by_cases hm : filterMatches x.filter q.topic = true <;> simp [hn,hm]
    · by_cases hm : filterMatches x.filter q.topic = true <;> simp [hn,hm]

theorem deliveries_all {ds : List (Queued Value×List (Subscriber Handler))}
    (h : ∀ d ∈ ds, (numbers d.2).Nodup) :
    ((ds.flatMap deliveries).filter (fun c => c.1.number = number)).map Prod.snd =
      (ds.filter (wanted number)).map (fun d => toEvent d.1) := by
  induction ds with
  | nil => rfl
  | cons d ds ih =>
    rw [flatMap_cons,filter_append,map_append,
      ih (fun d hd => h d (mem_cons_of_mem _ hd)),deliveries_of _ d.1 (h d mem_cons_self)]
    by_cases hw : wanted number d = true <;> simp [hw]

theorem received_awaited (h : Consistent w) :
    received w number++awaited w number =
      (w.seen.taken.filter (wanted number)).map (fun d => toEvent d.1) := by
  rw [← deliveries_all _ h.enrolled.nodupTaken,← h.calls,filter_append,map_append]
  rfl

variable {w}

theorem called_joined (h : Consistent w) : ∀ c ∈ w.seen.calls, c.1 ∈ w.seen.joined := by
  intro c hc
  have hf : c ∈ w.seen.taken.flatMap deliveries := h.calls ▸ mem_append_left _ hc
  obtain ⟨d,hd,hm⟩ := mem_flatMap.mp hf
  obtain ⟨x,hx,rfl⟩ := mem_map.mp hm
  exact h.enrolled.knownTaken d hd x (mem_of_mem_filter hx)

variable (w)

/-! ## The dispatcher on its own -/

def onward (n : ℕ) : List (Step Value Handler) := List.replicate n .advance

def Step.dispatches : Step Value Handler → Bool
  | .dispatch _ => true
  | .advance => true
  | _ => false

theorem onward_dispatches {n : ℕ} :
    ∀ e ∈ (onward n : List (Step Value Handler)), e.dispatches = true := by
  intro e he
  rw [eq_of_mem_replicate he]
  rfl

theorem run_onward_add (m n : ℕ) :
    run busStep bus (onward (m+n)) = run busStep (run busStep bus (onward m)) (onward n) := by
  rw [onward,replicate_add,run_append]
  rfl

theorem calling_onward (handled : ℕ) (q : Queued Value) (xs : List (Subscriber Handler)) :
    run busStep { bus with point := .calling limit handled q xs } (onward (xs.length+1)) =
      { bus with point := .looping limit (handled+1) } := by
  induction xs with
  | nil => rfl
  | cons x xs ih => exact ih

/-- A call of the dispatcher handles as many events as its limit allows. -/
theorem looping_onward (queue : List (Queued Value)) (limit handled : ℕ) :
    ∃ n, run busStep { bus with queue := queue, point := .looping limit handled } (onward n) =
      { bus with queue := queue.drop (limit-handled), point := .idle } := by
  induction queue generalizing handled with
  | nil =>
    refine ⟨1,?_⟩
    by_cases hl : handled < limit <;> simp [onward,run,busStep,advance,hl]
  | cons q queue ih =>
    by_cases hl : handled < limit
    · obtain ⟨n,hn⟩ := ih (handled+1)
      refine ⟨1+((targets bus.subscribers q).length+1)+n,?_⟩
      have ht : run busStep { bus with queue := q::queue, point := .looping limit handled }
          (onward 1) = { bus with
            queue := queue, point := .calling limit handled q (targets bus.subscribers q) } := by
        simp [onward,run,busStep,advance,hl]
      rw [run_onward_add,run_onward_add,ht,
        calling_onward { bus with queue := queue } limit handled q,hn,
        show limit-handled = limit-(handled+1)+1 by omega,drop_succ_cons]
    · refine ⟨1,?_⟩
      simp [onward,run,busStep,advance,hl,Nat.sub_eq_zero_of_le (not_lt.mp hl)]

theorem returns :
    ∃ n queue, run busStep bus (onward n) = { bus with queue := queue, point := .idle } := by
  have hl (limit handled : ℕ) : ∃ n queue, run busStep
      { bus with point := .looping limit handled } (onward n) =
        { bus with queue := queue, point := .idle } := by
    obtain ⟨n,hn⟩ := looping_onward bus _ limit _
    exact ⟨n,_,hn⟩
  cases hp : bus.point with
  | idle => exact ⟨0,bus.queue,by rw [← hp]; rfl⟩
  | looping limit handled =>
    obtain ⟨n,queue,hn⟩ := hl limit handled
    rw [← hp] at hn
    exact ⟨n,queue,hn⟩
  | calling limit handled q xs =>
    obtain ⟨n,queue,hn⟩ := hl limit (handled+1)
    have hc := calling_onward bus limit handled q xs
    rw [← hp] at hc
    exact ⟨xs.length+1+n,queue,by rw [run_onward_add,hc,hn]⟩

theorem drains :
    ∃ es : List (Step Value Handler), (∀ e ∈ es, e.dispatches = true) ∧
      run busStep bus es = { bus with queue := [], point := .idle } := by
  obtain ⟨m,queue,hm⟩ := returns bus
  obtain ⟨n,hn⟩ := looping_onward bus queue queue.length 0
  refine ⟨onward m++.dispatch queue.length::onward n,?_,?_⟩
  · intro e he
    rcases mem_append.mp he with hf | ht
    · exact onward_dispatches e hf
    · rcases mem_cons.mp ht with rfl | hl
      · rfl
      · exact onward_dispatches e hl
  · rw [run_append,hm,run]
    simpa [busStep,dispatch] using hn

theorem run_bus (es : List (Step Value Handler)) : (run step w es).bus = run busStep w.bus es := by
  induction es generalizing w with
  | nil => rfl
  | cons e es ih => exact ih (step w e)

theorem dispatches_accepted {es : List (Step Value Handler)} (h : ∀ e ∈ es, e.dispatches = true) :
    (run step w es).seen.accepted = w.seen.accepted := by
  induction es generalizing w with
  | nil => rfl
  | cons e es ih =>
    have hs : (step w e).seen.accepted = w.seen.accepted := by
      have he := h e mem_cons_self
      cases e with
      | dispatch limit => rfl
      | advance =>
        simp only [step]
        rcases (advance w.bus).2 with _ | output
        · rfl
        · cases output <;> rfl
      | publish q => cases he
      | subscribe filter hdl => cases he
      | unsubscribe id => cases he
    exact (ih (step w e) (fun f hf => h f (mem_cons_of_mem _ hf))).trans hs

variable {w}

theorem sunk_all (h : Consistent w) (hq : w.bus.queue = []) (hi : w.bus.point = .idle) :
    w.seen.sunk = w.seen.accepted.map handed := by
  have hs := h.sunk
  have ht := h.taken
  rw [hi] at hs
  rw [hq,append_nil] at ht
  rw [← ht,map_map]
  simpa [Point.inHand,Function.comp_def] using hs

/-- In every state of a run the sink has been handed what was accepted, without the event
in hand and the queue, and the dispatcher can go on to hand over the rest. Each subscriber
has been called as it asked, or will be, for what was taken out of the queue between its
subscription and its cancellation and matches its filter. -/
theorem events_kept (capacity : ℕ) (steps : List (Step Value Handler)) :
    let w := Runs.run step (start capacity) steps
    w.seen.taken.map Prod.fst++w.bus.queue = w.seen.accepted ∧
    (w.seen.sunk++(w.bus.point.inHand++w.bus.queue).map handed = w.seen.accepted.map handed ∧
      ∃ rest : List (Step Value Handler), (∀ e ∈ rest, e.dispatches = true) ∧
        (Runs.run step w rest).seen.sunk = w.seen.accepted.map handed) ∧
    (∀ number, received w number++awaited w number =
      (w.seen.taken.filter (wanted number)).map (fun d => toEvent d.1)) ∧
    (∀ c ∈ w.seen.calls, c.1 ∈ w.seen.joined) ∧
    w.bus.queue.length ≤ w.bus.capacity ∧
    w.bus.dropped = .ofNat w.seen.refused := by
  intro w
  have h : Consistent w := run_consistent _ steps
  refine ⟨h.taken,⟨?_,?_⟩,fun number => received_awaited w _ h,called_joined h,
    h.bounded,h.dropped⟩
  · rw [map_append,← append_assoc,h.sunk,← h.taken]
    simp
  · obtain ⟨rest,hr,hrn⟩ := drains w.bus
    have ht : Consistent (Runs.run step w rest) := by
      rw [← Runs.run_append]
      exact run_consistent _ _
    have hb := (run_bus w rest).trans hrn
    refine ⟨rest,hr,?_⟩
    rw [sunk_all ht (by rw [hb]) (by rw [hb]), dispatches_accepted w hr]

end EMaster.EventBus
