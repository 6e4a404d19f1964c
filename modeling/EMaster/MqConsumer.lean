import EMaster.MqClient

/-!
# The consumer of the broker client

The service thread reconciles the consumer with what is wanted, once in each pass. It asks the
broker for a consumer or for the end of one, and learns of the outcome from a later reply.
-/

set_option autoImplicit false

namespace EMaster.MqConsumer
open Runs MqClient List

inductive Request where
  | consume
  | cancel (tag : Text)
  deriving DecidableEq, Repr

inductive Reply where
  | consumeOk (tag : Text)
  | cancelOk (tag : Text)
  deriving DecidableEq, Repr

/-- What the client knows of its consumer, what is under way in both directions, and the consumers
that are live at the broker. -/
structure Channel where
  (consumerStarting consumingFlag : Bool)
  consumerTag : Text
  requests : List Request
  live : List Text
  replies : List Reply
  deriving DecidableEq, Repr

def closed : Channel := ⟨false,false,[],[],[],[]⟩

def startConsuming (cfg : MqConfig) (c : Channel) : Channel :=
  if cfg.queue = [] then c
  else { c with consumerStarting := true, requests := c.requests++[.consume] }

def stopConsuming (c : Channel) : Channel :=
  if c.consumerTag = [] then c
  else { c with requests := c.requests++[.cancel c.consumerTag] }

def onReply (paused : Bool) (c : Channel) : Reply → Channel
  | .consumeOk tag =>
    let c := { c with consumerTag := tag, consumerStarting := false, consumingFlag := true }
    -- a pause that came while the consumer was starting
    if paused then stopConsuming c else c
  | .cancelOk _ => { c with consumingFlag := false, consumerTag := [] }

def receive (paused : Bool) (c : Channel) : Channel :=
  match c.replies with
  | [] => c
  | reply::rest => onReply paused { c with replies := rest } reply

/-- The broker answers the oldest request. It names a new consumer by a tag of its own. -/
def answer (tag : Text) (c : Channel) : Channel :=
  match c.requests with
  | [] => c
  | .consume::rest =>
    if tag = [] ∨ tag ∈ c.live then c
    else
      { c with
        requests := rest
        live := c.live++[tag]
        replies := c.replies++[.consumeOk tag] }
  | .cancel old::rest =>
    { c with
      requests := rest
      live := c.live.filter (fun live => live ≠ old)
      replies := c.replies++[.cancelOk old] }

def reconcile (cfg : MqConfig) (paused : Bool) (c : Channel) : Channel :=
  if paused = false ∧ c.consumingFlag = false ∧ c.consumerStarting = false then
    startConsuming cfg c
  else if paused = true ∧ c.consumingFlag = true then stopConsuming c
  else c

/-- Where the service thread is: at the top of its loop, with the settings read, or in a pass that
still reads what the broker sent. -/
inductive Phase where
  | top
  | loaded
  | receiving
  deriving DecidableEq, Repr

structure Link where
  (config cfg : MqConfig)
  phase : Phase
  (connected reconfigured pauseRequested ready channelPrepared : Bool)
  channel : Channel
  deriving DecidableEq, Repr

def endpointChanged (old config : MqConfig) : Bool :=
  old.host ≠ config.host || old.port ≠ config.port || old.vhost ≠ config.vhost ||
    old.user ≠ config.user || old.password ≠ config.password ||
    old.exchange ≠ config.exchange || old.exchangeType ≠ config.exchangeType ||
    old.queue ≠ config.queue || old.routingKey ≠ config.routingKey ||
    old.declareTopology ≠ config.declareTopology || old.prefetch ≠ config.prefetch ||
    old.heartbeatSec ≠ config.heartbeatSec || old.enabled ≠ config.enabled

def configure (s : Link) (config : MqConfig) : Link :=
  { s with
    config := config
    reconfigured := s.reconfigured || endpointChanged s.config config }

def teardown (s : Link) : Link :=
  { s with
    phase := .top
    connected := false
    ready := false
    channelPrepared := false
    channel := closed }

def dial (s : Link) (established : Bool) : Link :=
  if s.cfg.enabled = false then teardown s
  else if s.reconfigured = true ∧ s.connected = true then
    teardown { s with reconfigured := false }
  else if s.connected = true then { s with reconfigured := false, phase := .receiving }
  else if established = false then teardown { s with reconfigured := false }
  else
    { s with
      reconfigured := false
      phase := .receiving
      connected := true
      ready := false
      channelPrepared := false
      channel := { s.channel with consumerStarting := false, consumerTag := [] } }

def service (s : Link) : Link :=
  let prepared := s.channelPrepared || s.ready
  if s.ready = true ∧ prepared = true ∧ s.cfg.consume = true then
    { s with
      phase := .top
      channelPrepared := prepared
      channel := reconcile s.cfg s.pauseRequested s.channel }
  else { s with phase := .top, channelPrepared := prepared }

inductive Event where
  | pause (paused : Bool)
  | configure (config : MqConfig)
  -- the broker
  | answer (tag : Text)
  -- the service thread
  | load
  | dial (established : Bool)
  | handshake
  | receive
  | service
  | teardown
  deriving DecidableEq, Repr

def step (s : Link) : Event → Link
  | .pause paused => { s with pauseRequested := paused }
  | .configure config => configure s config
  | .answer tag => { s with channel := answer tag s.channel }
  | .load => if s.phase = .top then { s with phase := .loaded, cfg := s.config } else s
  | .dial established => if s.phase = .loaded then dial s established else s
  | .handshake => if s.phase = .receiving then { s with ready := true } else s
  | .receive =>
    if s.phase = .receiving then { s with channel := receive s.pauseRequested s.channel } else s
  | .service => if s.phase = .receiving then service s else s
  | .teardown => teardown s

def start (config : MqConfig) : Link := ⟨config,config,.top,false,false,false,false,false,closed⟩

def consumers (c : Channel) : ℕ := c.live.length+c.requests.count .consume

def Unwanted (s : Link) : Prop :=
  s.phase = .receiving ∧ (s.pauseRequested = true ∨ s.cfg.consume = false)

/-- The broker will have no consumer once it has answered what is under way. -/
def Stopping (c : Channel) : Prop :=
  Request.consume ∉ c.requests ∧ ∀ tag ∈ c.live, Request.cancel tag ∈ c.requests

/-- What a pass that wants no consumer must find: none that is only asked for, and with `consume`
switched off none at all but those that are being cancelled. -/
def Settled (s : Link) : Event → Prop
  | .service => Unwanted s → s.channel.consumerStarting = false ∧
      (s.cfg.consume = true ∨ ∀ tag ∈ s.channel.live, Request.cancel tag ∈ s.channel.requests)
  | _ => True

def NoConsume (requests : List Request) : Prop := Request.consume ∉ requests

def NoConsumeOk (replies : List Reply) : Prop := ∀ reply ∈ replies, ∃ tag, reply = .cancelOk tag

/-- The life of a consumer. Cancels for an earlier consumer may still be under way. -/
inductive Sound : Channel → Prop where
  | idle (requests : List Request) (replies : List Reply) (hrequests : NoConsume requests)
      (hreplies : NoConsumeOk replies) : Sound ⟨false,false,[],requests,[],replies⟩
  | requested (cancels : List Request) (replies : List Reply) (hrequests : NoConsume cancels)
      (hreplies : NoConsumeOk replies) : Sound ⟨true,false,[],cancels++[.consume],[],replies⟩
  | answered (tag : Text) (replies : List Reply) (htag : tag ≠ [])
      (hreplies : NoConsumeOk replies) :
      Sound ⟨true,false,[],[],[tag],replies++[.consumeOk tag]⟩
  | consuming (tag : Text) (requests : List Request) (htag : tag ≠ [])
      (hrequests : ∀ request ∈ requests, request = .cancel tag) :
      Sound ⟨false,true,tag,requests,[tag],[]⟩
  | cancelled (tag : Text) (requests : List Request) (replies : List Reply) (htag : tag ≠ [])
      (hrequests : NoConsume requests) (hreplies : NoConsumeOk replies)
      (hreply : replies ≠ []) : Sound ⟨false,true,tag,requests,[],replies⟩

variable (tag : Text)

theorem no_consume_snoc {reqs : List Request} (h : NoConsume reqs) :
    NoConsume (reqs++[.cancel tag]) := by
  simpa [NoConsume] using h

theorem no_consume_ok_snoc {replies : List Reply} (h : NoConsumeOk replies) :
    NoConsumeOk (replies++[.cancelOk tag]) := by
  intro reply hr
  rcases mem_append.mp hr with hold | hn
  · exact h reply hold
  · exact ⟨tag,mem_singleton.mp hn⟩

variable {requests : List Request}

theorem no_consume_tail {req : Request} (h : NoConsume (req::requests)) :
    (∃ tag, req = .cancel tag) ∧ NoConsume requests := by
  cases req with
  | consume => exact absurd mem_cons_self h
  | cancel tag => exact ⟨⟨tag,rfl⟩,fun hm => h (mem_cons_of_mem _ hm)⟩

theorem no_consume_of_cancels {tag : Text} (h : ∀ request ∈ requests, request = .cancel tag) : NoConsume requests :=
  fun hm => Request.noConfusion (h .consume hm)

variable {c : Channel}

theorem sound_answer (h : Sound c) : Sound (answer tag c) := by
  cases h with
  | idle requests replies hr hrp =>
    cases requests with
    | nil => exact .idle [] _ hr hrp
    | cons req requests =>
      obtain ⟨⟨old,rfl⟩,ht⟩ := no_consume_tail hr
      exact .idle requests _ ht (no_consume_ok_snoc old hrp)
  | requested cancels replies hr hrp =>
    cases cancels with
    | nil =>
      show Sound (if tag = [] ∨ tag ∈ [] then _ else _)
      split_ifs with htg
      · exact .requested [] _ hr hrp
      · exact .answered tag _ (fun he => htg (.inl he)) hrp
    | cons req cancels =>
      obtain ⟨⟨old,rfl⟩,ht⟩ := no_consume_tail hr
      exact .requested cancels _ ht (no_consume_ok_snoc old hrp)
  | answered live replies htg hrp => exact .answered live _ htg hrp
  | consuming live requests htg hr =>
    cases requests with
    | nil => exact .consuming live [] htg hr
    | cons req requests =>
      obtain rfl := hr req mem_cons_self
      have ht := no_consume_of_cancels fun o ho => hr o (mem_cons_of_mem _ ho)
      have hn : [live].filter (fun o => o ≠ live) = [] := by simp
      show Sound ⟨false,true,live,requests,[live].filter (fun o => o ≠ live),_⟩
      rw [hn]
      exact .cancelled live _ _ htg ht
        (no_consume_ok_snoc live (by simp [NoConsumeOk])) (by simp)
  | cancelled live requests replies htg hr hrp hre =>
    cases requests with
    | nil => exact .cancelled live [] replies htg hr hrp hre
    | cons req requests =>
      obtain ⟨⟨old,rfl⟩,ht⟩ := no_consume_tail hr
      exact .cancelled live _ _ htg ht (no_consume_ok_snoc old hrp) (by simp)

theorem sound_receive (paused : Bool) (h : Sound c) : Sound (receive paused c) := by
  cases h with
  | idle reqs replies hrq hr =>
    cases replies with
    | nil => exact .idle reqs [] hrq hr
    | cons reply replies =>
      obtain ⟨tag,rfl⟩ := hr reply mem_cons_self
      exact .idle reqs _ hrq fun o ho => hr o (mem_cons_of_mem _ ho)
  | requested cancels replies hrq hr =>
    cases replies with
    | nil => exact .requested cancels [] hrq hr
    | cons reply replies =>
      obtain ⟨tag,rfl⟩ := hr reply mem_cons_self
      exact .requested cancels _ hrq fun o ho => hr o (mem_cons_of_mem _ ho)
  | answered live replies ht hr =>
    cases replies with
    | nil =>
      cases paused with
      | false => exact .consuming live [] ht (by simp)
      | true =>
        show Sound (if live = [] then _ else _)
        rw [if_neg ht]
        exact .consuming live _ ht (by simp)
    | cons reply replies =>
      obtain ⟨tag,rfl⟩ := hr reply mem_cons_self
      exact .answered live _ ht fun o ho => hr o (mem_cons_of_mem _ ho)
  | consuming live reqs ht hrq => exact .consuming live reqs ht hrq
  | cancelled live reqs replies ht hrq hr hrp =>
    cases replies with
    | nil => exact absurd rfl hrp
    | cons reply replies =>
      obtain ⟨tag,rfl⟩ := hr reply mem_cons_self
      exact .idle reqs _ hrq fun o ho => hr o (mem_cons_of_mem _ ho)

variable (cfg : MqConfig)

theorem sound_reconcile (paused : Bool) (c : Channel) (h : Sound c) :
    Sound (reconcile cfg paused c) := by
  cases h with
  | idle reqs replies hr hrp =>
    cases paused with
    | false =>
      show Sound (if cfg.queue = [] then _ else _)
      split_ifs
      · exact .idle reqs _ hr hrp
      · exact .requested reqs _ hr hrp
    | true => exact .idle reqs _ hr hrp
  | requested cancels replies hr hrp =>
    cases paused <;> exact .requested cancels _ hr hrp
  | answered live replies ht hrp =>
    cases paused <;> exact .answered live _ ht hrp
  | consuming live reqs ht hr =>
    cases paused with
    | false => exact .consuming live reqs ht hr
    | true =>
      show Sound (if live = [] then _ else _)
      rw [if_neg ht]
      refine .consuming live _ ht fun req hrq => ?_
      rcases mem_append.mp hrq with hold | hn
      · exact hr req hold
      · exact mem_singleton.mp hn
  | cancelled live reqs replies ht hr hrp hre =>
    cases paused with
    | false => exact .cancelled live reqs replies ht hr hrp hre
    | true =>
      show Sound (if live = [] then _ else _)
      rw [if_neg ht]
      exact .cancelled live _ replies ht (no_consume_snoc live hr) hrp hre

theorem sound_closed : Sound closed := .idle [] [] (by simp [NoConsume]) (by simp [NoConsumeOk])

/-- Nothing is sent before the channel is prepared. -/
structure Linked (s : Link) : Prop where
  sound : Sound s.channel
  prepared : s.connected = true ∧ s.ready = true ∧ s.channelPrepared = true ∨ s.channel = closed
  receiving : s.phase = .receiving → s.connected = true

theorem linked_teardown (s : Link) : Linked (teardown s) :=
  ⟨sound_closed,.inr rfl,fun hp => Phase.noConfusion hp⟩

variable {s : Link}

theorem linked_dial (established : Bool) (h : Linked s) : Linked (dial s established) := by
  rw [dial]
  split_ifs with _ _ hc _
  · exact linked_teardown s
  · exact linked_teardown _
  · exact ⟨h.sound,h.prepared,fun _ => hc⟩
  · exact linked_teardown _
  · have hcl : s.channel = closed := h.prepared.resolve_left fun ho => hc ho.1
    have hf : { s.channel with consumerStarting := false, consumerTag := [] } = closed := by
      rw [hcl]
      rfl
    exact ⟨hf ▸ sound_closed,.inr hf,fun _ => rfl⟩

theorem linked_service (h : Linked s) (hp : s.phase = .receiving) : Linked (service s) := by
  rw [service]
  have hc := h.receiving hp
  split_ifs with ho
  · exact ⟨sound_reconcile s.cfg s.pauseRequested s.channel h.sound,
      .inl ⟨hc,ho.1,ho.2.1⟩,fun _ => hc⟩
  · refine ⟨h.sound,h.prepared.imp_left fun hr => ⟨hc,hr.2.1,?_⟩, fun _ => hc⟩
    simp [hr.2.1]

theorem linked_step (e : Event) (h : Linked s) : Linked (step s e) := by
  cases e with
  | pause paused => exact ⟨h.sound,h.prepared,h.receiving⟩
  | configure cfg => exact ⟨h.sound,h.prepared,h.receiving⟩
  | answer tag =>
    refine ⟨sound_answer tag h.sound,h.prepared.imp_right fun hc => ?_,h.receiving⟩
    show answer tag s.channel = closed
    rw [hc]
    rfl
  | load =>
    rw [step]
    split_ifs
    · exact ⟨h.sound,h.prepared,fun hp => Phase.noConfusion hp⟩
    · exact h
  | dial established =>
    rw [step]
    split_ifs
    · exact linked_dial _ h
    · exact h
  | handshake =>
    rw [step]
    split_ifs
    · exact ⟨h.sound,h.prepared.imp_left fun ho => ⟨ho.1,rfl,ho.2.2⟩,h.receiving⟩
    · exact h
  | receive =>
    rw [step]
    split_ifs
    · refine ⟨sound_receive _ h.sound,h.prepared.imp_right fun hc => ?_,h.receiving⟩
      show receive s.pauseRequested s.channel = closed
      rw [hc]
      rfl
    · exact h
  | service =>
    rw [step]
    split_ifs with hp
    · exact linked_service h hp
    · exact h
  | teardown => exact linked_teardown s

theorem linked_run (events : List Event) : Linked (run step (start cfg) events) :=
  run_invariant step (fun _ _ => True) Linked (fun _ e h _ => linked_step e h) (start cfg)
    events ⟨sound_closed,.inr rfl,fun hp => Phase.noConfusion hp⟩
    (meets_of_forall step _ _ events fun _ _ _ => trivial)

theorem consumers_le_one (h : Sound c) : consumers c ≤ 1 := by
  rw [consumers]
  cases h with
  | idle reqs replies hr hrp =>
    rw [count_eq_zero_of_not_mem hr]
    exact Nat.zero_le 1
  | requested cancels replies hr hrp =>
    rw [count_append,count_eq_zero_of_not_mem hr]
    exact le_rfl
  | answered tag replies ht hrp => exact le_rfl
  | consuming tag reqs ht hr =>
    rw [count_eq_zero_of_not_mem (no_consume_of_cancels hr)]
    exact le_rfl
  | cancelled tag reqs replies ht hr hrp hre =>
    rw [count_eq_zero_of_not_mem hr]
    exact Nat.zero_le 1

/-- A consumer that was asked for and is not known yet cannot be cancelled; any other one is being
cancelled as soon as it is not live or a cancel for it is under way. -/
theorem stopping_iff (h : Sound c) :
    Stopping c ↔ c.consumerStarting = false ∧ ∀ tag ∈ c.live, Request.cancel tag ∈ c.requests := by
  rw [Stopping]
  cases h with
  | idle requests replies hr hrp => simpa [NoConsume] using hr
  | requested cancels replies hr hrp => simp
  | answered tag replies ht hrp => simp
  | consuming tag requests ht hr =>
    have hn : Request.consume ∉ requests := no_consume_of_cancels hr
    simp [hn]
  | cancelled tag requests replies ht hr hrp hre =>
    simpa [NoConsume] using hr

theorem reconcile_paused (h : Sound c) :
    Stopping (reconcile cfg true c) ↔ c.consumerStarting = false := by
  rw [stopping_iff (sound_reconcile cfg true c h)]
  cases h with
  | consuming tag requests ht hr =>
    have hs : reconcile cfg true ⟨false,true,tag,requests,[tag],[]⟩ =
        ⟨false,true,tag,requests++[.cancel tag],[tag],[]⟩ := if_neg ht
    rw [hs]
    simp
  | cancelled tag requests replies ht hr hrp hre =>
    have hs : reconcile cfg true ⟨false,true,tag,requests,[],replies⟩ =
        ⟨false,true,tag,requests++[.cancel tag],[],replies⟩ := if_neg ht
    rw [hs]
    simp
  | _ => simp [reconcile]

theorem service_stopping_iff (h : Linked s) (hu : Unwanted s) :
    Stopping (step s .service).channel ↔ Settled s .service := by
  have hst : step s .service = service s := if_pos hu.1
  have hs : Settled s .service ↔ s.channel.consumerStarting = false ∧
      (s.cfg.consume = true ∨ ∀ tag ∈ s.channel.live, Request.cancel tag ∈ s.channel.requests) :=
    ⟨fun ha => ha hu,fun ha _ => ha⟩
  rw [hst,hs,service]
  by_cases hc : s.cfg.consume = true
  · have hp : s.pauseRequested = true := hu.2.resolve_right (by simp [hc])
    have hl : s.channel.consumerStarting = false ∧ (s.cfg.consume = true ∨
        ∀ tag ∈ s.channel.live, Request.cancel tag ∈ s.channel.requests) ↔
          s.channel.consumerStarting = false := and_iff_left (.inl hc)
    rw [hl]
    split_ifs with ho
    · dsimp only
      rw [hp]
      exact reconcile_paused s.cfg h.sound
    · have hcl : s.channel = closed := h.prepared.resolve_left fun hr =>
        ho ⟨hr.2.1,by simp [hr.2.1],hc⟩
      dsimp only
      rw [hcl]
      simp [Stopping,closed]
  · rw [if_neg fun ho => hc ho.2.2]
    dsimp only
    rw [stopping_iff h.sound,or_iff_right hc]

/-- Over every interleaving there is never more than one consumer; and every pass that wants none
leaves none but one that is being cancelled, just when such a pass never finds a consumer that is
only asked for or, with `consume` switched off, one that nobody cancels. -/
theorem consumer_stops_iff (config : MqConfig) (events : List Event) :
    (∀ past rest, events = past++rest →
        consumers (run step (start config) past).channel ≤ 1) ∧
      ((∀ past rest, events = past++.service::rest →
          Unwanted (run step (start config) past) →
          Stopping (run step (start config) (past++[.service])).channel) ↔
        Meets step Settled (start config) events) := by
  refine ⟨fun past _ _ => consumers_le_one (linked_run config past).sound,?_⟩
  rw [meets_iff_forall]
  have hl : ∀ past, run step (start config) (past++[.service]) =
      step (run step (start config) past) .service := fun past => run_append step _ past _
  constructor
  · intro ha past e rest he
    cases e with
    | service =>
      intro hu
      have hs := ha past rest he hu
      rw [hl] at hs
      exact (service_stopping_iff (linked_run config past) hu).mp hs hu
    | _ => trivial
  · intro ha past rest he hu
    rw [hl]
    exact (service_stopping_iff (linked_run config past) hu).mpr (ha past .service rest he)

/-! ## A consumer that outlives its setting -/

def publishOnly : MqConfig := { smallQueue with consume := false }

def switchedOff : List Event :=
  [.load,.dial true,.handshake,.service,.answer "amq.ctag".toList,.load,.dial true,.receive,
    .service,.configure publishOnly,.load,.dial true]

/-- The setting is switched off, the next pass reads it, and the consumer stays. -/
theorem switched_off_keeps_consumer :
    ¬∀ past rest, switchedOff++[.service] = past++.service::rest →
      Unwanted (run step (start smallQueue) past) →
      Stopping (run step (start smallQueue) (past++[.service])).channel := by
  intro h
  have hs := h switchedOff [] rfl ⟨by decide,by decide⟩
  have hc : Request.cancel "amq.ctag".toList ∈
      (run step (start smallQueue) (switchedOff++[.service])).channel.requests :=
    hs.2 _ (by decide)
  exact absurd hc (by decide)

end EMaster.MqConsumer
