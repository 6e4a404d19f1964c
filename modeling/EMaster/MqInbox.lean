import EMaster.Json
import EMaster.MqClient

/-!
# Messages from the broker

Every delivery is rejected, or put into a bounded inbox and acknowledged. A full inbox loses its
oldest messages. `get` takes the oldest one out.
-/

set_option autoImplicit false

namespace EMaster.MqInbox
open Runs MqClient List

structure MqMessage where
  (body raw id timestamp : Text)
  version : ℤ
  (exchange routingKey : Text)
  redelivered : Bool
  deliveryTag : ℕ
  deriving DecidableEq, Repr

structure Delivery where
  (body exchange routingKey : Text)
  tag : ℕ
  redelivered : Bool
  deriving DecidableEq, Repr

def kMaxBodyBytes : ℕ := 8*1024*1024

/-- The library's parser and the test of a time stamp. -/
structure EnvelopeCodec where
  json : Json.Codec
  looksLikeUtcIsoMs : Text → Bool

def versionOf (j : Json) : Option ℤ :=
  match j.field "v" with
  | some (.int n) => some (Int.bmod n (2^32))
  | _ => none

/-- The envelope's own fields, written into the message. -/
def decodeEnvelope (codec : EnvelopeCodec) (payload : Text) (out : MqMessage) :
    Except Text MqMessage :=
  match codec.json.parse payload with
  | .error what => .error ("not JSON: "++what)
  | .ok doc =>
    if doc.isObject = false then .error "not a JSON object"
    else
      match (doc.field "id").bind Json.asText with
      | none => .error "missing or empty \"id\""
      | some [] => .error "missing or empty \"id\""
      | some id =>
        match ((doc.field "ts").bind Json.asText).filter codec.looksLikeUtcIsoMs with
        | none => .error "\"ts\" is not an ISO-8601 UTC timestamp with milliseconds"
        | some timestamp =>
          if versionOf doc ≠ some 1 then .error "\"v\" is not 1"
          else
            match (doc.field "body").bind Json.asText with
            | none => .error "\"body\" is not a string"
            | some body =>
              .ok { out with id := id, timestamp := timestamp, version := 1, body := body }

inductive Settlement where
  | ack
  | reject
  deriving DecidableEq, Repr

inductive Fate where
  | waiting
  | taken
  | dropped
  deriving DecidableEq, Repr

/-- The inbox with its counters, what was answered to the broker, and the fate of every message
that was accepted, in the order of arrival. -/
structure Inbox where
  inbox : List MqMessage
  (receivedCount rejectedCount overflowedCount : ℕ)
  settled : List (ℕ×Settlement)
  history : List (MqMessage×Fate)
  deriving DecidableEq, Repr

def mark (fate : Fate) : List (MqMessage×Fate) → List (MqMessage×Fate)
  | [] => []
  | (message,.waiting)::rest => (message,fate)::rest
  | entry::rest => entry::mark fate rest

def makeRoom (limit : ℕ) (s : Inbox) : List MqMessage → Inbox
  | [] => { s with inbox := [] }
  | message::rest =>
    if limit ≤ (message::rest).length then
      makeRoom limit
        { s with
          overflowedCount := s.overflowedCount+1
          history := mark .dropped s.history } rest
    else { s with inbox := message::rest }

def reject (s : Inbox) (d : Delivery) : Inbox :=
  { s with
    settled := s.settled++[(d.tag,.reject)]
    rejectedCount := s.rejectedCount+1 }

def accept (limit : ℕ) (s : Inbox) (message : MqMessage) : Inbox :=
  let room := makeRoom limit s s.inbox
  { room with
    inbox := room.inbox++[message]
    history := room.history++[(message,.waiting)]
    settled := room.settled++[(message.deliveryTag,.ack)] }

def onDelivery (codec : EnvelopeCodec) (envelope : Bool) (inboxLimit : ℤ) (s : Inbox)
    (d : Delivery) : Inbox :=
  let s := { s with receivedCount := s.receivedCount+1 }
  if kMaxBodyBytes < d.body.length then reject s d
  else
    let received : MqMessage := ⟨[],d.body,[],[],0,d.exchange,d.routingKey,d.redelivered,d.tag⟩
    if envelope then
      match decodeEnvelope codec received.raw received with
      | .error _ => reject s d
      | .ok message => accept (limitOf inboxLimit) s message
    else accept (limitOf inboxLimit) s { received with body := received.raw }

def get (s : Inbox) : Inbox×Option MqMessage :=
  match s.inbox with
  | [] => (s,none)
  | message::rest =>
    ({ s with inbox := rest,history := mark .taken s.history },some message)

inductive Event where
  | delivery (envelope : Bool) (d : Delivery)
  | get

def step (codec : EnvelopeCodec) (inboxLimit : ℤ) (s : Inbox) : Event → Inbox
  | .delivery envelope d => onDelivery codec envelope inboxLimit s d
  | .get => (get s).1

def empty : Inbox := ⟨[],0,0,0,[],[]⟩

def deliveriesOf (events : List Event) : List (Bool×Delivery) :=
  events.filterMap fun e =>
    match e with
    | .delivery envelope d => some (envelope,d)
    | .get => none

/-- The message that a delivery carries, if it is one that can be accepted. -/
def messageOf (codec : EnvelopeCodec) : Bool×Delivery → Option MqMessage
  | (envelope,d) =>
    if kMaxBodyBytes < d.body.length then none
    else if envelope then
      (decodeEnvelope codec d.body
        ⟨[],d.body,[],[],0,d.exchange,d.routingKey,d.redelivered,d.tag⟩).toOption
    else some ⟨d.body,d.body,[],[],0,d.exchange,d.routingKey,d.redelivered,d.tag⟩

def answerTo (codec : EnvelopeCodec) (d : Bool×Delivery) : ℕ×Settlement :=
  (d.2.tag,if (messageOf codec d).isSome then .ack else .reject)

structure Accounted (codec : EnvelopeCodec) (limit : ℕ) (deliveries : List (Bool×Delivery))
    (s : Inbox) : Prop where
  -- each delivery is answered once
  settled : s.settled = deliveries.map (answerTo codec)
  rejected : s.settled.countP (fun entry => entry.2 = .reject) = s.rejectedCount
  -- what was accepted are the messages that were acknowledged
  accepted : s.history.map Prod.fst = deliveries.filterMap (messageOf codec)
  -- the inbox has the messages that wait, and nothing that came later is gone
  recent : ∃ gone, s.history = gone++s.inbox.map (fun message => (message,Fate.waiting)) ∧
    ∀ entry ∈ gone, entry.2 ≠ .waiting
  bounded : s.inbox.length ≤ limit
  received : s.receivedCount = s.rejectedCount+s.history.length
  overflowed : s.overflowedCount = s.history.countP (fun entry => entry.2 = .dropped)

theorem mark_messages (fate : Fate) (history : List (MqMessage×Fate)) :
    (mark fate history).map Prod.fst = history.map Prod.fst := by
  induction history with
  | nil => rfl
  | cons en history ih =>
    obtain ⟨msg,standing⟩ := en
    cases standing with
    | waiting => rfl
    | taken => exact congrArg (cons msg) ih
    | dropped => exact congrArg (cons msg) ih

theorem mark_waiting (fate : Fate) {gone : List (MqMessage×Fate)} (rest : List (MqMessage×Fate)) (msg : MqMessage)
    (h : ∀ entry ∈ gone, entry.2 ≠ .waiting) :
    mark fate (gone++(msg,.waiting)::rest) = gone++(msg,fate)::rest := by
  induction gone with
  | nil => rfl
  | cons entry gone ih =>
    obtain ⟨first,standing⟩ := entry
    have hg : standing ≠ .waiting := h (first,standing) mem_cons_self
    have hr := ih fun o ho => h o (mem_cons_of_mem _ ho)
    cases standing with
    | waiting => exact absurd rfl hg
    | taken => exact congrArg (cons _) hr
    | dropped => exact congrArg (cons _) hr

/-- What making room leaves: messages from the end of the inbox, all others counted as dropped. -/
structure Emptied (limit : ℕ) (before : Inbox) (messages : List MqMessage) (after : Inbox) :
    Prop where
  settled : after.settled = before.settled
  received : after.receivedCount = before.receivedCount
  rejected : after.rejectedCount = before.rejectedCount
  room : after.inbox.length < limit
  same : after.history.map Prod.fst = before.history.map Prod.fst
  history : ∀ gone, before.history = gone++messages.map (fun message => (message,Fate.waiting)) →
    (∀ entry ∈ gone, entry.2 ≠ .waiting) →
    ∃ gone', after.history = gone'++after.inbox.map (fun message => (message,Fate.waiting)) ∧
      (∀ entry ∈ gone', entry.2 ≠ .waiting) ∧
      after.overflowedCount+before.history.countP (fun entry => entry.2 = .dropped) =
        before.overflowedCount+after.history.countP (fun entry => entry.2 = .dropped)

variable (limit : ℕ) (codec : EnvelopeCodec)

variable {limit}

theorem make_room_emptied (s : Inbox) (msgs : List MqMessage) (hl : 0 < limit) :
    Emptied limit s msgs (makeRoom limit s msgs) := by
  induction msgs generalizing s with
  | nil => exact ⟨rfl,rfl,rfl,hl,rfl,fun gone hh hg => ⟨gone,hh,hg,rfl⟩⟩
  | cons msg rest ih =>
    rw [makeRoom]
    by_cases hf : limit ≤ (msg::rest).length
    · rw [if_pos hf]
      obtain ⟨hs,hr,hrj,hrm,hms,hh⟩ := ih
        { s with
          overflowedCount := s.overflowedCount+1
          history := mark .dropped s.history }
      refine ⟨hs,hr,hrj,hrm,hms.trans (mark_messages .dropped s.history),fun gone hb hg => ?_⟩
      have hm : mark .dropped s.history =
          gone++(msg,.dropped)::rest.map (fun msg => (msg,Fate.waiting)) := by
        rw [hb,map_cons]
        exact mark_waiting .dropped _ msg hg
      obtain ⟨gone',ha,hgn,hc⟩ := hh (gone++[(msg,.dropped)])
        (by simpa using hm) (by
          intro en he
          rcases mem_append.mp he with hold | hn
          · exact hg en hold
          · rw [mem_singleton.mp hn]
            exact Fate.noConfusion)
      have hmr : (mark .dropped s.history).countP (fun en => en.2 = .dropped) =
          s.history.countP (fun en => en.2 = .dropped)+1 := by
        rw [hm,hb]
        simp [Nat.add_assoc]
      refine ⟨gone',ha,hgn,?_⟩
      dsimp only at hc
      rw [hmr] at hc
      omega
    · rw [if_neg hf]
      exact ⟨rfl,rfl,rfl,not_le.mp hf,rfl, fun gone hh hg => ⟨gone,hh,hg,rfl⟩⟩

theorem limit_positive (setting : ℤ) : 0 < limitOf setting := by
  rw [limitOf]
  split_ifs <;> omega

variable {codec} {ds : List (Bool×Delivery)} {s : Inbox} {d : Bool×Delivery}

theorem accounted_reject (hd : messageOf codec d = none) (h : Accounted codec limit ds s) :
    Accounted codec limit (ds++[d]) (reject { s with receivedCount := s.receivedCount+1 } d.2) := by
  refine ⟨?_,?_,?_,h.recent,h.bounded,?_,h.overflowed⟩
  · show s.settled++[(d.2.tag,Settlement.reject)] = _
    rw [map_append,← h.settled,map_singleton,answerTo,hd]
    rfl
  · show (s.settled++[(d.2.tag,Settlement.reject)]).countP _ = s.rejectedCount+1
    rw [countP_append,h.rejected]
    rfl
  · show s.history.map Prod.fst = _
    rw [filterMap_append,← h.accepted,filterMap_cons,hd]
    exact (append_nil _).symm
  · show s.receivedCount+1 = s.rejectedCount+1+s.history.length
    have := h.received
    omega

variable {msg : MqMessage}

theorem accounted_accept (hlm : 0 < limit) (hd : messageOf codec d = some msg)
    (ht : msg.deliveryTag = d.2.tag) (h : Accounted codec limit ds s) :
    Accounted codec limit (ds++[d])
      (accept limit { s with receivedCount := s.receivedCount+1 } msg) := by
  obtain ⟨hs,hrc,hr,hrm,hm,hh⟩ := make_room_emptied
    { s with receivedCount := s.receivedCount+1 } s.inbox hlm
  obtain ⟨gone,hb,hgn⟩ := h.recent
  obtain ⟨gone',ha,hg,hc⟩ := hh gone hb hgn
  rw [accept,ht]
  generalize makeRoom limit { s with receivedCount := s.receivedCount+1 } s.inbox = room at *
  dsimp only at hs hrc hr hm hc ⊢
  refine ⟨?_,?_,?_,⟨gone',?_,hg⟩,?_,?_,?_⟩
  · dsimp only
    rw [hs,map_append,← h.settled,map_singleton,answerTo,hd]
    rfl
  · dsimp only
    rw [hs,hr,countP_append,h.rejected]
    rfl
  · dsimp only
    rw [map_append,hm,h.accepted,filterMap_append,filterMap_cons,hd]
    rfl
  · dsimp only
    rw [ha,map_append,append_assoc]
    rfl
  · dsimp only
    rw [length_append,length_singleton]
    omega
  · dsimp only
    have hl := congrArg length hm
    rw [length_map,length_map] at hl
    have := h.received
    rw [hrc,hr,length_append,hl,length_singleton]
    omega
  · dsimp only
    rw [countP_append]
    have ho := h.overflowed
    have hn : [(msg,Fate.waiting)].countP (fun en => en.2 = .dropped) = 0 := rfl
    omega

theorem accounted_get (h : Accounted codec limit ds s) : Accounted codec limit ds (get s).1 := by
  rw [get]
  cases hi : s.inbox with
  | nil => exact h
  | cons msg rest =>
    obtain ⟨gone,hh,hg⟩ := h.recent
    rw [hi,map_cons] at hh
    have hm : mark .taken s.history =
        gone++(msg,.taken)::rest.map (fun msg => (msg,Fate.waiting)) := by
      rw [hh]
      exact mark_waiting .taken _ msg hg
    have hb := h.bounded
    rw [hi,length_cons] at hb
    refine ⟨h.settled,h.rejected,
      (mark_messages .taken s.history).trans h.accepted,
      ⟨gone++[(msg,.taken)],?_,?_⟩,?_,?_,?_⟩
    · show mark .taken s.history = _
      rw [hm]
      simp
    · intro en he
      rcases mem_append.mp he with hold | hn
      · exact hg en hold
      · rw [mem_singleton.mp hn]
        exact Fate.noConfusion
    · show rest.length ≤ limit
      omega
    · show s.receivedCount = s.rejectedCount+(mark .taken s.history).length
      rw [h.received,hm,hh]
      simp
    · show s.overflowedCount = (mark .taken s.history).countP _
      rw [h.overflowed,hm,hh]
      simp [countP_append]

theorem decode_tag {payload : Text} {out : MqMessage}
    (h : decodeEnvelope codec payload out = .ok msg) : msg.deliveryTag = out.deliveryTag := by
  rw [decodeEnvelope] at h
  -- the tag is not one of the fields an envelope writes
  repeat' split at h
  all_goals cases h
  rfl

theorem accounted_delivery (envelope : Bool) {cap : ℤ} (d : Delivery)
    (h : Accounted codec (limitOf cap) ds s) :
    Accounted codec (limitOf cap) (ds++[(envelope,d)]) (onDelivery codec envelope cap s d) := by
  have hl := limit_positive cap
  rw [onDelivery]
  dsimp only
  by_cases hlr : kMaxBodyBytes < d.body.length
  · rw [if_pos hlr]
    exact accounted_reject (d := (envelope,d)) (if_pos hlr) h
  · rw [if_neg hlr]
    cases envelope with
    | false => exact accounted_accept (d := (false,d)) hl (if_neg hlr) rfl h
    | true =>
      rw [if_pos rfl]
      cases hd : decodeEnvelope codec d.body
          ⟨[],d.body,[],[],0,d.exchange,d.routingKey,d.redelivered,d.tag⟩ with
      | error what =>
        refine accounted_reject (d := (true,d)) ?_ h
        simp [messageOf,hlr,hd,Except.toOption]
      | ok msg =>
        refine accounted_accept (d := (true,d)) hl ?_ (decode_tag hd) h
        simp [messageOf,hlr,hd,Except.toOption]

theorem step_accounted (cap : ℤ) (e : Event) (h : Accounted codec (limitOf cap) ds s) :
    Accounted codec (limitOf cap) (ds++deliveriesOf [e]) (step codec cap s e) := by
  cases e with
  | delivery envelope d => exact accounted_delivery envelope d h
  | get =>
    rw [show deliveriesOf [.get] = [] from rfl,append_nil]
    exact accounted_get h

theorem run_accounted (cap : ℤ) (events : List Event) (ds : List (Bool×Delivery)) (s : Inbox)
    (h : Accounted codec (limitOf cap) ds s) :
    Accounted codec (limitOf cap) (ds++deliveriesOf events) (run (step codec cap) s events) := by
  induction events generalizing ds s with
  | nil =>
    rw [show deliveriesOf [] = [] from rfl,append_nil]
    exact h
  | cons e events ih =>
    have hs : deliveriesOf ([e]++events) = deliveriesOf [e]++deliveriesOf events := filterMap_append
    rw [← singleton_append,hs,← append_assoc]
    exact ih (ds++deliveriesOf [e]) (step codec cap s e) (step_accounted cap e h)

/-- Every delivery is answered exactly once, by what it carries, the inbox has the newest messages
that were accepted and not taken, no more than its limit, and the counters agree. A limit that is not positive counts
as one. -/
theorem deliveries_accounted (codec : EnvelopeCodec) (inboxLimit : ℤ) (events : List Event) :
    Accounted codec (if 0 < inboxLimit then inboxLimit.toNat else 1) (deliveriesOf events)
      (run (step codec inboxLimit) empty events) :=
  run_accounted inboxLimit events [] empty
    ⟨rfl,rfl,rfl,⟨[],rfl,fun _ hn => absurd hn not_mem_nil⟩,Nat.zero_le _,rfl,rfl⟩

def refusing : EnvelopeCodec where
  json := ⟨fun _ => .error [],fun _ => .error [],fun _ => []⟩
  looksLikeUtcIsoMs := fun _ => false

/-- A limit of zero still leaves a message in the inbox. -/
theorem zero_limit_keeps_one :
    let s := run (step refusing 0) empty [.delivery false ⟨"on".toList,[],[],1,false⟩]
    s.inbox.map MqMessage.body = ["on".toList] ∧ s.overflowedCount = 0 := by
  decide

end EMaster.MqInbox
