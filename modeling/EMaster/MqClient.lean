import EMaster.Runs
import EMaster.Text

/-!
# Publishing to the broker

`publish` puts a message into a bounded queue under the queue's lock. The service thread takes
messages out under the lock, sends them without it, and puts a message that could not be sent back
to the front.
-/

set_option autoImplicit false

namespace EMaster.MqClient
open Runs List

structure MqConfig where
  enabled : Bool
  host : Text
  port : ℤ
  (vhost user password exchange exchangeType queue routingKey : Text)
  (declareTopology consume : Bool)
  prefetch : ℤ
  envelope : Bool
  (heartbeatSec publishQueueLimit inboxLimit : ℤ)
  deriving DecidableEq, Repr

structure Outgoing where
  (exchange routingKey body contentType : Text)
  deriving DecidableEq, Repr

/-- The arguments of `publish`, with what `EncodeEnvelope` makes of the body. -/
structure Publication where
  (body routingKey exchange : Text)
  wrapEnvelope : Bool
  encoded : Text
  deriving DecidableEq, Repr

/-- Where the service thread is: outside `DrainOutgoing`, in its loop, or sending a message that
it has taken out. -/
inductive Thread where
  | outside
  | loop (i : ℕ)
  | sending (i : ℕ) (item : Outgoing)
  deriving DecidableEq, Repr

structure Client where
  outgoing : List Outgoing
  thread : Thread
  (ready failed : Bool)
  (publishedCount droppedCount : ℕ)
  (accepted sent : List Outgoing)
  deriving DecidableEq, Repr

variable (cfg : MqConfig)

def outgoingOf (p : Publication) : Outgoing where
  exchange := if p.exchange = [] then cfg.exchange else p.exchange
  routingKey := if p.routingKey = [] then cfg.routingKey else p.routingKey
  body := if p.wrapEnvelope then p.encoded else p.body
  contentType := if p.wrapEnvelope then "application/json" else []

/-- A setting that is not positive counts as one. -/
def limitOf (setting : ℤ) : ℕ := if 0 < setting then setting.toNat else 1

def publish (s : Client) (p : Publication) : Client×Except Text Unit :=
  if cfg.enabled = false then (s,.error "RabbitMQ is disabled in the configuration")
  else if limitOf cfg.publishQueueLimit ≤ s.outgoing.length then
    ({ s with droppedCount := s.droppedCount+1 },
      .error ("outbound queue is full ("++Text.ofNat (limitOf cfg.publishQueueLimit)++
        " messages); broker unreachable?"))
  else
    ({ s with
        outgoing := s.outgoing++[outgoingOf cfg p]
        accepted := s.accepted++[outgoingOf cfg p] },.ok ())

def kMaxPerPass : ℕ := 64

def takeNext (s : Client) (i : ℕ) : Client :=
  if i < kMaxPerPass then
    match s.outgoing with
    | item::rest => { s with thread := .sending i item, outgoing := rest }
    | [] => { s with thread := .outside }
  else { s with thread := .outside }

inductive Event where
  | publish (p : Publication)
  -- the service thread
  | drain
  | take
  | sent (fails : Bool)
  | refused
  | connected
  | teardown
  deriving DecidableEq, Repr

def step (s : Client) : Event → Client
  | .publish p => (publish cfg s p).1
  | .drain =>
    if s.thread = .outside ∧ s.ready = true ∧ s.failed = false then { s with thread := .loop 0 }
    else s
  | .take =>
    match s.thread with
    | .loop i => takeNext s i
    | _ => s
  | .sent fails =>
    match s.thread with
    | .sending i item =>
      { s with
        sent := s.sent++[item]
        publishedCount := s.publishedCount+1
        failed := fails
        ready := s.ready && !fails
        thread := if fails then .outside else .loop (i+1) }
    | _ => s
  | .refused =>
    match s.thread with
    | .sending _ item =>
      { s with
        outgoing := item::s.outgoing
        failed := true
        ready := false
        thread := .outside }
    | _ => s
  | .connected => if s.thread = .outside then { s with ready := true, failed := false } else s
  | .teardown => if s.thread = .outside then { s with ready := false, failed := false } else s

def idle : Client := ⟨[],.outside,false,false,0,0,[],[]⟩

def inHand : Thread → List Outgoing
  | .sending _ item => [item]
  | _ => []

/-- Every accepted message was sent once, is being sent or waits, in the order of acceptance. -/
def InOrder (s : Client) : Prop := s.accepted = s.sent++inHand s.thread++s.outgoing

def Bounded (s : Client) : Prop := (s.outgoing.length : ℤ) ≤ cfg.publishQueueLimit

/-- What an event must find: a client that publishes has a positive limit, and a message that is put
back finds room. -/
def Room (s : Client) : Event → Prop
  | .publish _ => cfg.enabled = true → 0 < cfg.publishQueueLimit
  | .refused => ∀ i item, s.thread = .sending i item →
      (s.outgoing.length : ℤ) < cfg.publishQueueLimit
  | _ => True

theorem publish_cases (s : Client) (p : Publication) :
    ((cfg.enabled = true → limitOf cfg.publishQueueLimit ≤ s.outgoing.length) ∧
        (publish cfg s p).1.outgoing = s.outgoing ∧ (publish cfg s p).1.accepted = s.accepted ∨
      cfg.enabled = true ∧ s.outgoing.length < limitOf cfg.publishQueueLimit ∧
        (publish cfg s p).1.outgoing = s.outgoing++[outgoingOf cfg p] ∧
        (publish cfg s p).1.accepted = s.accepted++[outgoingOf cfg p]) ∧
      (publish cfg s p).1.thread = s.thread ∧ (publish cfg s p).1.sent = s.sent := by
  rw [publish]
  by_cases he : cfg.enabled = false
  · rw [if_pos he]
    exact ⟨.inl ⟨fun ht => absurd ht (by simp [he]),rfl,rfl⟩,rfl,rfl⟩
  · rw [if_neg he]
    by_cases hf : limitOf cfg.publishQueueLimit ≤ s.outgoing.length
    · rw [if_pos hf]
      exact ⟨.inl ⟨fun _ => hf,rfl,rfl⟩,rfl,rfl⟩
    · rw [if_neg hf]
      exact ⟨.inr ⟨by simpa using he,not_le.mp hf,rfl,rfl⟩,rfl,rfl⟩

variable {s : Client}

theorem step_in_order (cfg : MqConfig) (e : Event) (h : InOrder s) : InOrder (step cfg s e) := by
  rw [InOrder] at h ⊢
  cases e with
  | publish p =>
    obtain ⟨hc,ht,hs⟩ := publish_cases cfg s p
    show (publish cfg s p).1.accepted = (publish cfg s p).1.sent++
      inHand (publish cfg s p).1.thread++(publish cfg s p).1.outgoing
    rw [ht,hs]
    obtain ⟨_,ho,ha⟩ | ⟨_,_,ho,ha⟩ := hc
    · rw [ho,ha]
      exact h
    · rw [ho,ha,h,append_assoc]
  | drain =>
    rw [step]
    split_ifs with hd
    · rw [hd.1] at h
      exact h
    · exact h
  | take =>
    rw [step]
    cases ht : s.thread with
    | loop i =>
      rw [ht] at h
      dsimp only
      rw [takeNext]
      split_ifs
      · cases ho : s.outgoing with
        | nil =>
          rw [ho] at h
          exact h
        | cons item rest =>
          rw [ho] at h
          simpa [inHand] using h
      · exact h
    | _ => exact h
  | sent fails =>
    rw [step]
    cases ht : s.thread with
    | sending i item =>
      rw [ht] at h
      cases fails <;> simpa [inHand] using h
    | _ => exact h
  | refused =>
    rw [step]
    cases ht : s.thread with
    | sending i item =>
      rw [ht] at h
      simpa [inHand] using h
    | _ => exact h
  | connected =>
    rw [step]
    split_ifs <;> exact h
  | teardown =>
    rw [step]
    split_ifs <;> exact h

theorem step_bounded_iff {cfg : MqConfig} (e : Event) (h : Bounded cfg s) :
    Bounded cfg (step cfg s e) ↔ Room cfg s e := by
  rw [Bounded] at h ⊢
  cases e with
  | publish p =>
    obtain ⟨hcs,_⟩ := publish_cases cfg s p
    rw [Room]
    show ((publish cfg s p).1.outgoing.length : ℤ) ≤ _ ↔ _
    have hone : 0 < limitOf cfg.publishQueueLimit := by
      rw [limitOf]
      split_ifs <;> omega
    obtain ⟨hfull,ho,_⟩ | ⟨hen,hrm,ho,_⟩ := hcs
    · rw [ho]
      refine iff_of_true h fun hen => ?_
      have hf := hfull hen
      omega
    · rw [ho,length_append,length_singleton]
      rw [limitOf] at hrm
      constructor
      · intro hle _
        push_cast at hle
        omega
      · intro hp
        have hl := hp hen
        rw [if_pos hl] at hrm
        omega
  | drain =>
    rw [step]
    split_ifs <;> exact iff_of_true h trivial
  | take =>
    rw [step]
    cases s.thread with
    | loop i =>
      refine iff_of_true ?_ trivial
      dsimp only
      rw [takeNext]
      split_ifs
      · cases ho : s.outgoing with
        | nil =>
          rw [ho] at h
          exact h
        | cons item rest =>
          rw [ho,length_cons] at h
          push_cast at h
          show (rest.length : ℤ) ≤ _
          omega
      · exact h
    | _ => exact iff_of_true h trivial
  | sent fails =>
    rw [step]
    cases s.thread <;> exact iff_of_true h trivial
  | refused =>
    rw [step,Room]
    cases ht : s.thread with
    | sending i item =>
      show ((item::s.outgoing).length : ℤ) ≤ _ ↔ _
      rw [length_cons]
      push_cast
      exact ⟨fun hle _ _ _ => by omega,fun ha => by have := ha i item rfl; omega⟩
    | _ => exact iff_of_true h fun _ _ hc => by cases hc
  | connected =>
    rw [step]
    split_ifs <;> exact iff_of_true h trivial
  | teardown =>
    rw [step]
    split_ifs <;> exact iff_of_true h trivial

/-- Over every interleaving of `publish` with the service thread the messages leave in the order in
which they were accepted, each once; and the queue keeps its limit all along just when nothing is
published under a limit of zero and every message that is put back finds room. -/
theorem pending_bounded_iff (cfg : MqConfig) (events : List Event) :
    (∀ past rest, events = past++rest →
        InOrder (run (step cfg) idle past) ∧ Bounded cfg (run (step cfg) idle past)) ↔
      0 ≤ cfg.publishQueueLimit ∧ Meets (step cfg) (Room cfg) idle events := by
  have hr : 0 ≤ cfg.publishQueueLimit →
      ((∀ past rest, events = past++rest →
          InOrder (run (step cfg) idle past) ∧ Bounded cfg (run (step cfg) idle past)) ↔
        Meets (step cfg) (Room cfg) idle events) := by
    intro hl
    apply always_iff_meets (step cfg) (Room cfg) (fun s => InOrder s ∧ Bounded cfg s)
      (fun s => InOrder s ∧ Bounded cfg s)
    · exact fun s e hs hrm =>
        ⟨step_in_order cfg e hs.1,(step_bounded_iff e hs.2).mpr hrm⟩
    · exact fun s hs => hs
    · exact fun s e hs hn ha => hn ((step_bounded_iff e hs.2).mp ha.2)
    · exact ⟨rfl,hl⟩
  constructor
  · intro hal
    have hl : 0 ≤ cfg.publishQueueLimit := (hal [] events rfl).2
    exact ⟨hl,(hr hl).mp hal⟩
  · exact fun hb => (hr hb.1).mpr hb.2

/-! ## A message that is put back -/

def smallQueue : MqConfig where
  enabled := true
  host := "localhost"
  port := 5672
  vhost := "/"
  user := "dev"
  password := "devpass"
  exchange := "mqlab.direct"
  exchangeType := "direct"
  queue := "mqlab.messages"
  routingKey := "mqlab.msg"
  declareTopology := true
  consume := true
  prefetch := 10
  envelope := false
  heartbeatSec := 60
  publishQueueLimit := 1
  inboxLimit := 100

def plain (body : Text) : Publication := ⟨body,[],[],false,[]⟩

/-- A second message is accepted while the first is being sent, and the first comes back. -/
def putBack : List Event :=
  [.connected,.publish (plain "a".toList),.drain,.take,.publish (plain "b".toList),.refused]

theorem put_back_overflows :
    ¬∀ past rest, putBack = past++rest → InOrder (run (step smallQueue) idle past) ∧
      Bounded smallQueue (run (step smallQueue) idle past) := by
  intro h
  have hb : (2 : ℤ) ≤ 1 := (h putBack [] (append_nil _).symm).2
  omega

end EMaster.MqClient
