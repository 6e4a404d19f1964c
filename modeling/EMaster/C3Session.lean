import EMaster.C3Client
import EMaster.Runs

/-!
# Replies of the panel that come late

The panel answers each request of a session once and in order, but its replies may take any
time. A reply that comes after the client has given up stays in the stream and is the next
thing that the client reads.
-/

set_option autoImplicit false

namespace EMaster.C3
open Bytes Framing Runs List Client

theorem cut_length (sizes : List (Fin 4096)) (data : Bytes) :
    ∀ chunk ∈ cut sizes data, chunk.length ≤ 4096 := by
  induction sizes generalizing data with
  | nil => simp [cut]
  | cons n ns ih =>
    rw [cut]
    split_ifs
    · simp
    · intro chunk hc
      rcases mem_cons.mp hc with rfl | hr
      · rw [length_take]
        omega
      · exact ih _ chunk hr

theorem cut_flatten (sizes : List (Fin 4096)) (data : Bytes) :
    (cut sizes data).flatten++data.drop (cut sizes data).flatten.length = data := by
  induction sizes generalizing data with
  | nil => simp [cut]
  | cons n ns ih =>
    rw [cut]
    split_ifs with he
    · simp
    · have hr := ih (data.drop (n+1))
      rw [drop_drop] at hr
      by_cases ha : data.length ≤ n+1
      · rw [take_of_length_le ha,drop_of_length_le ha]
        rw [drop_of_length_le ha,append_eq_nil_iff] at hr
        simp [hr.1]
      · rw [flatten_cons,length_append,length_take,min_eq_left (by omega),
          append_assoc,hr,take_append_drop]

section Reading
variable {f more carry : Bytes}

theorem part_begins (h : carry <+: f++more) (hl : f.length ≤ carry.length) :
    ∃ rest, carry = f++rest := by
  obtain ⟨rest,hr⟩ := prefix_of_prefix_length_le (prefix_append f more) h hl
  exact ⟨rest,hr.symm⟩

variable (chunks : List Bytes) (hf : IsFrame panelFrames f)
include hf

theorem read_whole (rest : Bytes) : readOneFrame (f++rest) chunks = ⟨.frame f,rest,chunks⟩ := by
  have hs : frameSize (f++rest) = f.length := size_of_frame hf rest
  have hp := length_pos_iff.mpr hf.2
  rw [readOneFrame.eq_def,hs,if_pos ⟨hp,by simp⟩]
  simp

theorem part_waits (h : carry <+: f++more) (hs : carry.length < f.length) :
    ¬(0 < frameSize carry ∧ frameSize carry ≤ carry.length) := by
  rintro ⟨hp,hft⟩
  obtain ⟨after,ha⟩ := h
  have hsp : carry.take (frameSize carry)++(carry.drop (frameSize carry)++after) = f++more := by
    rw [← append_assoc,take_append_drop,ha]
  obtain ⟨heq,_⟩ := frame_unique (whole_framed (p := panelFrames) hp hft) hf hsp
  rw [← heq,length_take] at hs
  omega

theorem frame_short : f.length ≤ 65543 := by
  have hw := (wordOf (f.getD 3 0) (f.getD 4 0)).toNat_lt
  have hs : frameSize f = f.length := hf.1
  rw [← hs,frameSize,lengthField]
  split_ifs <;> omega

/-- A read takes the frame that the stream begins with as soon as it is whole. The bound on
what is carried is never reached, because no frame is that long. -/
theorem read_stream (hch : ∀ chunk ∈ chunks, chunk.length ≤ 4096)
    (h : carry++chunks.flatten <+: f++more) :
    if f.length ≤ (carry++chunks.flatten).length then
      ∃ rest unread, readOneFrame carry chunks = ⟨.frame f,rest,unread⟩ ∧
        carry++chunks.flatten = f++(rest++unread.flatten)
    else readOneFrame carry chunks = ⟨.timeout,carry++chunks.flatten,[]⟩ := by
  induction chunks generalizing carry with
  | nil =>
    rw [flatten_nil,append_nil] at h ⊢
    split_ifs with hl
    · obtain ⟨rest,rfl⟩ := part_begins h hl
      exact ⟨rest,[],read_whole [] hf rest,by simp⟩
    · rw [readOneFrame.eq_def,if_neg (part_waits hf h (by omega))]
  | cons chunk chunks ih =>
    have hp : carry <+: f++more := (prefix_append carry _).trans h
    by_cases hl : f.length ≤ carry.length
    · obtain ⟨rest,rfl⟩ := part_begins hp hl
      rw [if_pos (by simp)]
      exact ⟨rest,chunk::chunks,read_whole _ hf rest,by simp⟩
    · have hcn := hch chunk mem_cons_self
      have hfr := frame_short hf
      have hr : readOneFrame carry (chunk::chunks) = readOneFrame (carry++chunk) chunks := by
        rw [readOneFrame, if_neg (part_waits hf hp (by omega)),
          if_neg (by rw [length_append]; omega)]
      rw [flatten_cons,← append_assoc] at h ⊢
      rw [hr]
      exact ih (fun c hc => hch c (mem_cons_of_mem chunk hc)) h

end Reading


variable (e : Entry)

/-- A request is answered by the oldest reply, if that has come in time. The client reads on
from where its own reply begins if it has read all the earlier ones. -/
structure Entry.Served : Prop where
  reply : ∃ f fs, e.outstanding++[e.own] = f::fs ∧
    e.reply = if f.length ≤ e.arrived then some f else none
  start : e.start = e.begins ↔ e.outstanding = []

/-- The reply that was handed over is the panel's reply to the request: it was read from where
that reply begins. An earlier reply with the same bytes is not the reply to this request. -/
def Entry.Own : Prop := ∀ reply, e.reply = some reply → e.start = e.begins ∧ reply = e.own

/-- Of the replies to earlier requests that the client has not read, the oldest does not become
whole in the time for this request. -/
def Entry.Timely : Prop := ∀ f fs, e.outstanding = f::fs → e.arrived < f.length

theorem Entry.own_iff_timely (h : e.Served) : e.Own ↔ e.Timely := by
  obtain ⟨⟨f,fs,hq,hrp⟩,hst⟩ := h
  constructor
  · intro how g gs ho
    rw [ho,cons_append,List.cons.injEq] at hq
    rw [hq.1]
    by_contra hc
    have hnil := hst.mp (how f (by rw [hrp,if_pos (by omega)])).1
    rw [ho] at hnil
    cases hnil
  · intro ht reply hr
    rw [hrp] at hr
    split_ifs at hr with hc
    cases hr
    cases ho : e.outstanding with
    | nil =>
      rw [ho,nil_append,List.cons.injEq] at hq
      exact ⟨hst.mpr ho,hq.1.symm⟩
    | cons g gs =>
      rw [ho,cons_append,List.cons.injEq] at hq
      have hg := ht g gs ho
      rw [hq.1] at hg
      omega

/-- The client reads from the start of the oldest reply that it has not read, and each
request was served that way. -/
structure Behind (carry : Bytes) (w : Wire) : Prop where
  stream : carry++w.pending = w.outstanding.flatten
  sent : (carry++w.pending).length ≤ w.sent
  framed : ∀ f ∈ w.outstanding, IsFrame panelFrames f
  served : ∀ e ∈ w.log, e.Served

section Requests
variable {c : Client} {w : Wire} (req : Bytes)

theorem waited_carry (closes : Bool) (r : Read) : (c.waited closes r).carry = r.carry := by
  rw [waited]
  split <;> rfl

theorem queue_framed {carry : Bytes} (h : Behind carry w) :
    ∀ f ∈ w.outstanding++[w.own], IsFrame panelFrames f := by
  intro f hf
  rcases mem_append.mp hf with hold | ho
  · exact h.framed f hold
  · rw [mem_singleton.mp ho]
    exact (w.answers w.asked).framed

/-- The stream with the new reply is what has come in and what is still to come. -/
theorem queue_stream {carry : Bytes} (h : Behind carry w) :
    (carry++w.chunks.flatten)++(w.pending++w.own).drop w.chunks.flatten.length =
      (w.outstanding++[w.own]).flatten := by
  have hc : w.chunks.flatten++(w.pending++w.own).drop w.chunks.flatten.length = w.pending++w.own :=
    cut_flatten _ _
  rw [append_assoc,hc,← append_assoc,h.stream]
  simp

/-- Nothing that was sent before is unread exactly if no reply is outstanding. -/
theorem start_iff {carry : Bytes} (h : Behind carry w) :
    w.sent-(carry++w.pending).length = w.sent ↔ w.outstanding = [] := by
  have hs := h.sent
  rw [h.stream] at hs ⊢
  constructor
  · intro he
    refine eq_nil_iff_forall_not_mem.mpr fun f hf => ?_
    have hp := length_pos_iff.mpr (h.framed f hf).2
    have hl := (sublist_flatten_of_mem hf).length_le
    omega
  · intro he
    simp [he]

/-- What was read is the oldest reply, whole, or it is not whole and all is kept. -/
theorem answered_behind {carry : Bytes} (h : Behind carry w) :
    Behind (readOneFrame carry w.chunks).carry
      (w.answered req carry (readOneFrame carry w.chunks)) := by
  have hfr := queue_framed h
  have hs := queue_stream h
  have hst := start_iff h
  have hle := h.sent
  have hall := congrArg length hs
  rw [flatten_append,← h.stream] at hall
  obtain ⟨f,fs,hq⟩ := exists_cons_of_ne_nil (show w.outstanding++[w.own] ≠ [] by simp)
  have hr := @read_stream f fs.flatten carry w.chunks
    (hfr f (by rw [hq]; exact mem_cons_self)) (cut_length _ _)
    ⟨_,by rw [hs,hq,flatten_cons]⟩
  split_ifs at hr with hc
  · obtain ⟨rest,unread,hen,hsp⟩ := hr
    rw [hsp,hq,flatten_cons,append_assoc,append_cancel_left_eq,append_assoc] at hs
    rw [hen]
    refine ⟨?_,?_,?_,?_⟩
    · simpa [Wire.answered,Read.reply,hq] using hs
    · have hup := congrArg length hsp
      simp only [Wire.answered,length_append,flatten_singleton] at hall hle hup ⊢
      omega
    · intro g hg
      simp only [Wire.answered,Read.reply,hq,Option.isSome_some,if_true,tail_cons] at hg
      exact hfr g (by rw [hq]; exact mem_cons_of_mem f hg)
    · intro e he
      rcases mem_append.mp he with hold | hn
      · exact h.served e hold
      · rw [mem_singleton.mp hn]
        exact ⟨⟨f,fs,hq,(if_pos hc).symm⟩,hst⟩
  · rw [hr]
    refine ⟨?_,?_,?_,?_⟩
    · simpa [Wire.answered,Read.reply] using hs
    · simp only [Wire.answered,length_append,flatten_singleton,flatten_nil,nil_append] at hall hle ⊢
      omega
    · simpa [Wire.answered,Read.reply] using hfr
    · intro e he
      rcases mem_append.mp he with hold | hn
      · exact h.served e hold
      · rw [mem_singleton.mp hn]
        exact ⟨⟨f,fs,hq,(if_neg hc).symm⟩,hst⟩

theorem receive_behind (h : Behind c.carry w) :
    Behind (c.receive w req).1.carry (c.receive w req).2.1 := by
  rw [receive,waited_carry]
  exact answered_behind req h

theorem transact_behind (h : Behind c.carry w) :
    Behind (c.transact w req).1.carry (c.transact w req).2.1 := by
  rw [transact]
  split_ifs
  · exact h
  · exact h
  · exact receive_behind req h

theorem transact_log : w.log <+: (c.transact w req).2.1.log := by
  rw [transact]
  split_ifs
  · exact prefix_rfl
  · exact prefix_rfl
  · exact prefix_append _ _

/-- A reply that was handed over is on record, with the panel's reply to the request. -/
theorem transact_entry (reply : Bytes) (h : (c.transact w req).2.2 = some reply) :
    ∃ e ∈ (c.transact w req).2.1.log, e.own = w.own ∧ e.reply = some reply := by
  rw [transact] at h ⊢
  split_ifs at h ⊢
  exact ⟨_,mem_append_right _ mem_cons_self,rfl,h⟩

end Requests

/-- From one state to a later one the client stays behind the panel in this way, and no
request is dropped from the record. -/
structure Goes (c : Client) (w : Wire) (c' : Client) (w' : Wire) : Prop where
  behind : Behind c.carry w → Behind c'.carry w'
  log : w.log <+: w'.log

section Operations
variable (c : Client) (w : Wire)

theorem transact_goes (req : Bytes) : Goes c w (c.transact w req).1 (c.transact w req).2.1 :=
  ⟨transact_behind req,transact_log req⟩

theorem get_device_param_goes (items : Bytes) :
    Goes c w (c.getDeviceParam w items).1 (c.getDeviceParam w items).2.1 := by
  rw [getDeviceParam]
  split_ifs
  · exact ⟨id,prefix_rfl⟩
  · have hg := transact_goes c.nextRequestNr w (encodeGetParam (splitNames items)
      (!c.nextRequestNr.sessionLess) c.nextRequestNr.sessionId c.nextRequestNr.requestNr)
    dsimp only
    generalize c.nextRequestNr.transact w _ = t at hg ⊢
    obtain ⟨c',w',reply⟩ := t
    cases reply with
    | none => exact ⟨hg.behind,hg.log⟩
    | some reply =>
      dsimp only
      split <;> exact ⟨hg.behind,hg.log⟩

theorem control_device_goes (operationId param1 param2 param3 : ℤ) :
    Goes c w (c.controlDevice w operationId param1 param2 param3).1
      (c.controlDevice w operationId param1 param2 param3).2.1 ∧
    ((c.controlDevice w operationId param1 param2 param3).2.2 = 0 →
      ∃ e ∈ (c.controlDevice w operationId param1 param2 param3).2.1.log, e.own = w.own ∧
        ∃ reply, e.reply = some reply ∧ decodeGenericReply reply = .kOk) := by
  rw [controlDevice]
  split_ifs
  · exact ⟨⟨id,prefix_rfl⟩,fun h => by simp at h⟩
  · exact ⟨⟨id,prefix_rfl⟩,fun h => by simp at h⟩
  · dsimp only
    generalize encodeControl (toByte operationId) (toByte param1)
      (toByte param2) (toByte param3) (!c.nextRequestNr.sessionLess)
      c.nextRequestNr.sessionId c.nextRequestNr.requestNr = request
    have hg := transact_goes c.nextRequestNr w request
    have hen := transact_entry (c := c.nextRequestNr) (w := w) request
    generalize c.nextRequestNr.transact w request = t at hg hen ⊢
    obtain ⟨c',w',reply⟩ := t
    cases reply with
    | none => exact ⟨⟨hg.behind,hg.log⟩,fun h => by simp at h⟩
    | some reply =>
      obtain ⟨e,he,ho,hr⟩ := hen reply rfl
      dsimp only
      split
      · rename_i hok
        exact ⟨⟨hg.behind,hg.log⟩,fun _ => ⟨e,he,ho,reply,hr,hok⟩⟩
      · exact ⟨⟨hg.behind,hg.log⟩,fun h => by simp at h⟩
      · exact ⟨⟨hg.behind,hg.log⟩,fun h => by simp at h⟩

theorem get_rtlog_key_value_goes :
    Goes c w (c.getRTLogKeyValue w).1 (c.getRTLogKeyValue w).2.1 := by
  have hg := transact_goes c.nextRequestNr w (encodeRtlogKeyValueRequest
    (!c.nextRequestNr.sessionLess) c.nextRequestNr.sessionId c.nextRequestNr.requestNr)
  rw [getRTLogKeyValue]
  generalize c.nextRequestNr.transact w _ = t at hg ⊢
  obtain ⟨c',w',reply⟩ := t
  cases reply with
  | none => exact ⟨hg.behind,hg.log⟩
  | some reply =>
    dsimp only
    split <;> exact ⟨hg.behind,hg.log⟩

theorem get_rtlog_goes : Goes c w (c.getRTLog w).1 (c.getRTLog w).2.1 := by
  rw [getRTLog]
  split_ifs
  · exact ⟨id,prefix_rfl⟩
  · exact get_rtlog_key_value_goes c w
  · have hg := transact_goes c.nextRequestNr w (encodeRtlogBinaryRequest
      (!c.nextRequestNr.sessionLess) c.nextRequestNr.sessionId c.nextRequestNr.requestNr)
    dsimp only
    generalize c.nextRequestNr.transact w _ = t at hg ⊢
    obtain ⟨c',w',reply⟩ := t
    cases reply with
    | none => exact ⟨hg.behind,hg.log⟩
    | some reply =>
      dsimp only
      split
      · have hl := get_rtlog_key_value_goes { c' with rtlogKeyValueMode := true } w'
        exact ⟨fun h => hl.behind (hg.behind h),hg.log.trans hl.log⟩
      · exact ⟨hg.behind,hg.log⟩
      · exact ⟨hg.behind,hg.log⟩

theorem fresh_behind (answers : ℕ → Answer) : Behind [] { answers := answers } :=
  ⟨rfl,le_rfl,forall_mem_nil _,forall_mem_nil _⟩

theorem connect_session_less_behind (panel : Client.Panel) :
    Behind (c.connectSessionLess panel).1.carry (c.connectSessionLess panel).2.1 := by
  have hfr := fresh_behind panel.answers
  have hn := transact_behind (c := c.opened) (encodeConnectSessionLess c.password) hfr
  rw [connectSessionLess]
  split_ifs
  · exact hfr
  · generalize c.opened.transact _ _ = t at hn ⊢
    obtain ⟨c',w',reply⟩ := t
    cases reply with
    | none => exact hn
    | some reply =>
      dsimp only
      split <;> exact hn

theorem connect_behind (conn : Text) (first second : Client.Panel) :
    Behind (c.connect conn first second).1.carry (c.connect conn first second).2.1 := by
  rw [connect]
  dsimp only
  generalize hc : c.disconnect.configured conn = d
  have hfr := fresh_behind first.answers
  have hs : Behind d.carry { answers := first.answers } := by
    rw [← hc]
    exact hfr
  have hn := transact_behind (c := { d.opened with requestNr := 0 })
    (encodeConnectSession d.password) hfr
  split_ifs
  · exact hs
  · exact hs
  · generalize transact _ _ _ = t at hn ⊢
    obtain ⟨c',w',reply⟩ := t
    cases reply with
    | none => exact connect_session_less_behind c' _
    | some reply =>
      dsimp only
      split
      · exact hn
      · exact connect_session_less_behind c' _

end Operations

inductive Operation where
  | getDeviceParam (items : Bytes)
  | controlDevice (operationId param1 param2 param3 : ℤ)
  | getRTLog

/-- A client, its connection, and for each control command what it reported, with the
panel's reply to it. -/
structure Session where
  client : Client
  wire : Wire
  acts : List (ℤ×Bytes)

namespace Session

def step (s : Session) : Operation → Session
  | .getDeviceParam items =>
    let result := s.client.getDeviceParam s.wire items
    { s with client := result.1, wire := result.2.1 }
  | .controlDevice operationId param1 param2 param3 =>
    let result := s.client.controlDevice s.wire operationId param1 param2 param3
    ⟨result.1,result.2.1,s.acts++[(result.2.2,s.wire.own)]⟩
  | .getRTLog =>
    let result := s.client.getRTLog s.wire
    { s with client := result.1, wire := result.2.1 }

def start (c : Client) (connectionString : Text) (first second : Client.Panel) : Session :=
  let result := c.connect connectionString first second
  ⟨result.1,result.2.1,[]⟩

/-- Each reply that was handed over is the panel's reply to the request, and a control
command reports success only if the panel accepted that very command. -/
structure Faithful (s : Session) : Prop where
  replies : ∀ e ∈ s.wire.log, e.Own
  acts : ∀ act ∈ s.acts, act.1 = 0 → decodeGenericReply act.2 = .kOk

structure Sound (s : Session) : Prop where
  behind : Behind s.client.carry s.wire
  acts : ∀ act ∈ s.acts, act.1 = 0 →
    ∃ e ∈ s.wire.log, e.own = act.2 ∧ ∃ reply, e.reply = some reply ∧
      decodeGenericReply reply = .kOk

theorem start_sound (c : Client) (conn : Text) (first second : Client.Panel) :
    (start c conn first second).Sound :=
  ⟨connect_behind c conn first second,forall_mem_nil _⟩

variable {s : Session}

theorem Sound.goes (h : s.Sound) (c' : Client) (w' : Wire) (hg : Goes s.client s.wire c' w') :
    Sound { s with client := c', wire := w' } := by
  refine ⟨hg.behind h.behind,fun act ha hc => ?_⟩
  obtain ⟨e,he,hen⟩ := h.acts act ha hc
  exact ⟨e,hg.log.subset he,hen⟩

theorem sound_step (s : Session) (op : Operation) (h : s.Sound) : (s.step op).Sound := by
  cases op with
  | getDeviceParam items => exact h.goes _ _ (get_device_param_goes _ _ items)
  | getRTLog => exact h.goes _ _ (get_rtlog_goes _ _)
  | controlDevice operationId param1 param2 param3 =>
    obtain ⟨hg,hs⟩ := control_device_goes _ _ _ _ _ _
    have hold := h.goes _ _ hg
    refine ⟨hold.behind,fun act ha hc => ?_⟩
    rcases mem_append.mp ha with hb | hn
    · exact hold.acts act hb hc
    · rw [mem_singleton.mp hn] at hc ⊢
      exact hs hc

theorem Sound.timely_iff (h : s.Sound) : s.Faithful ↔ ∀ e ∈ s.wire.log, e.Timely := by
  have hs := h.behind.served
  constructor
  · intro hft e he
    exact (e.own_iff_timely (hs e he)).mp (hft.replies e he)
  · intro ht
    have ho : ∀ e ∈ s.wire.log, e.Own := fun e he => (e.own_iff_timely (hs e he)).mpr (ht e he)
    refine ⟨ho,fun act ha hc => ?_⟩
    obtain ⟨e,he,heq,reply,hr,hok⟩ := h.acts act ha hc
    rw [← heq,← (ho e he reply hr).2]
    exact hok

/-- Over any session, all replies are the panel's replies to the requests that they are taken
for exactly if no reply to an earlier request becomes whole in the time for a later one. -/
theorem replies_own_iff (c : Client) (connectionString : Text) (first second : Client.Panel)
    (ops : List Operation) :
    (run step (start c connectionString first second) ops).Faithful ↔
      ∀ e ∈ (run step (start c connectionString first second) ops).wire.log, e.Timely := by
  have hs : (run step (start c connectionString first second) ops).Sound :=
    run_invariant step (fun _ _ => True) Sound (fun s op h _ => sound_step s op h) _ ops
      (start_sound c connectionString first second)
      (meets_of_forall _ _ _ _ (fun _ _ _ => trivial))
  exact hs.timely_iff

/-- The session is opened; the serial number comes after the client has given up on it; the
panel then refuses the command to open door 1. -/
def lateAnswers : ℕ → Answer
  | 0 => ⟨encodeFrame kReplyOk 1 0 [] true,encoded_framed _ _ _ (by decide),oneRead,true,false⟩
  | 1 => ⟨encodeFrame kReplyOk 1 1 [0x61,0x3D,0x62] true,encoded_framed _ _ _ (by decide),[],
    true,false⟩
  | _ => ⟨encodeFrame kReplyError 1 2 [] true,encoded_framed _ _ _ (by decide),oneRead,true,false⟩

def lateSession : Session :=
  run step (start {} "ipaddress=10.0.0.237" ⟨true,lateAnswers⟩ ⟨false,lateAnswers⟩)
    [.getDeviceParam [0x61],.controlDevice 1 1 1 5]

/-- The command is reported as done, although the panel refused it. -/
theorem late_reply_taken :
    lateSession.acts = [(0,encodeFrame kReplyError 1 2 [] true)] ∧
      decodeGenericReply (encodeFrame kReplyError 1 2 [] true) = .kRejected ∧
      ¬lateSession.Faithful := by
  have ha : lateSession.acts = [(0,encodeFrame kReplyError 1 2 [] true)] := by decide +kernel
  have hr : decodeGenericReply (encodeFrame kReplyError 1 2 [] true) = .kRejected := by
    decide +kernel
  refine ⟨ha,hr,fun hft => ?_⟩
  have hok := hft.acts (0,encodeFrame kReplyError 1 2 [] true) (by rw [ha]; exact mem_cons_self) rfl
  rw [hr] at hok
  cases hok

end Session

end EMaster.C3
