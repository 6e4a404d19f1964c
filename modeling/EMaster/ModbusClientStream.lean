import EMaster.ModbusClient

/-!
# Replies that come late

A server answers every request of a connection once, in order and under the identifier of
the request, but its replies may take any time. Bytes are handed to the client in the order
in which the server sent them.
-/

set_option autoImplicit false

namespace EMaster.ModbusClient
open Bytes ModbusProtocol Runs List

/-- A reply of the server. The longest answer to a request of the client has 250 bytes of
values behind the function and the byte count. -/
structure Reply where
  txId : UInt16
  unit : UInt8
  pdu : Bytes
  sized : pdu ≠ [] ∧ pdu.length ≤ 252

namespace Reply

def bytes (r : Reply) : Bytes := frame r.txId r.unit r.pdu

variable (r : Reply)

theorem bytes_length : r.bytes.length = 7+r.pdu.length := by
  simp [bytes,frame,putU16]
  omega

theorem header_words (rest : Bytes) :
    getU16 (r.bytes++rest) 0 = r.txId ∧ getU16 (r.bytes++rest) 2 = 0 ∧
      getU16 (r.bytes++rest) 4 = UInt16.ofNat (1+r.pdu.length) := by
  have hs : r.bytes++rest = putU16 r.txId++(putU16 0++
      (putU16 (UInt16.ofNat (1+r.pdu.length))++(r.unit::r.pdu++rest))) := by
    simp [bytes,frame]
  rw [hs]
  refine ⟨get_put _ [] _,get_put 0 _ _,?_⟩
  rw [← append_assoc (putU16 r.txId)]
  exact get_put _ _ _

theorem length_word : (UInt16.ofNat (1+r.pdu.length)).toNat = 1+r.pdu.length := by
  have := r.sized.2
  rw [UInt16.toNat_ofNat_of_lt' (by simp [UInt16.size]; omega)]

theorem length_accepted :
    ¬(UInt16.ofNat (1+r.pdu.length) < 2 ∨ 253 < UInt16.ofNat (1+r.pdu.length)) := by
  have hm := r.sized.2
  have hp := length_pos_iff.mpr r.sized.1
  have hw := r.length_word
  rw [UInt16.lt_iff_toNat_lt,UInt16.lt_iff_toNat_lt,hw]
  change ¬(1+r.pdu.length < 2 ∨ 253 < 1+r.pdu.length)
  omega

theorem body_of_bytes (rest : Bytes) : ((r.bytes++rest).drop 7).take r.pdu.length = r.pdu := by
  simp [bytes,frame,putU16]

end Reply

section Receiving
variable (socket : Socket) (txId : UInt16) (fn : UInt8) (x : Exchange)

variable {socket x}

theorem receive_short (h : (socket.stream++x.header).length < 7) :
    receive socket txId fn x = failed ⟨!x.closes,x.body⟩ txId "no response (timeout)" := by
  rw [receive,readExact,if_neg (by omega)]
  rfl

variable {txId}

theorem receive_mismatch (h : 7 ≤ (socket.stream++x.header).length)
    (hid : getU16 (socket.stream++x.header) 0 ≠ txId) :
    receive socket txId fn x =
      failed ⟨true,(socket.stream++x.header).drop 7++x.body⟩ txId "transaction ID mismatch" := by
  rw [← word_take h (by decide)] at hid
  rw [receive,readExact,if_pos h]
  exact if_pos hid

theorem receive_own (h : 7 ≤ (socket.stream++x.header).length)
    (hid : getU16 (socket.stream++x.header) 0 = txId)
    (hp : getU16 (socket.stream++x.header) 2 = 0)
    (hl : ¬(getU16 (socket.stream++x.header) 4 < 2 ∨ 253 < getU16 (socket.stream++x.header) 4)) :
    receive socket txId fn x =
      receiveBody ⟨true,(socket.stream++x.header).drop 7++x.body⟩ txId fn
        (getU16 (socket.stream++x.header) 4) x.closes := by
  rw [← word_take h (by decide)] at hid
  rw [← word_take h (by decide)] at hp
  rw [← word_take h (by decide)] at hl
  rw [← word_take h (by decide),receive,readExact,if_pos h]
  dsimp only
  rw [if_neg (not_not.mpr hid),if_neg (not_not.mpr hp),if_neg hl]

end Receiving

/-- An operation, the server's answer to it, and how many bytes of the server's replies come
in while the client waits for a header and after that. -/
structure Call where
  op : Operation
  admitted : op.admitted = true
  unit : UInt8
  response : Bytes
  sized : response ≠ [] ∧ response.length ≤ 252
  (header body : ℕ)

/-- A client, the bytes still on their way to it, all replies of the server, and for each
transaction its result with the response of the server. -/
structure Line where
  client : Client
  pending : Bytes
  replies : List Reply
  log : List (Except Text Bytes×Bytes)

namespace Line

def start : Line := ⟨⟨true,true,⟨true,[]⟩,0,0⟩,[],[],[]⟩

def reply (s : Line) (call : Call) : Reply :=
  ⟨s.client.transactionId+1,call.unit,call.response,call.sized⟩

def coming (s : Line) (call : Call) : Bytes := s.pending++(s.reply call).bytes

def exchange (s : Line) (call : Call) : Exchange where
  sends := true
  header := (s.coming call).take call.header
  body := ((s.coming call).drop call.header).take call.body
  closes := false

def step (s : Line) (call : Call) : Line :=
  if s.client.connected = false then s
  else
    { client := (s.client.perform call.op (s.exchange call)).1
      pending := (s.coming call).drop (call.header+call.body)
      replies := s.replies++[s.reply call]
      log := s.log++[((s.client.transaction call.op (s.exchange call)).result,call.response)] }

def unread (s : Line) : Bytes := s.client.socket.stream++s.pending

def sent (replies : List Reply) : Bytes := (replies.map Reply.bytes).flatten

def AtBoundary (s : Line) : Prop := ∃ n, s.unread = sent (s.replies.drop n)

/-- As long as there is a connection the client reads from the start of a reply, and each
success gave the data of the reply to that very request. -/
structure InStep (s : Line) : Prop where
  boundary : s.client.connected = true → s.AtBoundary
  own : ∀ entry ∈ s.log, ∀ data, entry.1 = .ok data → data = entry.2.drop 1

def Silent (s : Line) (call : Call) : Prop := s.client.socket.stream = [] ∧ call.header = 0

/-- No other reply is under way, and the whole reply comes in time. -/
def Whole (s : Line) (call : Call) : Prop :=
  s.unread = [] ∧ 7 ≤ call.header ∧ 7+call.response.length ≤ call.header+call.body

/-- Two transactions in a row have failed, so that this one is the last or answered. -/
def LastChance (s : Line) : Prop := s.client.consecutiveFailures = 2

def Timely (s : Line) (call : Call) : Prop :=
  s.client.connected = true → s.Silent call ∨ s.Whole call ∨ s.LastChance

section Taking
variable (s : Line) (call : Call)

abbrev inTime : Bytes := s.client.socket.stream++(s.exchange call).header

abbrev arrived : Bytes := s.inTime call++(s.exchange call).body

def total : Bytes := s.client.socket.stream++s.coming call

/-- What a transaction took off the stream, and whether it was answered. -/
structure Took (consumed : ℕ) (answered : Bool) : Prop where
  responded : (s.client.transaction call.op (s.exchange call)).peerResponded = answered
  txId : (s.client.transaction call.op (s.exchange call)).transactionId = s.client.transactionId+1
  isOpen : (s.client.transaction call.op (s.exchange call)).socket.isOpen = true
  rest : (s.client.transaction call.op (s.exchange call)).socket.stream++
    (s.coming call).drop (call.header+call.body) = (s.total call).drop consumed
  failed : answered = false →
    ∃ error, (s.client.transaction call.op (s.exchange call)).result = .error error

theorem transaction_receive (h : s.client.socket.isOpen = true) :
    s.client.transaction call.op (s.exchange call) =
      { receive s.client.socket (s.client.transactionId+1) call.op.function (s.exchange call) with
        sent := some (requestFrame (s.client.transactionId+1) call.op.function call.op.data) } := by
  rw [Client.transaction, transact, if_neg (by simp [h]), if_neg (by simp [exchange])]

theorem header_total : s.inTime call++(s.coming call).drop call.header = s.total call := by
  simp [total,exchange]

theorem body_rest :
    (s.exchange call).body++(s.coming call).drop (call.header+call.body) =
      (s.coming call).drop call.header := by
  rw [← drop_drop]
  exact take_append_drop _ _

theorem body_total :
    s.arrived call++(s.coming call).drop (call.header+call.body) = s.total call := by
  rw [append_assoc,body_rest,header_total]

theorem coming_pos : 7 < (s.coming call).length := by
  have hp := length_pos_iff.mpr call.sized.1
  rw [coming,length_append,Reply.bytes_length]
  change 7 < _+(7+call.response.length)
  omega

theorem drop_of_append {a b c : Bytes} (h : a++b = c) : b = c.drop a.length := by
  rw [← h,drop_left]

variable {s}

theorem took_short (ho : s.client.socket.isOpen = true)
    (h : (s.inTime call).length < 7) :
    s.Took call (s.inTime call).length false := by
  have ht := transaction_receive s call ho
  rw [receive_short _ _ h] at ht
  refine ⟨by rw [ht]; rfl,by rw [ht]; rfl,by rw [ht]; rfl,?_,fun _ => ⟨_,by rw [ht]; rfl⟩⟩
  rw [ht]
  change (s.exchange call).body++_ = _
  rw [body_rest]
  exact drop_of_append (header_total s call)

theorem took_other (ho : s.client.socket.isOpen = true)
    (h : 7 ≤ (s.inTime call).length)
    (hid : getU16 (s.total call) 0 ≠ s.client.transactionId+1) : s.Took call 7 false := by
  have ht := transaction_receive s call ho
  rw [← header_total,word_append _ _ 0 (by omega)] at hid
  rw [receive_mismatch _ h hid] at ht
  refine ⟨by rw [ht]; rfl,by rw [ht]; rfl,by rw [ht]; rfl,?_,fun _ => ⟨_,by rw [ht]; rfl⟩⟩
  rw [ht,← body_total,append_assoc _ _ (List.drop _ _),drop_append_of_le_length h]
  change List.drop 7 _++_++_ = _
  rw [append_assoc]

theorem unread_nil (h : s.unread = []) :
    s.client.socket.stream = [] ∧ s.total call = (s.reply call).bytes ∧
      s.coming call = (s.reply call).bytes := by
  obtain ⟨hs,hp⟩ := append_eq_nil_iff.mp h
  rw [total,coming,hs,hp]
  exact ⟨rfl,rfl,rfl⟩

theorem own_receive (ho : s.client.socket.isOpen = true) (hn : s.unread = [])
    (h : 7 ≤ (s.inTime call).length) :
    s.client.transaction call.op (s.exchange call) =
      { receiveBody
          ⟨true,(s.inTime call).drop 7++(s.exchange call).body⟩
          (s.client.transactionId+1) call.op.function
          (UInt16.ofNat (1+call.response.length)) false with
        sent := some (requestFrame (s.client.transactionId+1) call.op.function call.op.data) } := by
  obtain ⟨_,ht,_⟩ := unread_nil call hn
  obtain ⟨hid,hp,hl⟩ := (s.reply call).header_words []
  rw [append_nil,← ht,← header_total] at hid hp hl
  rw [word_append _ _ 0 (by omega),show (s.reply call).txId = s.client.transactionId+1 from rfl]
    at hid
  rw [word_append _ _ 2 (by omega)] at hp
  rw [word_append _ _ 4 (by omega)] at hl
  have ha := (s.reply call).length_accepted
  rw [← hl] at ha
  rw [transaction_receive s call ho,receive_own _ h hid hp ha,hl]
  rfl

theorem own_body (h : 7 ≤ (s.inTime call).length) :
    (s.inTime call).drop 7++(s.exchange call).body = (s.arrived call).drop 7 := by
  rw [drop_append_of_le_length h]

theorem took_torn (ho : s.client.socket.isOpen = true) (hn : s.unread = [])
    (h : 7 ≤ (s.inTime call).length)
    (hs : (s.arrived call).length < 7+call.response.length) :
    s.Took call (s.arrived call).length false := by
  have ht := own_receive call ho hn h
  have hl : (UInt16.ofNat (1+call.response.length)).toNat = 1+call.response.length :=
    (s.reply call).length_word
  have hln : 7 ≤ (s.arrived call).length := by
    rw [length_append]
    omega
  rw [receiveBody, own_body call h, readExact, hl, if_neg (by rw [length_drop]; omega)] at ht
  refine ⟨by rw [ht]; rfl,by rw [ht]; rfl,by rw [ht]; rfl,?_,fun _ => ⟨_,by rw [ht]; rfl⟩⟩
  rw [ht]
  exact drop_of_append (body_total s call)

theorem took_whole (ho : s.client.socket.isOpen = true) (hn : s.unread = [])
    (h : 7 ≤ (s.inTime call).length)
    (hw : 7+call.response.length ≤ (s.arrived call).length) :
    s.Took call (s.total call).length true ∧
      (s.client.transaction call.op (s.exchange call)).result =
        checkBody call.op.function call.response := by
  have ht := own_receive call ho hn h
  have hln : (UInt16.ofNat (1+call.response.length)).toNat = 1+call.response.length :=
    (s.reply call).length_word
  obtain ⟨_,htt,_⟩ := unread_nil call hn
  have hb : (s.total call).length = 7+call.response.length := by
    rw [htt,Reply.bytes_length]
    rfl
  -- the windows brought exactly the reply, so nothing is left on the stream
  have ha := body_total s call
  have hl := congrArg List.length ha
  rw [length_append,hb] at hl
  have hr : (s.coming call).drop (call.header+call.body) = [] := by
    apply length_eq_zero_iff.mp
    omega
  rw [hr,append_nil] at ha
  rw [receiveBody, own_body call h, ha, readExact, hln, if_pos (by rw [length_drop]; omega)] at ht
  have hbd : ((s.total call).drop 7).take (1+call.response.length-1) = call.response := by
    have := (s.reply call).body_of_bytes []
    rw [append_nil,← htt] at this
    rw [Nat.add_sub_cancel_left]
    exact this
  refine ⟨⟨by rw [ht],by rw [ht],by rw [ht],?_,fun hf => by cases hf⟩,by rw [ht,hbd]⟩
  rw [ht,hr,append_nil,drop_drop,drop_length]
  exact drop_eq_nil_of_le (by omega)

variable {outstanding : List Reply}

theorem total_sent (h : s.unread = sent outstanding) :
    s.total call = sent (outstanding++[s.reply call]) := by
  rw [total,coming,← append_assoc]
  change s.unread++_ = _
  rw [h]
  simp [sent]

theorem silent_nothing (h : s.Silent call) : (s.inTime call).length = 0 := by
  simp [exchange,h.1,h.2]

theorem nothing_silent (h : (s.inTime call).length = 0) : s.Silent call := by
  have hp := coming_pos s call
  rw [length_append] at h
  have hh : ((s.coming call).take call.header).length = 0 := by
    change (s.exchange call).header.length = 0
    omega
  rw [length_take] at hh
  exact ⟨length_eq_zero_iff.mp (by omega),by omega⟩

theorem whole_windows (h : s.Whole call) :
    7 ≤ (s.inTime call).length ∧ 7+call.response.length ≤ (s.arrived call).length := by
  obtain ⟨hn,hh,ha⟩ := h
  obtain ⟨hs,_,hc⟩ := unread_nil call hn
  have hb : (s.reply call).bytes.length = 7+call.response.length := (s.reply call).bytes_length
  simp only [exchange,hs,hc,length_append,length_take,length_drop,hb]
  omega

theorem windows_whole (hn : s.unread = [])
    (hh : 7 ≤ (s.inTime call).length)
    (ha : 7+call.response.length ≤ (s.arrived call).length) : s.Whole call := by
  obtain ⟨hs,_,hc⟩ := unread_nil call hn
  simp only [exchange,hs,hc,length_nil,length_append,length_take,length_drop] at hh ha
  exact ⟨hn,by omega,by omega⟩

/-- A transaction that starts on a reply boundary is silent, tears the first reply it finds,
or takes the whole of its own. -/
theorem took_cases (ho : s.client.socket.isOpen = true) (hu : s.unread = sent outstanding)
    (hot : ∀ r ∈ outstanding, r.txId ≠ s.client.transactionId+1) :
    (s.Silent call ∧ s.Took call 0 false) ∨
      (¬s.Silent call ∧ ¬s.Whole call ∧ ∃ r rest consumed,
        outstanding++[s.reply call] = r::rest ∧ 0 < consumed ∧ consumed < r.bytes.length ∧
          s.Took call consumed false) ∨
      (s.Whole call ∧ s.Took call (s.total call).length true ∧
        (s.client.transaction call.op (s.exchange call)).result =
          checkBody call.op.function call.response) := by
  obtain ⟨r,rest,hf⟩ := exists_cons_of_ne_nil
    (l := outstanding++[s.reply call]) (append_ne_nil_of_right_ne_nil _ (by simp))
  have hl := r.bytes_length
  have hp := length_pos_iff.mpr r.sized.1
  by_cases hs : (s.inTime call).length < 7
  · have ht := took_short call ho hs
    by_cases hz : (s.inTime call).length = 0
    · rw [hz] at ht
      exact .inl ⟨nothing_silent call hz,ht⟩
    · refine .inr (.inl ⟨?_,?_,r,rest,_,hf,Nat.pos_of_ne_zero hz,by omega,ht⟩)
      · intro h
        exact hz (silent_nothing call h)
      · intro h
        have := (whole_windows call h).1
        omega
  · have hh : 7 ≤ (s.inTime call).length := by omega
    have hns : ¬s.Silent call := by
      intro h
      have := silent_nothing call h
      omega
    cases outstanding with
    | nil =>
      have hn : s.unread = [] := hu
      cases hf
      by_cases ha : 7+call.response.length ≤ (s.arrived call).length
      · exact .inr (.inr ⟨windows_whole call hn hh ha,took_whole call ho hn hh ha⟩)
      · have ht := took_torn call ho hn hh (by omega)
        refine .inr (.inl ⟨hns,?_,_,_,_,rfl,?_,?_,ht⟩)
        · intro h
          exact ha (whole_windows call h).2
        · rw [length_append]
          omega
        · rw [hl]
          exact not_le.mp ha
    | cons late others =>
      cases hf
      have hid : getU16 (s.total call) 0 ≠ s.client.transactionId+1 := by
        rw [total_sent call hu,cons_append,sent,map_cons,flatten_cons,(r.header_words _).1]
        exact hot r mem_cons_self
      refine .inr (.inl ⟨hns,?_,_,_,7,rfl,by decide,by omega,took_other call ho hh hid⟩)
      intro h
      have hsm := congrArg List.length h.1
      rw [hu,sent,map_cons,flatten_cons,length_append,hl,length_nil] at hsm
      omega

end Taking

def recent (transactionId : UInt16) : ℕ → List UInt16
  | 0 => []
  | n+1 => recent (transactionId-1) n++[transactionId]

theorem recent_other {tid : UInt16} {n : ℕ} (hn : n ≤ 2) : ∀ txId ∈ recent tid n, txId ≠ tid+1 := by
  have ho : tid ≠ tid+1 := by
    intro h
    have := congrArg (fun id => id-tid) h
    simp at this
  have ht : tid-1 ≠ tid+1 := by
    grind
  match n with
  | 0 => simp [recent]
  | 1 =>
    intro txId h
    rw [recent,recent,nil_append,mem_singleton] at h
    rw [h]
    exact ho
  | 2 =>
    intro txId h
    rw [recent,recent,recent,nil_append,cons_append,nil_append,mem_cons,mem_singleton] at h
    rcases h with rfl | rfl
    · exact ht
    · exact ho

/-- The replies under way are those of the transactions that have failed since the last
answer. -/
structure Aligned (s : Line) (settled outstanding : List Reply) : Prop where
  isOpen : s.client.socket.isOpen = true
  replies : s.replies = settled++outstanding
  unread : s.unread = sent outstanding
  failures : s.client.consecutiveFailures ≤ 2
  ids : outstanding.map Reply.txId = recent s.client.transactionId s.client.consecutiveFailures

theorem Aligned.others {s : Line} {settled outstanding : List Reply}
    (h : s.Aligned settled outstanding) :
    ∀ r ∈ outstanding, r.txId ≠ s.client.transactionId+1 := by
  intro r hr
  apply recent_other h.failures
  rw [← h.ids]
  exact mem_map_of_mem hr

structure Sound (s : Line) : Prop where
  aligned : s.client.connected = true → ∃ settled outstanding, s.Aligned settled outstanding
  own : ∀ entry ∈ s.log, ∀ data, entry.1 = .ok data → data = entry.2.drop 1

section Stepping
variable (s : Line) (call : Call)

structure Continues (failures : ℕ) (unread : Bytes) : Prop where
  connected : (s.step call).client.connected = true
  isOpen : (s.step call).client.socket.isOpen = true
  txId : (s.step call).client.transactionId = s.client.transactionId+1
  failures : (s.step call).client.consecutiveFailures = failures
  unread : (s.step call).unread = unread

theorem step_connected (hc : s.client.connected = true) :
    s.step call =
      { client := (s.client.transacted
          (s.client.transaction call.op (s.exchange call))).noteTransactionResult
            (s.client.transaction call.op (s.exchange call)).peerResponded
        pending := (s.coming call).drop (call.header+call.body)
        replies := s.replies++[s.reply call]
        log := s.log++[((s.client.transaction call.op (s.exchange call)).result,
          call.response)] } := by
  rw [step, if_neg (by simp [hc]), s.client.perform_notes call.op _ hc call.admitted]

variable {consumed : ℕ}

theorem failed_continues (hc : s.client.connected = true) (ht : s.Took call consumed false)
    (hl : s.client.consecutiveFailures < 2) :
    s.Continues call (s.client.consecutiveFailures+1) ((s.total call).drop consumed) := by
  have hn : (s.client.transacted (s.client.transaction call.op
      (s.exchange call))).noteTransactionResult false =
        { s.client.transacted (s.client.transaction call.op (s.exchange call)) with
          consecutiveFailures := s.client.consecutiveFailures+1 } := by
    rw [Client.noteTransactionResult,if_neg (by simp),if_pos]
    · rfl
    · exact Nat.succ_lt_succ hl
  have hs := step_connected s call hc
  rw [ht.responded,hn] at hs
  exact ⟨by rw [hs]; exact hc,by rw [hs]; exact ht.isOpen,
    by rw [hs]; exact ht.txId,by rw [hs],by rw [hs]; exact ht.rest⟩

theorem answered_continues (hc : s.client.connected = true) (ht : s.Took call consumed true) :
    s.Continues call 0 ((s.total call).drop consumed) := by
  have hs := step_connected s call hc
  rw [ht.responded] at hs
  exact ⟨by rw [hs]; exact hc,by rw [hs]; exact ht.isOpen,
    by rw [hs]; exact ht.txId,by rw [hs]; rfl,by rw [hs]; exact ht.rest⟩

theorem third_failure_drops (hc : s.client.connected = true) (ht : s.Took call consumed false)
    (htw : s.client.consecutiveFailures = 2) : (s.step call).client.connected = false := by
  rw [step_connected s call hc,ht.responded]
  exact (note_third_failure
    (s.client.transacted (s.client.transaction call.op (s.exchange call))) htw).1

theorem step_log (hc : s.client.connected = true)
    (ho : ∀ data, (s.client.transaction call.op (s.exchange call)).result = .ok data →
      data = call.response.drop 1)
    (hl : ∀ entry ∈ s.log, ∀ data, entry.1 = .ok data → data = entry.2.drop 1) :
    ∀ entry ∈ (s.step call).log, ∀ data, entry.1 = .ok data → data = entry.2.drop 1 := by
  rw [step_connected s call hc]
  intro entry he
  rcases mem_append.mp he with h | h
  · exact hl entry h
  · rw [mem_singleton.mp h]
    exact ho

theorem failed_own (ht : s.Took call consumed false) :
    ∀ data, (s.client.transaction call.op (s.exchange call)).result = .ok data →
      data = call.response.drop 1 := by
  intro data hd
  obtain ⟨error,he⟩ := ht.failed rfl
  rw [he] at hd
  cases hd

theorem check_body_data {fn : UInt8} {body data : Bytes}
    (h : checkBody fn body = .ok data) : data = body.drop 1 := by
  rw [checkBody] at h
  split_ifs at h
  cases h
  rfl

theorem step_replies (hc : s.client.connected = true) :
    (s.step call).replies = s.replies++[s.reply call] := by
  rw [step_connected s call hc]

variable {settled outstanding : List Reply}

theorem Aligned.silent {s : Line} {call : Call} (h : s.Aligned settled outstanding)
    (hc : s.client.connected = true) (ht : s.Took call 0 false)
    (hl : s.client.consecutiveFailures < 2) :
    (s.step call).Aligned settled (outstanding++[s.reply call]) := by
  have hn := failed_continues s call hc ht hl
  refine ⟨hn.isOpen,?_,?_,?_,?_⟩
  · rw [step_replies s call hc,h.replies,append_assoc]
  · rw [hn.unread,drop_zero,total_sent call h.unread]
  · rw [hn.failures]
    exact hl
  · rw [hn.txId,hn.failures,recent,map_append,h.ids,UInt16.add_sub_cancel]
    rfl

theorem Aligned.whole {s : Line} {call : Call} (hc : s.client.connected = true)
    (ht : s.Took call (s.total call).length true) :
    (s.step call).Aligned (s.step call).replies [] := by
  have hn := answered_continues s call hc ht
  refine ⟨hn.isOpen,by rw [append_nil],?_,?_,?_⟩
  · rw [hn.unread,drop_length]
    rfl
  · rw [hn.failures]
    decide
  · rw [hn.failures]
    rfl

theorem sound_step (h : s.Sound) (htm : s.Timely call) : (s.step call).Sound := by
  by_cases hc : s.client.connected = true
  · obtain ⟨settled,outstanding,ha⟩ := h.aligned hc
    have hf := ha.failures
    obtain ⟨_,ht⟩ | ⟨hn,hp,r,rest,consumed,_,_,_,ht⟩ | ⟨_,ht,hr⟩ :=
      took_cases call ha.isOpen ha.unread ha.others
    · refine ⟨fun hs => ?_,step_log s call hc (failed_own s call ht) h.own⟩
      by_cases htw : s.client.consecutiveFailures = 2
      · rw [third_failure_drops s call hc ht htw] at hs
        cases hs
      · exact ⟨settled,_,ha.silent hc ht (by omega)⟩
    · refine ⟨fun hs => ?_,step_log s call hc (failed_own s call ht) h.own⟩
      obtain hsl | hw | htw := htm hc
      · exact absurd hsl hn
      · exact absurd hw hp
      · rw [third_failure_drops s call hc ht htw] at hs
        cases hs
    · refine ⟨fun _ => ⟨_,[],Aligned.whole hc ht⟩,step_log s call hc ?_ h.own⟩
      intro data hd
      rw [hr] at hd
      exact check_body_data hd
  · have hsm : s.step call = s := by
      rw [step,if_pos (by simpa using hc)]
    rw [hsm]
    exact h

theorem Aligned.in_step {s : Line} (h : s.Aligned settled outstanding) : s.AtBoundary := by
  refine ⟨settled.length,?_⟩
  rw [h.unread,h.replies,drop_left]

theorem sound_in_step (h : s.Sound) : s.InStep := by
  refine ⟨fun hc => ?_,h.own⟩
  obtain ⟨settled,outstanding,ha⟩ := h.aligned hc
  exact ha.in_step

end Stepping

theorem sent_drop_le (replies : List Reply) (m n : ℕ) (h : m ≤ n) :
    (sent (replies.drop n)).length ≤ (sent (replies.drop m)).length := by
  have hs : replies.drop m = (replies.drop m).take (n-m)++replies.drop n := by
    conv_lhs => rw [← take_append_drop (n-m) (replies.drop m)]
    rw [drop_drop,show m+(n-m) = n by omega]
  rw [hs,sent,sent,map_append,flatten_append,length_append]
  omega

theorem no_boundary_inside (settled rest : List Reply) {r : Reply} {consumed : ℕ}
    (hp : 0 < consumed) (hls : consumed < r.bytes.length) (n : ℕ) :
    (sent (r::rest)).drop consumed ≠ sent ((settled++r::rest).drop n) := by
  intro h
  have hl := congrArg List.length h
  have ha : sent ((settled++r::rest).drop settled.length) = r.bytes++sent rest := by
    rw [drop_left,sent,map_cons,flatten_cons]
    rfl
  have hb : sent ((settled++r::rest).drop (settled.length+1)) = sent rest := by
    rw [← drop_drop,drop_left]
    rfl
  have hf : sent (r::rest) = r.bytes++sent rest := by
    rw [sent,map_cons,flatten_cons]
    rfl
  rw [hf,length_drop,length_append] at hl
  by_cases hn : n ≤ settled.length
  · have := sent_drop_le (settled++r::rest) n settled.length hn
    rw [ha,length_append] at this
    omega
  · have := sent_drop_le (settled++r::rest) (settled.length+1) n (by omega)
    rw [hb] at this
    omega

theorem late_out_of_step (s : Line) (call : Call) (h : s.Sound) (hl : ¬s.Timely call) :
    ¬(s.step call).InStep := by
  rw [Timely,Classical.not_imp] at hl
  obtain ⟨hc,hb⟩ := hl
  obtain ⟨settled,outstanding,ha⟩ := h.aligned hc
  have hfl := ha.failures
  obtain ⟨hs,_⟩ | ⟨_,_,r,rest,consumed,hf,hp,hls,htk⟩ | ⟨hw,_⟩ :=
    took_cases call ha.isOpen ha.unread ha.others
  · exact absurd (.inl hs) hb
  · have ht : s.client.consecutiveFailures ≠ 2 := fun ht => hb (.inr (.inr ht))
    have hnx := failed_continues s call hc htk (by omega)
    intro hst
    obtain ⟨n,hn⟩ := hst.boundary hnx.connected
    rw [hnx.unread,total_sent call ha.unread,hf,
      step_replies s call hc,ha.replies,append_assoc,hf] at hn
    exact no_boundary_inside settled rest hp hls n hn
  · exact absurd (.inr (.inl hw)) hb

theorem start_sound : start.Sound where
  aligned _ := ⟨[],[],⟨rfl,rfl,rfl,by decide,rfl⟩⟩
  own := by simp [start]

/-- The client stays in step with a server that answers late exactly as long as each reply
comes whole and with no other before it, or no byte comes at all while the client waits, or
the transaction is the third to fail in a row. -/
theorem in_step_iff (calls : List Call) :
    (∀ before after, calls = before++after → (run step start before).InStep) ↔
      Meets step Timely start calls :=
  always_iff_meets step Timely Sound InStep sound_step sound_in_step late_out_of_step start calls
    start_sound

/-- A register is read twice. The reply to the first read comes after its time, together
with the reply to the second. -/
def lateCalls : List Call :=
  [⟨.readHoldingRegisters 0 1,rfl,0xFF,[3,2,0,7],by decide,0,0⟩,
    ⟨.readHoldingRegisters 0 1,rfl,0xFF,[3,2,0,8],by decide,22,0⟩]

/-- The second read takes the header of the late reply; a third will start behind it. -/
theorem late_reply_torn :
    (run step start lateCalls).client.connected = true ∧
      (run step start lateCalls).unread = [3,2,0,7]++frame 2 0xFF [3,2,0,8] ∧
      ¬(run step start lateCalls).AtBoundary := by
  refine ⟨by decide,by decide,?_⟩
  rintro ⟨n,hn⟩
  have hl := congrArg List.length hn
  match n with
  | 0 => exact absurd hl (by decide)
  | 1 => exact absurd hl (by decide)
  | n+2 =>
    have hr : (run step start lateCalls).replies.length = 2 := rfl
    rw [drop_eq_nil_of_le (by omega)] at hl
    exact absurd hl (by decide)

end Line

end EMaster.ModbusClient
