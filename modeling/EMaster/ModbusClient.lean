import EMaster.ModbusProtocol

/-!
# The TCP client

The client sends a request under a new transaction identifier and reads the header and
then the body of the response, each for at most two seconds. What a read that falls short
has taken off the stream is lost. Three transactions in a row without an answer close the
connection.
-/

set_option autoImplicit false

namespace EMaster.ModbusClient
open Bytes ModbusProtocol Runs

def kUnitId : UInt8 := 0xFF

def frame (txId : UInt16) (unitId : UInt8) (pdu : Bytes) : Bytes :=
  putU16 txId++(putU16 0++(putU16 (UInt16.ofNat (1+pdu.length))++unitId::pdu))

def requestFrame (txId : UInt16) (function : UInt8) (data : Bytes) : Bytes :=
  frame txId kUnitId (function::data)

/-- The socket: whether it is open, and what has come in and is not read yet. -/
structure Socket where
  isOpen : Bool
  stream : Bytes
  deriving DecidableEq, Repr

/-- What the network does during a transaction: whether it takes the request, what comes in
until the header has been read or its time is up, what comes in after that, and whether the
peer then closes. -/
structure Exchange where
  sends : Bool
  (header body : Bytes)
  closes : Bool
  deriving DecidableEq, Repr

def readExact (available : Bytes) (count : ℕ) : Option Bytes×Bytes :=
  if count ≤ available.length then (some (available.take count),available.drop count)
  else (none,[])

def meaning (exceptionCode : UInt8) : Text :=
  (if exceptionCode = 1 then
    " (illegal function - the PLC does not support this function code)"
  else if exceptionCode = 2 then
    " (illegal data address - no such address on this PLC)"
  else if exceptionCode = 3 then " (illegal data value)"
  else if exceptionCode = 4 then " (device failure)"
  else "").toList

def exceptionError (exceptionCode : UInt8) : Text :=
  "Modbus exception 0x"++(Nat.repr exceptionCode.toNat).toList++meaning exceptionCode

def checkBody (function : UInt8) (body : Bytes) : Except Text Bytes :=
  if functionOf body = function ||| 0x80 then .error (exceptionError (body.getD 1 0))
  else if functionOf body ≠ function then
    .error "unexpected function code in response"
  else .ok (body.drop 1)

/-- What a transaction leaves: peerResponded is set once a complete frame has come in, and
sent is the request if it went out. -/
structure Transacted where
  socket : Socket
  transactionId : UInt16
  peerResponded : Bool
  result : Except Text Bytes
  sent : Option Bytes := none

def failed (socket : Socket) (txId : UInt16) (error : String) : Transacted :=
  { socket := socket, transactionId := txId, peerResponded := false, result := .error error.toList }

def receiveBody (socket : Socket) (txId : UInt16) (function : UInt8) (length : UInt16)
    (closes : Bool) : Transacted :=
  match readExact socket.stream (length.toNat-1) with
  | (none,rest) => failed ⟨!closes,rest⟩ txId "incomplete response"
  | (some body,rest) =>
    { socket := ⟨true,rest⟩
      transactionId := txId
      peerResponded := true
      result := checkBody function body }

def receive (socket : Socket) (txId : UInt16) (function : UInt8) (x : Exchange) : Transacted :=
  match readExact (socket.stream++x.header) 7 with
  | (none,rest) => failed ⟨!x.closes,rest++x.body⟩ txId "no response (timeout)"
  | (some header,rest) =>
    let socket := ⟨true,rest++x.body⟩
    if getU16 header 0 ≠ txId then failed socket txId "transaction ID mismatch"
    else if getU16 header 2 ≠ 0 then failed socket txId "invalid protocol ID in response"
    else if getU16 header 4 < 2 ∨ 253 < getU16 header 4 then
      failed socket txId "invalid length in response"
    else receiveBody socket txId function (getU16 header 4) x.closes

def transact (socket : Socket) (transactionId : UInt16) (function : UInt8) (data : Bytes)
    (x : Exchange) : Transacted :=
  if socket.isOpen = false then failed socket transactionId "not connected"
  else if x.sends = false then
    failed { socket with isOpen := false } (transactionId+1) "send failed"
  else
    { receive socket (transactionId+1) function x with
      sent := some (requestFrame (transactionId+1) function data) }

inductive Values where
  | nothing
  | bits (values : List Bool)
  | registers (values : List UInt16)
  deriving DecidableEq, Repr

inductive Operation where
  | readCoils (address count : ℤ)
  | readDiscreteInputs (address count : ℤ)
  | readHoldingRegisters (address count : ℤ)
  | readInputRegisters (address count : ℤ)
  | writeCoil (address : ℤ) (value : Bool)
  | writeCoils (address : ℤ) (values : List Bool)
  | writeHoldingRegister (address : ℤ) (value : UInt16)
  | writeHoldingRegisters (address : ℤ) (values : List UInt16)
  deriving DecidableEq, Repr

namespace Operation

def function : Operation → UInt8
  | readCoils _ _ => 1
  | readDiscreteInputs _ _ => 2
  | readHoldingRegisters _ _ => 3
  | readInputRegisters _ _ => 4
  | writeCoil _ _ => 5
  | writeHoldingRegister _ _ => 6
  | writeCoils _ _ => 15
  | writeHoldingRegisters _ _ => 16

def word (n : ℤ) : Bytes := putU16 (UInt16.ofInt n)

def data : Operation → Bytes
  | readCoils address count | readDiscreteInputs address count
  | readHoldingRegisters address count | readInputRegisters address count =>
    word address++word count
  | writeCoil address value => word address++putU16 (if value then 0xFF00 else 0)
  | writeHoldingRegister address value => word address++putU16 value
  | writeCoils address values =>
    word address++word values.length++UInt8.ofNat ((values.length+7)/8)::packBits values
  | writeHoldingRegisters address values =>
    word address++word values.length++ UInt8.ofNat (values.length*2)::values.flatMap putU16

def admitted : Operation → Bool
  | readCoils _ count | readDiscreteInputs _ count | readHoldingRegisters _ count
  | readInputRegisters _ count => 0 < count
  | writeCoil _ _ | writeHoldingRegister _ _ => true
  | writeCoils _ values => !values.isEmpty
  | writeHoldingRegisters _ values => !values.isEmpty

def emptyError : Text := "empty response"

def decodeBits (count : ℤ) (response : Bytes) : Except Text Values :=
  if response = [] then .error emptyError
  else .ok (.bits (((List.range count.toNat).takeWhile
    (fun i => 1+i/8 < response.length)).map (bitAt response 1)))

def decodeRegisters (response : Bytes) : Except Text Values :=
  if response = [] then .error emptyError
  else .ok (.registers (((List.range ((response.getD 0 0).toNat/2)).takeWhile
    (fun i => 1+i*2+1 < response.length)).map (fun i => getU16 response (1+i*2))))

def decode (response : Bytes) : Operation → Except Text Values
  | readCoils _ count | readDiscreteInputs _ count => decodeBits count response
  | readHoldingRegisters _ _ | readInputRegisters _ _ => decodeRegisters response
  | _ => .ok .nothing

end Operation

structure Client where
  (enabled connected : Bool)
  socket : Socket
  transactionId : UInt16
  consecutiveFailures : ℕ
  deriving DecidableEq, Repr

namespace Client

def initial : Client := ⟨false,false,⟨false,[]⟩,0,0⟩

def kFailureThreshold : ℕ := 3

def closed (c : Client) : Client := { c with socket := ⟨false,[]⟩, connected := false }

def noteTransactionResult (c : Client) (ok : Bool) : Client :=
  if ok then { c with consecutiveFailures := 0 }
  else if c.consecutiveFailures+1 < kFailureThreshold then
    { c with consecutiveFailures := c.consecutiveFailures+1 }
  else { (if c.connected then c.closed else c) with consecutiveFailures := 0 }

def transaction (c : Client) (op : Operation) (x : Exchange) : Transacted :=
  transact c.socket c.transactionId op.function op.data x

def transacted (c : Client) (t : Transacted) : Client :=
  { c with socket := t.socket, transactionId := t.transactionId }

def perform (c : Client) (op : Operation) (x : Exchange) : Client×Except Text Values :=
  if c.connected = false ∨ op.admitted = false then (c,.error [])
  else
    let t := c.transaction op x
    match t.result >>= fun response => op.decode response with
    | .error error => ((c.transacted t).noteTransactionResult t.peerResponded,.error error)
    | .ok values => ((c.transacted t).noteTransactionResult true,.ok values)

def configure (c : Client) (enabled : Bool) : Client :=
  { (if c.connected then c.closed else c) with enabled := enabled }

def connect (c : Client) (reached : Bool) : Client×Bool :=
  if c.enabled = false then (c,false)
  else if c.connected && c.socket.isOpen then (c,true)
  else if reached = false then (c.closed,false)
  else
    ({ c with
        connected := true
        socket := ⟨true,[]⟩
        transactionId := 0
        consecutiveFailures := 0 },true)

def disconnect (c : Client) : Client := c.closed

end Client

/-- A complete frame has answered, or the transaction failed and not with an exception. -/
def AnsweredOrFailed (t : Transacted) : Prop :=
  t.peerResponded = true ∨ ∃ error, t.result = .error error ∧ error.head? ≠ some 'M'

variable (socket : Socket)

theorem failed_not_answered (txId : UInt16) {error : String} (h : error.toList.head? ≠ some 'M') : AnsweredOrFailed (failed socket txId error) :=
  .inr ⟨error.toList,rfl,h⟩

theorem receive_answered_or_failed (txId : UInt16) (fn : UInt8) (x : Exchange) : AnsweredOrFailed (receive socket txId fn x) := by
  rw [receive]
  split
  · exact failed_not_answered _ _ (by decide)
  · dsimp only
    split_ifs
    · exact failed_not_answered _ _ (by decide)
    · exact failed_not_answered _ _ (by decide)
    · exact failed_not_answered _ _ (by decide)
    · rw [receiveBody]
      split
      · exact failed_not_answered _ _ (by decide)
      · exact .inl rfl

theorem transact_answered_or_failed (tid : UInt16) (fn : UInt8) (data : Bytes) (x : Exchange) :
    AnsweredOrFailed (transact socket tid fn data x) := by
  rw [transact]
  split_ifs
  · exact failed_not_answered _ _ (by decide)
  · exact failed_not_answered _ _ (by decide)
  · exact receive_answered_or_failed socket (tid+1) fn x

namespace Client

/-- The accounting is told whether the peer answered, whatever the answer was. -/
theorem perform_notes (c : Client) (op : Operation) (x : Exchange)
    (hc : c.connected = true) (hop : op.admitted = true) :
    (c.perform op x).1 =
      (c.transacted (c.transaction op x)).noteTransactionResult
        (c.transaction op x).peerResponded := by
  have hp : ¬(c.connected = false ∨ op.admitted = false) := by simp [hc,hop]
  rw [perform,if_neg hp]
  dsimp only
  split
  · rfl
  · next values hv =>
    obtain hr | ⟨error,he,_⟩ :=
      transact_answered_or_failed c.socket _ op.function op.data x
    · have : (c.transaction op x).peerResponded = true := hr
      rw [this]
    · rw [transaction,he] at hv
      cases hv

theorem exception_answered (c : Client) (op : Operation) (x : Exchange) (code : UInt8)
    (h : (c.transaction op x).result = .error (exceptionError code)) :
    (c.transaction op x).peerResponded = true := by
  obtain hr | ⟨error,he,hh⟩ :=
    transact_answered_or_failed c.socket _ op.function op.data x
  · exact hr
  · rw [transaction,he] at h
    cases h
    exact absurd rfl hh

end Client

inductive Event where
  | operation (op : Operation) (x : Exchange)
  | connect (reached : Bool)
  | disconnect
  | configure (enabled : Bool)

/-- A client, and for each transaction of the current connection, the last one first,
whether the peer answered it. -/
structure Watched where
  client : Client
  answers : List Bool

def watch (s : Watched) : Event → Watched
  | .operation op x =>
    ⟨(s.client.perform op x).1,
      if s.client.connected && op.admitted then
        (s.client.transaction op x).peerResponded::s.answers
      else s.answers⟩
  | .connect reached =>
    ⟨(s.client.connect reached).1,
      if s.client.enabled && !(s.client.connected && s.client.socket.isOpen) && reached then []
      else s.answers⟩
  | .disconnect => ⟨s.client.disconnect,s.answers⟩
  | .configure enabled => ⟨s.client.configure enabled,s.answers⟩

def watchStart : Watched := ⟨.initial,[]⟩

/-- The transactions at the end of a connection that no one answered. -/
def unansweredInARow (answers : List Bool) : ℕ := (answers.takeWhile (fun a => !a)).length

structure Counted (s : Watched) : Prop where
  bounded : s.client.consecutiveFailures ≤ 2
  counts : s.client.connected = true → s.client.consecutiveFailures = unansweredInARow s.answers

variable (c : Client)

theorem note_answer :
    (c.noteTransactionResult true).connected = c.connected ∧
      (c.noteTransactionResult true).consecutiveFailures = 0 := ⟨rfl,rfl⟩

theorem note_failure (h : c.consecutiveFailures < 2) :
    (c.noteTransactionResult false).connected = c.connected ∧
      (c.noteTransactionResult false).consecutiveFailures = c.consecutiveFailures+1 := by
  have hl : c.consecutiveFailures+1 < Client.kFailureThreshold := by
    rw [Client.kFailureThreshold]
    omega
  rw [Client.noteTransactionResult,if_neg (by simp),if_pos hl]
  exact ⟨rfl,rfl⟩

theorem note_third_failure (h : c.consecutiveFailures = 2) :
    (c.noteTransactionResult false).connected = false ∧
      (c.noteTransactionResult false).consecutiveFailures = 0 := by
  have ht : ¬c.consecutiveFailures+1 < Client.kFailureThreshold := by
    rw [Client.kFailureThreshold]
    omega
  rw [Client.noteTransactionResult,if_neg (by simp),if_neg ht]
  cases hc : c.connected with
  | true => exact ⟨rfl,rfl⟩
  | false => exact ⟨hc,rfl⟩

variable {s : Watched}

theorem counted_operation (op : Operation) (x : Exchange) (h : Counted s) :
    Counted (watch s (.operation op x)) := by
  by_cases hp : s.client.connected = true ∧ op.admitted = true
  · obtain ⟨hc,hop⟩ := hp
    have ha : (watch s (.operation op x)).answers =
        (s.client.transaction op x).peerResponded::s.answers := by simp [watch,hc,hop]
    have hcl := s.client.perform_notes op x hc hop
    have hco := h.counts hc
    have hb := h.bounded
    cases hr : (s.client.transaction op x).peerResponded with
    | true =>
      rw [hr] at hcl ha
      refine ⟨?_,fun _ => ?_⟩
      · rw [watch,hcl,(note_answer _).2]
        omega
      · rw [ha,watch,hcl,(note_answer _).2]
        rfl
    | false =>
      rw [hr] at hcl ha
      by_cases ht : s.client.consecutiveFailures = 2
      · obtain ⟨hd,hz⟩ := note_third_failure (s.client.transacted (s.client.transaction op x)) ht
        refine ⟨?_,?_⟩
        · rw [watch,hcl,hz]
          omega
        · rw [watch,hcl,hd]
          intro hcn
          cases hcn
      · have hl : s.client.consecutiveFailures < 2 := by omega
        obtain ⟨_,ho⟩ := note_failure (s.client.transacted (s.client.transaction op x)) hl
        refine ⟨?_,fun _ => ?_⟩
        · rw [watch,hcl,ho]
          exact hl
        · rw [ha,watch,hcl,ho]
          simp [Client.transacted,unansweredInARow,hco]
  · have hs : s.client.connected = false ∨ op.admitted = false := by
      cases hc : s.client.connected <;> cases hop : op.admitted <;> simp_all
    have hsm : watch s (.operation op x) = s := by
      rw [watch,Client.perform,if_pos hs,if_neg]
      rcases hs with hc | hop <;> simp [*]
    rw [hsm]
    exact h

theorem counted_closed (enabled : Bool) (h : Counted s) :
    Counted ⟨{ s.client.closed with enabled := enabled },s.answers⟩ :=
  ⟨h.bounded,fun hc => by cases hc⟩

theorem counted_connect (reached : Bool) (h : Counted s) :
    Counted (watch s (.connect reached)) := by
  by_cases he : s.client.enabled = true
  · by_cases ha : (s.client.connected && s.client.socket.isOpen) = true
    · simpa [watch,Client.connect,he,ha] using h
    · cases reached with
      | false =>
        have hc : watch s (.connect false) =
            ⟨{ s.client.closed with enabled := s.client.enabled },s.answers⟩ := by
          simp [watch,Client.connect,Client.closed,he,ha]
        rw [hc]
        exact counted_closed _ h
      | true =>
        have hd : watch s (.connect true) =
            ⟨⟨s.client.enabled,true,⟨true,[]⟩,0,0⟩,[]⟩ := by
          simp [watch,Client.connect,he,ha]
        rw [hd]
        exact ⟨Nat.zero_le 2,fun _ => rfl⟩
  · simpa [watch,Client.connect,he] using h

theorem counted_step (e : Event) (h : Counted s) : Counted (watch s e) := by
  cases e with
  | operation op x => exact counted_operation op x h
  | connect reached => exact counted_connect _ h
  | disconnect => exact counted_closed _ h
  | configure enabled =>
    cases hc : s.client.connected with
    | true =>
      have hcl : watch s (.configure enabled) =
          ⟨{ s.client.closed with enabled := enabled },s.answers⟩ := by
        simp [watch,Client.configure,hc]
      rw [hcl]
      exact counted_closed _ h
    | false =>
      have hk : watch s (.configure enabled) =
          ⟨{ s.client with enabled := enabled },s.answers⟩ := by
        simp [watch,Client.configure,hc]
      rw [hk]
      exact ⟨h.bounded,h.counts⟩

theorem counted_run (events : List Event) : Counted (run watch watchStart events) :=
  run_invariant watch _ _ (fun s e h _ => counted_step e h) _
    _ ⟨by decide,fun hc => by cases hc⟩
    (meets_of_forall watch _ _ _ (fun _ _ _ => trivial))

theorem two_in_a_row (answers : List Bool) :
    2 ≤ unansweredInARow answers ↔ [false,false] <+: answers := by
  match answers with
  | [] => simp [unansweredInARow]
  | [a] => cases a <;> simp [unansweredInARow]
  | a::b::answers => cases a <;> cases b <;> simp [unansweredInARow]

/-- The failure accounting of a client: what the counter may be, when an operation drops
the connection, and what an answer and an exception do to the counter. -/
structure Accounted (s : Watched) : Prop where
  bounded : s.client.consecutiveFailures ≤ 2
  dropped : ∀ op x, s.client.connected = true → op.admitted = true →
    ((s.client.perform op x).1.connected = false ↔
      (s.client.transaction op x).peerResponded = false ∧ [false,false] <+: s.answers)
  answered : ∀ op x, s.client.connected = true → op.admitted = true →
    (s.client.transaction op x).peerResponded = true →
    (s.client.perform op x).1.consecutiveFailures = 0
  excepted : ∀ op x code, s.client.connected = true → op.admitted = true →
    (s.client.transaction op x).result = .error (exceptionError code) →
    (s.client.perform op x).1.consecutiveFailures ≤ s.client.consecutiveFailures

/-- In every run the connection is dropped on the third transaction in a row that the peer
did not answer, and at no other. -/
theorem accounting (events : List Event) : Accounted (run watch watchStart events) := by
  have hcn := counted_run events
  set s := run watch watchStart events
  have ha : ∀ op x, s.client.connected = true → op.admitted = true →
      (s.client.transaction op x).peerResponded = true →
      (s.client.perform op x).1.consecutiveFailures = 0 := by
    intro op x hc hop hr
    rw [s.client.perform_notes op x hc hop,hr]
    rfl
  refine ⟨hcn.bounded,?_,ha,?_⟩
  · intro op x hc hop
    rw [s.client.perform_notes op x hc hop,← two_in_a_row,← hcn.counts hc]
    have hb := hcn.bounded
    have hs : (s.client.transacted (s.client.transaction op x)).connected = true := hc
    cases hr : (s.client.transaction op x).peerResponded with
    | true => simp [note_answer,hs]
    | false =>
      by_cases ht : s.client.consecutiveFailures = 2
      · rw [(note_third_failure (s.client.transacted (s.client.transaction op x)) ht).1]
        simp [ht]
      · have hl : s.client.consecutiveFailures < 2 := by omega
        rw [(note_failure (s.client.transacted (s.client.transaction op x)) hl).1,hs]
        simp
        omega
  · intro op x code hc hop he
    rw [ha op x hc hop (s.client.exception_answered op x code he)]
    exact Nat.zero_le _

end EMaster.ModbusClient
