import EMaster.ModbusClient

/-!
# The TCP slave and a client on one connection

The slave reads a header of seven bytes and the bytes that its length announces, serves
what it takes for the request and writes the response. Here the two ends are joined: the
client's requests reach the slave and its answers the client without delay.
-/

set_option autoImplicit false

namespace EMaster.ModbusTcp
open Bytes ModbusStore ModbusProtocol ModbusClient Runs List

/-- The slave's side of a connection: the bytes it has not read yet, what it handed on as
unit and PDU, and what it wrote. -/
structure Served where
  store : Store
  unread : Bytes
  isOpen : Bool
  handed : List (UInt8×Bytes)
  written : List Bytes

def serveBody (unitId : UInt8) (s : Served) (transaction : UInt16) (body : Bytes) : Served :=
  if body.headD 0 ≠ unitId then s
  else
    let handled := handle s.store (body.drop 1)
    let s := { s with store := handled.store, handed := s.handed++[(body.headD 0,body.drop 1)] }
    match handled.reply with
    | none => { s with isOpen := false }
    | some response => { s with written := s.written++[frame transaction unitId response] }

/-- One pass of the loop, unless it has ended or waits for bytes. -/
def serveClientOnce (unitId : UInt8) (s : Served) : Option Served :=
  if s.isOpen = false ∨ s.unread.length < 7 then none
  else
    let length := getU16 s.unread 4
    if getU16 s.unread 2 ≠ 0 ∨ length < 2 ∨ 253 < length then
      some { s with unread := s.unread.drop 7, isOpen := false }
    else if s.unread.length < 7+(length.toNat-1) then none
    else
      some (serveBody unitId { s with unread := s.unread.drop (7+(length.toNat-1)) }
        (getU16 s.unread 0) ((s.unread.drop 7).take (length.toNat-1)))

def serve (unitId : UInt8) : ℕ → Served → Served
  | 0, s => s
  | passes+1, s =>
    match serveClientOnce unitId s with
    | none => s
    | some served => serve unitId passes served

/-- The loop until it ends or waits; no pass leaves the unread bytes as many as they were. -/
def serveClient (unitId : UInt8) (s : Served) : Served := serve unitId s.unread.length s

/-- The bytes that a handed request takes, if it came with a header and a unit. -/
def weight (handed : List (UInt8×Bytes)) : ℕ := (handed.map (fun h => 8+h.2.length)).sum

variable (unit : UInt8) (s : Served)

theorem serve_body_unread (transaction : UInt16) (body : Bytes) :
    (serveBody unit s transaction body).unread = s.unread := by
  rw [serveBody]
  split_ifs
  · rfl
  · dsimp only
    split <;> rfl

theorem serve_body_weight (transaction : UInt16) (body : Bytes) (h : body ≠ []) :
    weight (serveBody unit s transaction body).handed ≤ weight s.handed+7+body.length := by
  have hp := length_pos_iff.mpr h
  have hh : weight (s.handed++[(body.headD 0,body.drop 1)]) =
      weight s.handed+7+body.length := by
    rw [weight,map_append,sum_append,weight]
    simp
    omega
  rw [serveBody]
  split_ifs
  · omega
  · dsimp only
    split
    · rw [hh]
    · rw [hh]

theorem pass_shrinks (served : Served) (h : serveClientOnce unit s = some served) :
    served.unread.length < s.unread.length ∧
      weight served.handed+served.unread.length ≤ weight s.handed+s.unread.length := by
  rw [serveClientOnce] at h
  split_ifs at h with hi
  dsimp only at h
  split_ifs at h with hr hs
  · cases h
    dsimp only
    rw [length_drop]
    omega
  · cases h
    rw [not_or] at hi hr
    have hl : 2 ≤ (getU16 s.unread 4).toNat := by
      have := (not_or.mp hr.2).1
      rw [UInt16.lt_iff_toNat_lt] at this
      exact not_lt.mp this
    have hb : ((s.unread.drop 7).take ((getU16 s.unread 4).toNat-1)).length =
        (getU16 s.unread 4).toNat-1 := by
      rw [length_take,length_drop]
      omega
    have hw := serve_body_weight unit
      { s with unread := s.unread.drop (7+((getU16 s.unread 4).toNat-1)) }
      (getU16 s.unread 0) ((s.unread.drop 7).take ((getU16 s.unread 4).toNat-1))
      (ne_nil_of_length_pos (by omega))
    rw [hb] at hw
    rw [serve_body_unread]
    dsimp only at hw ⊢
    rw [length_drop]
    omega

theorem serve_weight (passes : ℕ) (s : Served) :
    weight (serve unit passes s).handed+(serve unit passes s).unread.length ≤
      weight s.handed+s.unread.length := by
  induction passes generalizing s with
  | zero => rfl
  | succ passes ih =>
    rw [serve]
    cases hp : serveClientOnce unit s with
    | none => rfl
    | some served => exact (ih served).trans (pass_shrinks unit s _ hp).2

/-- A connection with both its ends, and for each request what the client made of the
answer, if there was one. -/
structure Session where
  socket : Socket
  transactionId : UInt16
  slave : Served
  results : List (Option (Except Text Bytes))

def Session.start (transactionId : UInt16) (store : Store) : Session :=
  ⟨⟨true,[]⟩,transactionId,⟨store,[],true,[],[]⟩,[]⟩

def sent (s : Session) (function : UInt8) (data : Bytes) : Bytes :=
  if s.socket.isOpen then requestFrame (s.transactionId+1) function data else []

def reached (unitId : UInt8) (s : Session) (function : UInt8) (data : Bytes) : Served :=
  serveClient unitId { s.slave with unread := s.slave.unread++sent s function data, written := [] }

def request (unitId : UInt8) (s : Session) (r : UInt8×Bytes) : Session :=
  let slave := reached unitId s r.1 r.2
  let t := transact s.socket s.transactionId r.1 r.2 ⟨true,slave.written.flatten,[],!slave.isOpen⟩
  { socket := t.socket
    transactionId := t.transactionId
    slave := slave
    results := s.results++[if t.peerResponded then some t.result else none] }

def session (transactionId : UInt16) (store : Store) (requests : List (UInt8×Bytes)) : Session :=
  run (request kUnitId) (Session.start transactionId store) requests

/-- What the client would make of the responses, were the PDUs handed to the protocol. -/
def direct (store : Store) : List (UInt8×Bytes) → List (Option (Except Text Bytes))
  | [] => []
  | (function,data)::requests =>
    (handle store (function::data)).reply.map (checkBody function)::
      direct (handle store (function::data)).store requests

/-- The slave decodes each request into the unit and the PDU that were sent, and the client
sees the responses to those. -/
structure Faithful (transactionId : UInt16) (store : Store) (requests : List (UInt8×Bytes)) :
    Prop where
  handed : (session transactionId store requests).slave.handed =
    requests.map (fun r => (kUnitId,r.1::r.2))
  results : (session transactionId store requests).results = direct store requests

theorem sent_length (s : Session) (fn : UInt8) (data : Bytes) :
    (sent s fn data).length ≤ 8+data.length := by
  rw [sent]
  split_ifs
  · simp [requestFrame,frame,putU16]
    omega
  · exact Nat.zero_le _

theorem request_weight (s : Session) (r : UInt8×Bytes) :
    weight (request unit s r).slave.handed+(request unit s r).slave.unread.length ≤
      weight s.slave.handed+s.slave.unread.length+(8+r.2.length) := by
  have hs := sent_length s r.1 r.2
  calc
    _ ≤ weight s.slave.handed+(s.slave.unread++sent s r.1 r.2).length := serve_weight unit _ _
    _ ≤ _ := by
      rw [length_append]
      omega

theorem session_weight (reqs : List (UInt8×Bytes)) (s : Session) :
    weight (run (request unit) s reqs).slave.handed ≤
      weight s.slave.handed+s.slave.unread.length+ (reqs.map (fun r => 8+r.2.length)).sum := by
  induction reqs generalizing s with
  | nil =>
    simp only [run,map_nil,sum_nil]
    omega
  | cons r reqs ih =>
    have hh := request_weight unit s r
    have ht := ih (request unit s r)
    rw [run,map_cons,sum_cons]
    omega

theorem weight_of_requests (reqs : List (UInt8×Bytes)) :
    weight (reqs.map (fun r => (kUnitId,r.1::r.2))) =
      (reqs.map (fun r => 8+r.2.length)).sum+reqs.length := by
  induction reqs with
  | nil => rfl
  | cons r reqs ih =>
    rw [weight] at ih ⊢
    rw [map_cons,map_cons,sum_cons,ih,map_cons,sum_cons,length_cons,length_cons]
    omega

/-- No request is decoded as it was sent: a PDU that came with a header of seven bytes would
have to have been one byte longer. -/
theorem faithful_iff (transactionId : UInt16) (store : Store)
    (requests : List (UInt8×Bytes)) :
    Faithful transactionId store requests ↔ requests = [] := by
  constructor
  · intro h
    have hw := session_weight kUnitId requests (Session.start transactionId store)
    have hh : (run (request kUnitId) (Session.start _ store) requests).slave.handed = _ := h.handed
    rw [hh,weight_of_requests] at hw
    have hs : weight (Session.start transactionId store).slave.handed+
      (Session.start transactionId store).slave.unread.length = 0 := rfl
    rw [hs] at hw
    exact length_eq_zero_iff.mp (by omega)
  · rintro rfl
    exact ⟨rfl,rfl⟩

def registerStore : Store :=
  run Store.call Store.initial
    [.configure .kHoldingRegisters ⟨0,1⟩,.writeRegisters .kHoldingRegisters 0 [7]]

/-- The register is read. The slave takes the function for the unit and does not answer. -/
theorem read_unanswered :
    (session 0 registerStore [(3,[0,0,0,1])]).slave.handed = [] ∧
      (session 0 registerStore [(3,[0,0,0,1])]).results.map Option.isSome = [false] ∧
      (handle registerStore [3,0,0,0,1]).reply = some [2,0,7] :=
  ⟨by decide,by decide,by decide⟩

end EMaster.ModbusTcp
