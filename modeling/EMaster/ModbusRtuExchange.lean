import EMaster.ModbusRtuSlave

/-!
# A master and a slave on one line

The master's request reaches the slave and the slave's reply the master, each in pieces of
any kind, before the master's time is up.
-/

set_option autoImplicit false

namespace EMaster.ModbusRtu
open Bytes Framing ModbusStore ModbusProtocol Runs List Master

def slaveAfter (unitId : UInt8) (store : Store) (requestPieces : List Bytes) : Slave.Served :=
  (run (Slave.pass unitId) (Slave.start store) requestPieces).served

structure Carried (unitId : UInt8) (store : Store) (requestPdu : Bytes)
    (requestPieces replyPieces : List Bytes) : Prop where
  request : requestPieces.flatten = buildModbusRtuFrame unitId requestPdu
  reply : replyPieces.flatten = (slaveAfter unitId store requestPieces).written.flatten

def linePort (replyPieces : List Bytes) : Master.Port := ⟨true,true,true,replyPieces⟩

theorem slave_serves (unit : UInt8) (store : Store) (req : Request)
    (ins : List Bytes) (hu : req.unit = unit)
    (h : ins.flatten = req.bytes) :
    slaveAfter unit store ins =
      ⟨(handle store req.pdu).store,req.bytes.length,[(0,req.pdu)],
        ((handle store req.pdu).reply.map (buildModbusRtuFrame unit)).toList⟩ := by
  have hf := req.is_frame
  obtain ⟨ht,_⟩ := frame_taken hf [] ins (by simpa using h) (Ne.symm hf.2)
  rw [slaveAfter,Slave.run_frames]
  change (taken Slave.predictor [] ins).foldl _ _ = _
  rw [ht,foldl_cons,foldl_nil,Slave.serve,Request.bytes,parse_built _ req.pdu_nonempty]
  simp [hu,Slave.start]

section Replies
variable (unitId : UInt8) (requestPdu : Bytes) (reads : List Bytes) {frame : Bytes}

theorem transact_first (hr : requestPdu ≠ []) (h : first predictor [] reads = some frame) :
    transact (linePort reads) unitId requestPdu = checkResponse unitId requestPdu frame := by
  rw [transact, if_neg (by simp [linePort]), if_neg hr, if_neg (by simp [linePort])]
  rw [show (linePort reads).reads = reads from rfl,h]

theorem check_built {response : Bytes} (hr : response ≠ [])
    (hf : functionOf response = functionOf requestPdu ∨
      functionOf response = functionOf requestPdu ||| 0x80) :
    checkResponse unitId requestPdu (buildModbusRtuFrame unitId response) = .ok response := by
  have hc : ¬(unitId ≠ unitId ∨ response = [] ∨
      functionOf response ≠ functionOf requestPdu ∧
        functionOf response ≠ functionOf requestPdu ||| 0x80) := by
    rintro (h | h | h)
    · exact h rfl
    · exact hr h
    · exact hf.elim h.1 h.2
  rw [checkResponse,parse_built _ hr]
  exact if_neg hc

/-- A reply that is a frame to the master and of the function asked for is its answer. -/
theorem transact_reply {response : Bytes} (hrq : requestPdu ≠ []) (hr : response ≠ [])
    (hf : IsFrame predictor (buildModbusRtuFrame unitId response))
    (hrd : reads.flatten = buildModbusRtuFrame unitId response)
    (hfn : functionOf response = functionOf requestPdu ∨
      functionOf response = functionOf requestPdu ||| 0x80) :
    transact (linePort reads) unitId requestPdu = .ok response := by
  obtain ⟨ht,_⟩ := frame_taken hf [] reads (by simpa using hrd) (Ne.symm hf.2)
  have hfr : first predictor [] reads = some (buildModbusRtuFrame unitId response) := by
    rw [first_taken,ht]
    rfl
  rw [transact_first _ _ reads hrq hfr,check_built _ _ hr hfn]

theorem parsed_length {unit : UInt8} {pdu : Bytes} (h : parseModbusRtuFrame frame = .ok (unit,pdu)) : pdu.length+3 = frame.length := by
  rw [parseModbusRtuFrame] at h
  split_ifs at h with hs
  cases h
  rw [length_take,length_drop]
  omega

variable {requestPdu unitId} {resp : Bytes}

theorem checked_length (h : checkResponse unitId requestPdu frame = .ok resp) :
    resp.length+3 = frame.length := by
  rw [checkResponse] at h
  cases hp : parseModbusRtuFrame frame with
  | error error =>
    rw [hp] at h
    cases h
  | ok parsed =>
    obtain ⟨unit,pdu⟩ := parsed
    rw [hp] at h
    dsimp only at h
    split_ifs at h
    cases h
    exact parsed_length hp

variable {reads}

/-- What the master takes for a response came in whole, with unit and checksum. -/
theorem transact_length (hr : requestPdu ≠ [])
    (h : transact (linePort reads) unitId requestPdu = .ok resp) :
    resp.length+3 ≤ reads.flatten.length := by
  cases hf : first predictor [] reads with
  | none =>
    rw [transact, if_neg (by simp [linePort]), if_neg hr,
      if_neg (by simp [linePort]), show (linePort reads).reads = reads from rfl, hf] at h
    cases h
  | some frame =>
    rw [transact_first _ _ reads hr hf] at h
    rw [checked_length h]
    rw [first_taken] at hf
    obtain ⟨others,ho⟩ := List.head?_eq_some_iff.mp hf
    obtain ⟨hfl,_⟩ := taken_flatten (p := predictor) [] reads
    rw [← nil_append reads.flatten,hfl,ho]
    simp

/-- A response that ends where its byte count says needs two bytes before its values. -/
theorem read_response_length {α : Type} {expected : ℤ} {error : Text} {vs result : List α}
    (h : readResponse resp expected error vs = .ok result) :
    (resp.length : ℤ) = expected+2 := by
  rw [readResponse] at h
  split_ifs at h with hs hl
  obtain ⟨hc,he⟩ := not_or.mp hl
  rw [← not_not.mp hc,not_not.mp he]
  push_cast
  rfl

end Replies

theorem word_of_nat (n : ℤ) (h : 0 ≤ n ∧ n ≤ 65535) : ((UInt16.ofNat n.toNat).toNat : ℤ) = n := by
  rw [UInt16.toNat_ofNat_of_lt' (by simp [UInt16.size]; omega)]
  omega

theorem request_words (fn : UInt8) (addr value : UInt16) (after : Bytes) :
    getU16 (fn::putU16 addr++(putU16 value++after)) 1 = addr ∧
      getU16 (fn::putU16 addr++(putU16 value++after)) 3 = value :=
  ⟨get_put addr [fn] _,get_put value _ after⟩

theorem quantity_accepted {n : ℤ} {max : UInt16} (hp : 0 < n) (hm : n ≤ max.toNat) :
    parseQuantity (UInt16.ofNat n.toNat) max = true := by
  have hb := max.toNat_lt
  have hn := word_of_nat n (by omega)
  have hz : UInt16.ofNat n.toNat ≠ 0 := by
    intro h
    rw [h] at hn
    simp at hn
    omega
  have hl : ¬max < UInt16.ofNat n.toNat := by
    rw [UInt16.lt_iff_toNat_lt]
    omega
  simp [parseQuantity,hz,hl]

section Exchange
variable {unit : UInt8} {store : Store} {ins outs : List Bytes}

theorem carried_reply (req : Request) (response : Bytes) (hu : req.unit = unit)
    (hrp : (handle store req.pdu).reply = some response)
    (h : Carried unit store req.pdu ins outs) :
    outs.flatten = buildModbusRtuFrame unit response := by
  have hr : ins.flatten = req.bytes := by
    rw [h.request,Request.bytes,hu]
  rw [h.reply,slave_serves unit store req ins hu hr,hrp]
  simp

theorem whole_carried (request : Request) (resp : Bytes) (hu : request.unit = unit)
    (hr : (handle store request.pdu).reply = some resp) :
    Carried unit store request.pdu [buildModbusRtuFrame unit request.pdu]
      [buildModbusRtuFrame unit resp] where
  request := flatten_singleton
  reply := by
    rw [slave_serves unit store _ _ hu (by simp [Request.bytes,hu]), hr]
    rfl

theorem exception_frame {fn : UInt8} (code : UInt8) (h : Slave.Implemented fn) :
    IsFrame predictor (buildModbusRtuFrame unit (exception fn code)) := by
  have hs : expectedFrameSize
      (buildModbusRtuFrame unit (exception fn code)) false = 5 := by
    have hg := built_get unit (exception fn code) 0 (by simp [exception])
    have hb : (fn ||| 0x80) &&& 0x80 ≠ 0 := by
      rcases h with (rfl | rfl | rfl | rfl) | (rfl | rfl) | (rfl | rfl) <;> decide
    rw [expectedFrameSize, built_length, if_neg (by simp [exception]), hg]
    exact if_pos hb
  refine ⟨?_,by simp [buildModbusRtuFrame]⟩
  rw [built_length]
  exact hs

theorem transact_exception (requestPdu : Bytes) (code : UInt8) (hr : requestPdu ≠ [])
    (hf : Slave.Implemented (functionOf requestPdu))
    (hrd : outs.flatten = buildModbusRtuFrame unit (exception (functionOf requestPdu) code)) :
    transact (linePort outs) unit requestPdu = .ok (exception (functionOf requestPdu) code) :=
  transact_reply unit _ outs hr (by simp [exception]) (exception_frame code hf) hrd (.inr rfl)

end Exchange

section Reads
variable (unitId : UInt8) (store : Store) (address count : ℤ)
  (requestPieces replyPieces : List Bytes)

def bitArea (discreteInputs : Bool) : ModbusArea :=
  if discreteInputs then .kDiscreteInputs else .kCoils

def registerArea (inputRegisters : Bool) : ModbusArea :=
  if inputRegisters then .kInputRegisters else .kHoldingRegisters

def exceptionName (code : UInt8) : Text :=
  if code = kIllegalFunction then "illegal function"
  else if code = kIllegalAddress then "illegal data address"
  else if code = kIllegalValue then "illegal data value"
  else "device failure"

/-- An error text that tells which exception came, by its number or by its name. -/
def Names (error : Text) (code : UInt8) : Prop :=
  Text.ofNat code.toNat <:+: error ∨ exceptionName code <:+: error

instance (error : Text) (code : UInt8) : Decidable (Names error code) :=
  inferInstanceAs (Decidable (_ ∨ _))

/-- A read over the line gives what the store holds, or fails with the exception that the
slave sent. -/
def ReadAgrees {α : Type} (function : UInt8) (held read : Except Text (List α))
    (reply : Option Bytes) : Prop :=
  match held with
  | .ok values => read = .ok values
  | .error _ => ∃ code error, reply = some (exception function code) ∧ read = .error error ∧
    Names error code

theorem read_handled (fn : UInt8) {max : UInt16} (respond : ℤ → ℤ → Except Text Bytes)
    (ha : 0 ≤ address ∧ address ≤ 65535) (hp : 0 < count) (hm : count ≤ max.toNat) :
    handleRead store fn (readRequest fn address count) max respond =
      readReply store fn (respond address count) := by
  have hb := max.toNat_lt
  have hl : ¬(readRequest fn address count).length < 5 := by
    simp [readRequest,putU16]
  obtain ⟨had,hc⟩ := request_words fn _ _ []
  rw [append_nil] at had hc
  have has : getU16 (readRequest fn address count) 1 = UInt16.ofNat address.toNat := had
  have hcn : getU16 (readRequest fn address count) 3 = UInt16.ofNat count.toNat := hc
  rw [handleRead,if_neg hl,has,hcn,quantity_accepted hp hm,
    if_neg (by simp),word_of_nat _ ha,word_of_nat count (by omega)]

variable {α : Type} {expected : ℤ}

/-- A reply with one byte before its values is one byte short for the master. -/
theorem short_reply {requestPdu : Bytes} (error : Text) (vs : Bytes → List α) (result : List α)
    (hrq : requestPdu ≠ []) (hs : (replyPieces.flatten.length : ℤ) ≤ expected+4) :
    (do
      let response ← transact (linePort replyPieces) unitId requestPdu
      readResponse response expected error (vs response)) ≠ .ok result := by
  intro h
  cases hr : transact (linePort replyPieces) unitId requestPdu with
  | error error =>
    rw [hr] at h
    cases h
  | ok response =>
    rw [hr] at h
    have hrd := read_response_length h
    have hl := transact_length hrq hr
    omega

theorem exception_read (fn : UInt8) (expected : ℤ) (error : Text) (vs : List α) :
    readResponse (exception fn kIllegalAddress) expected error vs = .error error := by
  simp [readResponse,exception,kIllegalAddress]

def readFrame (function : UInt8) (hf : IsRead function) : Request where
  unit := unitId
  pdu := Master.readRequest function address count
  prescribed := Or.inl ⟨Or.inl hf,by simp [Master.readRequest,putU16]⟩

theorem read_exchange {fn : UInt8} (hf : IsRead fn) {held : Except Text (List α)}
    {encode : List α → Bytes} {error : Text} (hn : ¬Names error kIllegalAddress)
    (decode : Bytes → List α)
    (hh : handle store (readRequest fn address count) = readReply store fn (held >>= fun values => .ok (encode values)))
    (hl : ∀ values, held = .ok values → ((encode values).length : ℤ) = expected+1)
    (h : Carried unitId store (readRequest fn address count) requestPieces replyPieces) :
    ¬ReadAgrees fn held
        (do
          let response ← transact (linePort replyPieces) unitId (readRequest fn address count)
          readResponse response expected error (decode response))
        (handle store (readRequest fn address count)).reply := by
  have hr : readRequest fn address count ≠ [] := by
    simp [readRequest]
  cases hhl : held with
  | ok values =>
    have hrp : (handle store (readRequest fn address count)).reply =
        some (encode values) := by
      rw [hh,hhl]
      rfl
    have hfl : replyPieces.flatten = buildModbusRtuFrame unitId (encode values) :=
      carried_reply (readFrame unitId address count fn hf) _ rfl hrp h
    have hs : (replyPieces.flatten.length : ℤ) ≤ expected+4 := by
      rw [hfl,built_length]
      have := hl values hhl
      omega
    exact short_reply unitId replyPieces error decode values hr hs
  | error refusal =>
    have hrp : (handle store (readRequest fn address count)).reply =
        some (exception fn kIllegalAddress) := by
      rw [hh,hhl]
      rfl
    have hfl : replyPieces.flatten =
        buildModbusRtuFrame unitId (exception fn kIllegalAddress) :=
      carried_reply (readFrame unitId address count fn hf) _ rfl hrp h
    have he := transact_exception _ _ hr (.inl hf) hfl
    rintro ⟨code,said,hc,hrd,hnm⟩
    rw [hrp] at hc
    obtain rfl : kIllegalAddress = code := by simpa [exception] using hc
    have hsd : said = error := by
      rw [he] at hrd
      exact Except.error.inj (hrd.symm.trans (exception_read fn _ error _))
    exact hn (hsd ▸ hnm)

variable {area : ModbusArea}

theorem bits_encoded {vs : List Bool} (h : store.readBits area address count = .ok vs) :
    (vs.length : ℤ) = count := by
  cases area with
  | kCoils => exact store.coils.read_length address count vs h
  | kDiscreteInputs => exact store.discreteInputs.read_length address count vs h
  | kInputRegisters => cases h
  | kHoldingRegisters => cases h

theorem registers_encoded {vs : List UInt16}
    (h : store.readRegisters area address count = .ok vs) : (vs.length : ℤ) = count := by
  cases area with
  | kCoils => cases h
  | kDiscreteInputs => cases h
  | kInputRegisters => exact store.inputRegisters.read_length address count vs h
  | kHoldingRegisters => exact store.holdingRegisters.read_length address count vs h

/-- No read over the line agrees with the store: one that the store allows is answered with a
response that the master does not understand, and of one that it refuses the master does not
tell the exception. -/
theorem read_never_agrees (ha : 0 ≤ address ∧ address ≤ 65535) (hpos : 0 < count) :
    (∀ discreteInputs, count ≤ 2000 →
      Carried unitId store
        (Master.readRequest (if discreteInputs then 2 else 1) address count)
        requestPieces replyPieces →
      ¬ReadAgrees (if discreteInputs then 2 else 1)
          (store.readBits (bitArea discreteInputs) address count)
          (Master.readBits (linePort replyPieces) unitId address count discreteInputs)
          (handle store
            (Master.readRequest (if discreteInputs then 2 else 1) address count)).reply) ∧
    (∀ inputRegisters, count ≤ 125 →
      Carried unitId store
        (Master.readRequest (if inputRegisters then 4 else 3) address count)
        requestPieces replyPieces →
      ¬ReadAgrees (if inputRegisters then 4 else 3)
          (store.readRegisters (registerArea inputRegisters) address count)
          (Master.readRegisters (linePort replyPieces) unitId address count inputRegisters)
          (handle store
            (Master.readRequest (if inputRegisters then 4 else 3) address count)).reply) := by
  constructor
  · intro discreteInputs hm h
    have hh : handle store (Master.readRequest (if discreteInputs then 2 else 1) address count) =
        readReply store (if discreteInputs then 2 else 1)
          (bitsResponse store (bitArea discreteInputs) address count) := by
      cases discreteInputs with
      | false => exact read_handled store _ count 1 _ ha hpos hm
      | true => exact read_handled store _ count 2 _ ha hpos hm
    have had : ¬(address < 0 ∨ 65535 < address ∨ count ≤ 0 ∨ 2000 < count) := by omega
    rw [Master.readBits,if_neg had]
    refine read_exchange _ store _ count _ _
      (by cases discreteInputs <;> decide) (by decide) _ hh (fun values hv => ?_) h
    have hl := bits_encoded store _ count hv
    rw [length_cons,pack_bits_length]
    omega
  · intro inputRegisters hm h
    have hh : handle store (Master.readRequest (if inputRegisters then 4 else 3) address count) =
        readReply store (if inputRegisters then 4 else 3)
          (registersResponse store (registerArea inputRegisters) address count) := by
      cases inputRegisters with
      | false => exact read_handled store _ count 3 _ ha hpos hm
      | true => exact read_handled store _ count 4 _ ha hpos hm
    have had : ¬(address < 0 ∨ 65535 < address ∨ count ≤ 0 ∨ 125 < count) := by omega
    rw [Master.readRegisters,if_neg had]
    refine read_exchange _ store _ count _ _
      (by cases inputRegisters <;> decide) (by decide) _ hh (fun values hv => ?_) h
    have hl := registers_encoded store _ count hv
    rw [length_cons,put_words_length]
    omega

end Reads

def coilStore : Store :=
  run Store.call Store.initial [.configure .kCoils ⟨0,8⟩,.writeBits .kCoils 0 [true]]

def refusedFrame : Bytes := buildModbusRtuFrame 1 (exception 1 kIllegalAddress)

theorem refused_read_disagrees :
    Carried 1 Store.initial (Master.readRequest 1 0 1)
        [buildModbusRtuFrame 1 (Master.readRequest 1 0 1)] [refusedFrame] ∧
      ¬ReadAgrees 1 (Store.initial.readBits .kCoils 0 1)
        (Master.readBits (linePort [refusedFrame]) 1 0 1 false)
        (handle Store.initial (Master.readRequest 1 0 1)).reply := by
  have hc : Carried 1 Store.initial (Master.readRequest 1 0 1)
      [buildModbusRtuFrame 1 (Master.readRequest 1 0 1)] [refusedFrame] :=
    whole_carried (readFrame 1 0 1 1 (by decide)) _ rfl rfl
  obtain ⟨hb,_⟩ := read_never_agrees 1 Store.initial 0 1
    [buildModbusRtuFrame 1 (Master.readRequest 1 0 1)] [refusedFrame] (by decide) (by decide)
  exact ⟨hc,hb false (by decide) hc⟩

/-- The coil is on and the slave's reply complete, and yet the master waits for more. -/
theorem coil_read_times_out :
    Carried 1 coilStore (Master.readRequest 1 0 1)
        [buildModbusRtuFrame 1 (Master.readRequest 1 0 1)] [buildModbusRtuFrame 1 [1,1]] ∧
      coilStore.readBits .kCoils 0 1 = .ok [true] ∧
      Master.readBits (linePort [buildModbusRtuFrame 1 [1,1]]) 1 0 1 false =
        .error "RTU response timeout" ∧
      ¬ReadAgrees 1 (coilStore.readBits .kCoils 0 1)
        (Master.readBits (linePort [buildModbusRtuFrame 1 [1,1]]) 1 0 1 false)
        (handle coilStore (Master.readRequest 1 0 1)).reply := by
  refine ⟨whole_carried (readFrame 1 0 1 1 (by decide)) _ rfl rfl,rfl,rfl,?_⟩
  intro h
  cases h

end EMaster.ModbusRtu
