import EMaster.ModbusProtocol
import EMaster.Framing

/-!
# RTU frames and their two ends

A frame is the unit identifier, a PDU and the checksum with its low byte first. The slave
collects what the serial port hands over and handles one frame in each pass of its loop;
the master sends a request and collects bytes until the reply is complete or the time is
up. Both predict the length of the frame from the bytes they have.
-/

set_option autoImplicit false

namespace EMaster.ModbusRtu
open Bytes Framing ModbusStore ModbusProtocol List

def crcBit (crc : UInt16) : UInt16 := if crc &&& 1 = 1 then crc >>> 1 ^^^ 0xA001 else crc >>> 1

def crcByte (crc : UInt16) (byte : UInt8) : UInt16 := crcBit^[8] (crc ^^^ byte.toUInt16)

def modbusRtuCrc16 (data : Bytes) : UInt16 := data.foldl crcByte 0xFFFF

def trailer (data : Bytes) : Bytes :=
  [(modbusRtuCrc16 data).toUInt8,(modbusRtuCrc16 data >>> 8).toUInt8]

def buildModbusRtuFrame (unitId : UInt8) (pdu : Bytes) : Bytes := unitId::pdu++trailer (unitId::pdu)

def parseModbusRtuFrame (frame : Bytes) : Except Text (UInt8×Bytes) :=
  if frame.length < 4 then .error "RTU frame is too short"
  else if modbusRtuCrc16 (frame.take (frame.length-2)) ≠
      wordOf (frame.getD (frame.length-2) 0) (frame.getD (frame.length-1) 0) then
    .error "RTU CRC16 mismatch"
  else .ok (frame.headD 0,(frame.drop 1).take (frame.length-3))

variable (a : Bytes) (unit : UInt8)

theorem built_length (pdu : Bytes) : (buildModbusRtuFrame unit pdu).length = pdu.length+3 := by
  simp [buildModbusRtuFrame,trailer]

theorem built_get (pdu : Bytes) (i : ℕ) (h : i < pdu.length) :
    (buildModbusRtuFrame unit pdu).getD (i+1) 0 = pdu.getD i 0 := by
  simp [buildModbusRtuFrame,List.getElem?_append_left h]

theorem parse_split (body : Bytes) (h : 2 ≤ body.length) (low high : UInt8) :
    parseModbusRtuFrame (body++[low,high]) =
      if modbusRtuCrc16 body ≠ wordOf low high then .error "RTU CRC16 mismatch"
      else .ok (body.headD 0,body.drop 1) := by
  have hl : (body++[low,high]).length = body.length+2 := by simp
  have ht : (body++[low,high]).take body.length = body := take_left
  have hw : (body++[low,high]).getD body.length 0 = low := by simp
  have hh : (body++[low,high]).getD (body.length+1) 0 = high := by simp
  have hd : ((body++[low,high]).drop 1).take (body.length-1) = body.drop 1 := by
    rw [drop_append_of_le_length (by omega),take_left' (by simp)]
  have hu : (body++[low,high]).headD 0 = body.headD 0 := by
    cases body with
    | nil => exact absurd h (by decide)
    | cons _ _ => rfl
  rw [parseModbusRtuFrame,hl,if_neg (by omega),show body.length+2-2 = body.length by omega,
    show body.length+2-1 = body.length+1 by omega,show body.length+2-3 = body.length-1 by omega,
    ht,hw,hh,hd,hu]

theorem parse_built {pdu : Bytes} (h : pdu ≠ []) :
    parseModbusRtuFrame (buildModbusRtuFrame unit pdu) = .ok (unit,pdu) := by
  rw [buildModbusRtuFrame,trailer,parse_split (unit::pdu) (Nat.succ_le_succ (length_pos_iff.mpr h)),
    word_of_halves,if_neg (not_not.mpr rfl)]
  rfl

def FixedRequest (function : UInt8) : Prop := IsRead function ∨ function = 5 ∨ function = 6

def CountedRequest (function : UInt8) : Prop := function = 15 ∨ function = 16

instance : DecidablePred FixedRequest := fun _ => inferInstanceAs (Decidable (_ ∨ _))

instance : DecidablePred CountedRequest := fun _ => inferInstanceAs (Decidable (_ ∨ _))

def Slave.expectedFrameSize (bytes : Bytes) : ℕ :=
  if bytes.length < 2 then 0
  else if FixedRequest (bytes.getD 1 0) then 8
  else if CountedRequest (bytes.getD 1 0) ∧ 7 ≤ bytes.length then 9+(bytes.getD 6 0).toNat
  else 0

def Master.expectedFrameSize (bytes : Bytes) (request : Bool) : ℕ :=
  if bytes.length < 2 then 0
  else if bytes.getD 1 0 &&& 0x80 ≠ 0 then 5
  else if IsRead (bytes.getD 1 0) then
    if request then 8
    else if bytes.length < 3 then 0
    else 5+(bytes.getD 2 0).toNat
  else if IsWrite (bytes.getD 1 0) then 8
  else 0

theorem get_take (n i : ℕ) (hi : i < n) (hn : n ≤ a.length) : (a.take n).getD i 0 = a.getD i 0 := by
  have := getD_append (a.take n) (a.drop n) 0 i (by rw [length_take]; omega)
  rw [take_append_drop] at this
  exact this.symm

theorem slave_size_settled (b : Bytes) (h : 0 < Slave.expectedFrameSize a) :
    Slave.expectedFrameSize (a++b) = Slave.expectedFrameSize a := by
  have hl : ¬a.length < 2 := by
    intro hs
    simp [Slave.expectedFrameSize,hs] at h
  have hmr : ¬(a++b).length < 2 := by
    rw [length_append]
    omega
  simp only [Slave.expectedFrameSize,hl,hmr,if_false,getD_append a b 0 1 (by omega)] at h ⊢
  by_cases hf : FixedRequest (a.getD 1 0)
  · rw [if_pos hf,if_pos hf]
  · rw [if_neg hf] at h ⊢
    by_cases hm : CountedRequest (a.getD 1 0) ∧ 7 ≤ a.length
    · have hsv : 7 ≤ (a++b).length := by
        rw [length_append]
        omega
      rw [if_pos ⟨hm.1,hsv⟩,if_neg hf,if_pos hm,getD_append a b 0 6 (by omega)]
    · rw [if_neg hm] at h
      exact absurd h (lt_irrefl 0)

theorem slave_size_own (h : 0 < Slave.expectedFrameSize a)
    (hft : Slave.expectedFrameSize a ≤ a.length) :
    Slave.expectedFrameSize (a.take (Slave.expectedFrameSize a)) = Slave.expectedFrameSize a := by
  have height : 8 ≤ Slave.expectedFrameSize a := by
    rw [Slave.expectedFrameSize] at h ⊢
    split_ifs at h ⊢ <;> omega
  have hl : (a.take (Slave.expectedFrameSize a)).length = Slave.expectedFrameSize a := by
    rw [length_take]
    omega
  have hf := get_take a _ 1 (by omega) hft
  have hc := get_take a _ 6 (by omega) hft
  conv_lhs => rw [Slave.expectedFrameSize]
  conv_rhs => rw [Slave.expectedFrameSize]
  simp only [hl,hf,hc]
  rw [if_neg (by omega),if_neg (by omega : ¬a.length < 2)]
  simp [show 7 ≤ Slave.expectedFrameSize a by omega,show 7 ≤ a.length by omega]

def Slave.predictor : Predictor UInt8 := ⟨Slave.expectedFrameSize,slave_size_settled,slave_size_own⟩

theorem master_size_settled (b : Bytes) (h : 0 < Master.expectedFrameSize a false) :
    Master.expectedFrameSize (a++b) false = Master.expectedFrameSize a false := by
  have hl : ¬a.length < 2 := by
    intro hs
    simp [Master.expectedFrameSize,hs] at h
  have hm : ¬(a++b).length < 2 := by
    rw [length_append]
    omega
  simp only [Master.expectedFrameSize,hl,hm,if_false,getD_append a b 0 1 (by omega)] at h ⊢
  by_cases he : a.getD 1 0 &&& 0x80 ≠ 0
  · rw [if_pos he,if_pos he]
  · rw [if_neg he,if_neg he]
    rw [if_neg he] at h
    by_cases hr : IsRead (a.getD 1 0)
    · rw [if_pos hr] at h ⊢
      rw [if_pos hr]
      by_cases ht : a.length < 3
      · simp [ht] at h
      · have hmn : ¬(a++b).length < 3 := by
          rw [length_append]
          omega
        simp only [ht,hmn,if_false,getD_append a b 0 2 (by omega)]
    · rw [if_neg hr,if_neg hr]

theorem master_size_own (h : 0 < Master.expectedFrameSize a false)
    (hft : Master.expectedFrameSize a false ≤ a.length) :
    Master.expectedFrameSize (a.take (Master.expectedFrameSize a false)) false =
      Master.expectedFrameSize a false := by
  have hfv : 5 ≤ Master.expectedFrameSize a false := by
    rw [Master.expectedFrameSize] at h ⊢
    split_ifs at h ⊢ <;> omega
  have hl : (a.take (Master.expectedFrameSize a false)).length =
      Master.expectedFrameSize a false := by
    rw [length_take]
    omega
  have hf := get_take a _ 1 (by omega) hft
  have hc := get_take a _ 2 (by omega) hft
  conv_lhs => rw [Master.expectedFrameSize]
  conv_rhs => rw [Master.expectedFrameSize]
  simp only [hl,hf,hc]
  rw [if_neg (by omega),if_neg (by omega : ¬a.length < 2)]
  simp [show ¬Master.expectedFrameSize a false < 3 by omega,show ¬a.length < 3 by omega]

def Master.predictor : Predictor UInt8 :=
  ⟨fun bytes => Master.expectedFrameSize bytes false,master_size_settled,master_size_own⟩

namespace Slave

/-- What a slave has done: the store, how many bytes were cut off the receive buffer, the
PDUs handed on with the place in the stream where their frame began, and the frames
written. -/
structure Served where
  store : Store
  consumed : ℕ
  handed : List (ℕ×Bytes)
  written : List Bytes

structure State where
  served : Served
  buffer : Bytes

def start (store : Store) : State := ⟨⟨store,0,[],[]⟩,[]⟩

def serve (unitId : UInt8) (s : Served) (frame : Bytes) : Served :=
  let passed := { s with consumed := s.consumed+frame.length }
  match parseModbusRtuFrame frame with
  | .error _ => passed
  | .ok (unit,requestPdu) =>
    if unit ≠ unitId then passed
    else
      let handled := handle s.store requestPdu
      { passed with
        store := handled.store
        handed := s.handed++[(s.consumed,requestPdu)]
        written := s.written++(handled.reply.map (buildModbusRtuFrame unit)).toList }

def pass (unitId : UInt8) (s : State) (piece : Bytes) : State :=
  match feed predictor s.buffer piece with
  | (none,rest) => ⟨s.served,rest⟩
  | (some frame,rest) => ⟨serve unitId s.served frame,rest⟩

end Slave

namespace Master

/-- The serial port during one transaction: what the reads before the deadline return. -/
structure Port where
  (running isOpen queues : Bool)
  reads : List Bytes

def checkResponse (unitId : UInt8) (requestPdu frame : Bytes) : Except Text Bytes :=
  match parseModbusRtuFrame frame with
  | .error error => .error error
  | .ok (responseUnit,response) =>
    if responseUnit ≠ unitId ∨ response = [] ∨
        functionOf response ≠ functionOf requestPdu ∧
          functionOf response ≠ functionOf requestPdu ||| 0x80 then
      .error "unexpected RTU response"
    else .ok response

variable (port : Port) (unitId : UInt8)

def transact (requestPdu : Bytes) : Except Text Bytes :=
  if port.running = false ∨ port.isOpen = false then
    .error "RTU master is not running"
  else if requestPdu = [] then .error "RTU request PDU is empty"
  else if port.queues = false then .error "RTU frame could not be queued"
  else
    match first predictor [] port.reads with
    | none => .error "RTU response timeout"
    | some frame => checkResponse unitId requestPdu frame

def readRequest (function : UInt8) (address count : ℤ) : Bytes :=
  function::putU16 (UInt16.ofNat address.toNat)++putU16 (UInt16.ofNat count.toNat)

def readResponse {α : Type} (response : Bytes) (expected : ℤ) (error : Text)
    (values : List α) : Except Text (List α) :=
  if response.length < 2 then .error []
  else if ((response.getD 1 0).toNat : ℤ) ≠ expected ∨
      response.length ≠ (response.getD 1 0).toNat+2 then .error error
  else .ok values

def readBits (address count : ℤ) (discreteInputs : Bool) :
    Except Text (List Bool) :=
  if address < 0 ∨ 65535 < address ∨ count ≤ 0 ∨ 2000 < count then
    .error "RTU bit read must use address 0..65535 and count 1..2000"
  else do
    let response ← transact port unitId (readRequest (if discreteInputs then 2 else 1) address count)
    readResponse response ((count+7)/8) "invalid RTU bit response length"
      (bitsAt response 2 count.toNat)

def readRegisters (address count : ℤ) (inputRegisters : Bool) :
    Except Text (List UInt16) :=
  if address < 0 ∨ 65535 < address ∨ count ≤ 0 ∨ 125 < count then
    .error "RTU register read must use address 0..65535 and count 1..125"
  else do
    let response ← transact port unitId (readRequest (if inputRegisters then 4 else 3) address count)
    readResponse response (count*2) "invalid RTU register response length"
      (wordsAt response 2 count.toNat)

def writeRequest (function : UInt8) (address : ℤ) (value : UInt16) : Bytes :=
  function::putU16 (UInt16.ofNat address.toNat)++putU16 value

def writeCoil (address : ℤ) (value : Bool) : Except Text Unit :=
  if address < 0 ∨ 65535 < address then
    .error "RTU coil address must be 0..65535"
  else (transact port unitId (writeRequest 5 address (if value then 0xFF00 else 0))).map
    (fun _ => ())

def writeHoldingRegister (address : ℤ) (value : UInt16) : Except Text Unit :=
  if address < 0 ∨ 65535 < address then
    .error "RTU holding-register address must be 0..65535"
  else (transact port unitId (writeRequest 6 address value)).map (fun _ => ())

def writeManyRequest (address : ℤ) (values : List UInt16) : Bytes :=
  writeRequest 16 address (UInt16.ofNat values.length)++
    UInt8.ofNat (values.length*2)::values.flatMap putU16

def writeHoldingRegisters (address : ℤ)
    (values : List UInt16) : Except Text Unit :=
  if address < 0 ∨ 65535 < address ∨ values = [] ∨ 123 < values.length ∨
      65536-(values.length : ℤ) < address then
    .error "RTU register write must use address 0..65535 and count 1..123"
  else (transact port unitId (writeManyRequest address values)).map (fun _ => ())

end Master

end EMaster.ModbusRtu
