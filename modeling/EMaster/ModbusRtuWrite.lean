import EMaster.ModbusRtuExchange

/-!
# Writes over the line

The master reports a write as done when the transaction succeeds, and to the transaction an
exception is a response like any other.
-/

set_option autoImplicit false

namespace EMaster.ModbusRtu
open Bytes Framing ModbusStore ModbusProtocol List Master

inductive Write where
  | coil (address : ℤ) (value : Bool)
  | register (address : ℤ) (value : UInt16)
  | registers (address : ℤ) (values : List UInt16)

namespace Write

def request : Write → Bytes
  | .coil address value => Master.writeRequest 5 address (if value then 0xFF00 else 0)
  | .register address value => Master.writeRequest 6 address value
  | .registers address values => Master.writeManyRequest address values

def issue (port : Master.Port) (unitId : UInt8) : Write → Except Text Unit
  | .coil address value => Master.writeCoil port unitId address value
  | .register address value => Master.writeHoldingRegister port unitId address value
  | .registers address values => Master.writeHoldingRegisters port unitId address values

def Admitted : Write → Prop
  | .coil address _ | .register address _ => 0 ≤ address ∧ address ≤ 65535
  | .registers address values =>
    0 ≤ address ∧ values ≠ [] ∧ values.length ≤ 123 ∧ address+values.length ≤ 65536

def result (store : Store) : Write → Except Text Store
  | .coil address value => store.writeBits .kCoils address [value]
  | .register address value => store.writeRegisters .kHoldingRegisters address [value]
  | .registers address values => store.writeRegisters .kHoldingRegisters address values

def Held (store : Store) : Write → Prop
  | .coil address value => store.coils.cell address = some value
  | .register address value => store.holdingRegisters.cell address = some value
  | .registers address values =>
    ∀ i < values.length, store.holdingRegisters.cell (address+i) = values[i]?

section
variable (store : Store) (w : Write) (address : ℤ)

theorem issue_admitted (port : Master.Port) (unit : UInt8) (h : w.Admitted) :
    w.issue port unit = (transact port unit w.request).map (fun _ => ()) := by
  cases w with
  | coil addr value => exact if_neg (by rw [Admitted] at h; omega)
  | register addr value => exact if_neg (by rw [Admitted] at h; omega)
  | registers addr vs =>
    obtain ⟨hl,hne,hm,hh⟩ := h
    have hp := length_pos_iff.mpr hne
    refine if_neg ?_
    rintro (h | h | h | h | h)
    · omega
    · omega
    · exact hne h
    · omega
    · omega

theorem issue_refused (port : Master.Port) (unit : UInt8) (h : ¬w.Admitted) :
    ∃ error, w.issue port unit = .error error := by
  cases w with
  | coil addr value => exact ⟨_,if_pos (by rw [Admitted] at h; omega)⟩
  | register addr value => exact ⟨_,if_pos (by rw [Admitted] at h; omega)⟩
  | registers addr vs =>
    refine ⟨_,if_pos ?_⟩
    by_contra hp
    simp only [not_or,not_lt] at hp
    obtain ⟨hl,_,hne,hm,hh⟩ := hp
    exact h ⟨hl,hne,hm,by omega⟩

theorem single_words (fn : UInt8) {addr : ℤ} (value : UInt16)
    (ha : 0 ≤ addr ∧ addr ≤ 65535) :
    ((getU16 (writeRequest fn addr value) 1).toNat : ℤ) = addr ∧
      getU16 (writeRequest fn addr value) 3 = value := by
  obtain ⟨had,hv⟩ := request_words fn _ value []
  rw [append_nil] at had hv
  refine ⟨?_,hv⟩
  rw [writeRequest,had]
  exact word_of_nat addr ha

theorem handle_coil (value : Bool) (ha : 0 ≤ address ∧ address ≤ 65535) :
    handleWriteCoil store 5 (writeRequest 5 address (if value then 0xFF00 else 0)) =
      writeReply store 5 (writeRequest 5 address (if value then 0xFF00 else 0))
        (store.writeBits .kCoils address [value]) := by
  obtain ⟨had,hv⟩ := single_words 5 _ ha
  have hl : ¬((if value then (0xFF00 : UInt16) else 0) ≠ 0 ∧
      (if value then (0xFF00 : UInt16) else 0) ≠ 0xFF00) := by
    cases value <;> decide
  have hb : decide ((if value then (0xFF00 : UInt16) else 0) = 0xFF00) = value := by
    cases value <;> decide
  rw [handleWriteCoil, if_neg (by simp [writeRequest,putU16]), had, hv, if_neg hl, hb]

theorem handle_register (value : UInt16) (ha : 0 ≤ address ∧ address ≤ 65535) :
    handleWriteRegister store 6 (writeRequest 6 address value) =
      writeReply store 6 (writeRequest 6 address value)
        (store.writeRegisters .kHoldingRegisters address [value]) := by
  obtain ⟨had,hv⟩ := single_words 6 value ha
  rw [handleWriteRegister, if_neg (by simp [writeRequest,putU16]), had, hv]

structure ManyFields (address : ℤ) (values : List UInt16) (request : Bytes) : Prop where
  address : ((getU16 request 1).toNat : ℤ) = address
  quantity : getU16 request 3 = UInt16.ofNat (values.length : ℤ).toNat
  count : (request.getD 5 0).toNat = values.length*2
  length : request.length = 6+values.length*2
  values : wordsAt request 6 values.length = values

variable {values : List UInt16}

theorem many_fields (h : (Write.registers address values).Admitted) :
    ManyFields address values (writeManyRequest address values) := by
  obtain ⟨hl,hne,hm,hh⟩ := h
  have hp := length_pos_iff.mpr hne
  obtain ⟨ha,hq⟩ := request_words 16 _ _ _
  have hs : writeManyRequest address values =
      16::putU16 (UInt16.ofNat address.toNat)++(putU16 (UInt16.ofNat values.length)++
        UInt8.ofNat (values.length*2)::values.flatMap putU16) := by
    simp [writeManyRequest,writeRequest]
  have hw := words_at_put values
    (writeRequest 16 address (UInt16.ofNat values.length)++ [UInt8.ofNat (values.length*2)]) []
  refine ⟨?_,?_,?_,?_,?_⟩
  · rw [hs,ha]
    exact word_of_nat address ⟨hl,by omega⟩
  · rw [hs,hq]
    rfl
  · have hg : (writeManyRequest address values).getD 5 0 =
        UInt8.ofNat (values.length*2) := by
      simp [writeManyRequest,writeRequest,putU16]
    rw [hg, UInt8.toNat_ofNat_of_lt' (by simp [UInt8.size]; omega)]
  · rw [writeManyRequest,length_append,length_cons,put_words_length]
    simp [writeRequest,putU16]
    omega
  · simpa [writeManyRequest,writeRequest,putU16] using hw

theorem handle_registers (h : (Write.registers address values).Admitted) :
    handleWriteMany store 16 (writeManyRequest address values) 123
        (fun quantity => quantity*2)
        (store.writeRegisters .kHoldingRegisters
          (getU16 (writeManyRequest address values) 1).toNat
          (wordsAt (writeManyRequest address values) 6
            (getU16 (writeManyRequest address values) 3).toNat)) =
      writeReply store 16 ((writeManyRequest address values).take 5)
        (store.writeRegisters .kHoldingRegisters address values) := by
  have fields := many_fields _ h
  obtain ⟨hl,hne,hm,hh⟩ := h
  have hp := length_pos_iff.mpr hne
  have hc : (UInt16.ofNat (values.length : ℤ).toNat).toNat = values.length := by
    have := word_of_nat values.length (by omega)
    omega
  have ha : parseQuantity (UInt16.ofNat (values.length : ℤ).toNat) 123 = true :=
    quantity_accepted (by omega) (by simpa using hm)
  rw [handleWriteMany,fields.length,if_neg (by omega),fields.quantity,ha,
    if_neg (by simp),hc,fields.count,if_neg (by simp),fields.address,fields.values]

theorem handle_request (h : w.Admitted) :
    handle store w.request =
      writeReply store (functionOf w.request) (w.request.take 5) (w.result store) := by
  cases w with
  | coil addr value => exact handle_coil store addr value h
  | register addr value => exact handle_register store addr value h
  | registers addr vs => exact handle_registers store addr h

theorem held_result {after : Store} (h : w.result store = .ok after) : w.Held after := by
  cases w with
  | coil addr value =>
    obtain ⟨hs,hw⟩ | ⟨_,hw⟩ := store.write_bits_cases addr [value]
    · rw [result,hw] at h
      cases h
      have hc := store.coils.cell_copied addr [value] hs addr
      simpa [Held] using hc
    · rw [result,hw] at h
      cases h
  | register addr value =>
    obtain ⟨hs,hw⟩ | ⟨_,hw⟩ := store.write_registers_cases addr [value]
    · rw [result,hw] at h
      cases h
      have hc := store.holdingRegisters.cell_copied addr [value] hs addr
      simpa [Held] using hc
    · rw [result,hw] at h
      cases h
  | registers addr vs =>
    obtain ⟨hs,hw⟩ | ⟨_,hw⟩ := store.write_registers_cases addr vs
    · rw [result,hw] at h
      cases h
      intro i hi
      rw [store.holdingRegisters.cell_copied addr vs hs,if_pos (by omega)]
      simp
    · rw [result,hw] at h
      cases h

def frame (unitId : UInt8) (w : Write) (h : w.Admitted) : Request where
  unit := unitId
  pdu := w.request
  prescribed := by
    cases w with
    | coil address value => exact Or.inl ⟨Or.inr (Or.inl rfl),rfl⟩
    | register address value => exact Or.inl ⟨Or.inr (Or.inr rfl),rfl⟩
    | registers address values =>
      have fields := many_fields _ h
      exact Or.inr ⟨Or.inr rfl,by rw [request,fields.length,fields.count]⟩

theorem function_write : IsWrite (functionOf w.request) := by
  cases w with
  | coil addr value => exact .inl (.inl rfl)
  | register addr value => exact .inr (.inl rfl)
  | registers addr vs => exact .inr (.inr rfl)

theorem request_take :
    (w.request.take 5).length = 5 ∧ functionOf (w.request.take 5) = functionOf w.request := by
  cases w <;> exact ⟨rfl,rfl⟩

theorem echo_frame (unit : UInt8) (w : Write) :
    IsFrame predictor (buildModbusRtuFrame unit (w.request.take 5)) := by
  obtain ⟨hl,hf⟩ := w.request_take
  have hg := built_get unit (w.request.take 5) 0 (by omega)
  rw [Request.function_get,hf] at hg
  have hs : expectedFrameSize
      (buildModbusRtuFrame unit (w.request.take 5)) false = 8 := by
    rw [expectedFrameSize,built_length,hl,if_neg (by omega),hg]
    rcases w.function_write with (h | h) | (h | h) <;> rw [h] <;> rfl
  refine ⟨?_,by simp [buildModbusRtuFrame]⟩
  rw [built_length,hl]
  exact hs

/-- The pieces in which the request of a write, if the master sends one, and the reply
travel. -/
structure Issued (unitId : UInt8) (store : Store) (w : Write)
    (requestPieces replyPieces : List Bytes) : Prop where
  sent : w.Admitted → requestPieces.flatten = buildModbusRtuFrame unitId w.request
  idle : ¬w.Admitted → requestPieces.flatten = []
  reply : replyPieces.flatten = (slaveAfter unitId store requestPieces).written.flatten

def Echoed (unitId : UInt8) (w : Write) (served : Slave.Served) : Prop :=
  served.written = [buildModbusRtuFrame unitId (w.request.take 5)]

def Excepted (unitId : UInt8) (w : Write) (served : Slave.Served) : Prop :=
  ∃ code, served.written = [buildModbusRtuFrame unitId (exception (functionOf w.request) code)]

structure Agrees (unitId : UInt8) (store : Store) (w : Write)
    (requestPieces replyPieces : List Bytes) : Prop where
  reported : w.issue (linePort replyPieces) unitId = .ok () ↔
    w.Echoed unitId (slaveAfter unitId store requestPieces)
  held : w.Echoed unitId (slaveAfter unitId store requestPieces) →
    w.Held (slaveAfter unitId store requestPieces).store
  excepted : w.Excepted unitId (slaveAfter unitId store requestPieces) →
    ∃ error, w.issue (linePort replyPieces) unitId = .error error

end

section Agreement
variable {unit : UInt8} {store : Store} {w : Write} {ins replyPieces : List Bytes}

theorem Issued.served (h : Issued unit store w ins replyPieces)
    (hw : w.Admitted) :
    slaveAfter unit store ins =
      ⟨(handle store w.request).store,(buildModbusRtuFrame unit w.request).length,
        [(0,w.request)],
        ((handle store w.request).reply.map (buildModbusRtuFrame unit)).toList⟩ :=
  slave_serves unit store (w.frame unit hw) ins rfl (h.sent hw)

theorem Issued.unsent_agrees (h : Issued unit store w ins replyPieces)
    (hw : ¬w.Admitted) : Agrees unit store w ins replyPieces := by
  obtain ⟨error,hi⟩ := w.issue_refused (linePort replyPieces) unit hw
  have hwr : (slaveAfter unit store ins).written = [] := by
    rw [slaveAfter,Slave.run_frames]
    change Slave.Served.written ((taken Slave.predictor [] ins).foldl _ _) = _
    rw [(empty_taken ins (h.idle hw)).1]
    rfl
  have hs : ¬w.Echoed unit (slaveAfter unit store ins) := by
    rw [Echoed,hwr]
    exact (cons_ne_nil _ _).symm
  refine ⟨⟨?_,fun he => absurd he hs⟩,fun he => absurd he hs, fun _ => ⟨error,hi⟩⟩
  rw [hi]
  intro hok
  cases hok

theorem Issued.accepted_agrees (h : Issued unit store w ins replyPieces)
    (hw : w.Admitted) (after : Store) (hr : w.result store = .ok after) :
    Agrees unit store w ins replyPieces := by
  obtain ⟨hln,hf⟩ := w.request_take
  have hs := h.served hw
  rw [handle_request store w hw,hr] at hs
  have he : w.Echoed unit (slaveAfter unit store ins) := by
    rw [Echoed,hs]
    rfl
  have hfl : replyPieces.flatten = buildModbusRtuFrame unit (w.request.take 5) := by
    rw [h.reply,he,flatten_singleton]
  have hi : w.issue (linePort replyPieces) unit = .ok () := by
    rw [w.issue_admitted _ unit hw,transact_reply unit w.request replyPieces
      (w.frame unit hw).pdu_nonempty (ne_nil_of_length_pos (by omega))
      (w.echo_frame unit) hfl (.inl hf)]
    rfl
  refine ⟨⟨fun _ => he,fun _ => hi⟩,fun _ => ?_,?_⟩
  · rw [hs]
    exact held_result store w hr
  · rintro ⟨code,hc⟩
    have hfr : buildModbusRtuFrame unit (w.request.take 5) =
        buildModbusRtuFrame unit (exception (functionOf w.request) code) := by
      rw [he] at hc
      exact singleton_injective hc
    have hl := congrArg List.length hfr
    rw [built_length,built_length,hln] at hl
    simp [exception] at hl

/-- A write that the slave's store refuses is reported as done. -/
theorem Issued.refused_reported (h : Issued unit store w ins replyPieces)
    (hw : w.Admitted) (refusal : Text) (hr : w.result store = .error refusal) :
    w.Excepted unit (slaveAfter unit store ins) ∧ w.issue (linePort replyPieces) unit = .ok () := by
  have hs := h.served hw
  rw [handle_request store w hw,hr] at hs
  have he : (slaveAfter unit store ins).written =
      [buildModbusRtuFrame unit (exception (functionOf w.request) kIllegalAddress)] := by
    rw [hs]
    rfl
  have hf : replyPieces.flatten =
      buildModbusRtuFrame unit (exception (functionOf w.request) kIllegalAddress) := by
    rw [h.reply,he,flatten_singleton]
  refine ⟨⟨_,he⟩,?_⟩
  rw [w.issue_admitted _ unit hw,transact_exception w.request _
    (w.frame unit hw).pdu_nonempty (.inr w.function_write) hf]
  rfl

theorem Issued.refused_disagrees (h : Issued unit store w ins replyPieces)
    (hw : w.Admitted) (refusal : Text) (hr : w.result store = .error refusal) :
    ¬Agrees unit store w ins replyPieces := by
  obtain ⟨he,hi⟩ := h.refused_reported hw refusal hr
  intro ha
  obtain ⟨error,her⟩ := ha.excepted he
  rw [hi] at her
  cases her

end Agreement

/-- What a write over the line reports is right exactly when the master does not send it or
the slave's store takes it. -/
theorem write_agrees_iff (unitId : UInt8) (store : Store) (w : Write)
    (requestPieces replyPieces : List Bytes)
    (h : Issued unitId store w requestPieces replyPieces) :
    Agrees unitId store w requestPieces replyPieces ↔
      ¬w.Admitted ∨ ∃ after, w.result store = .ok after := by
  by_cases hw : w.Admitted
  · cases hr : w.result store with
    | ok after => exact ⟨fun _ => Or.inr ⟨after,rfl⟩,fun _ => h.accepted_agrees hw after hr⟩
    | error refusal =>
      constructor
      · intro ha
        exact absurd ha (h.refused_disagrees hw refusal hr)
      · rintro (hn | ⟨after,haf⟩)
        · exact absurd hw hn
        · cases haf
  · exact ⟨fun _ => Or.inl hw,fun _ => h.unsent_agrees hw⟩

theorem Issued.of_carried {unit : UInt8} {store : Store} {w : Write}
    {ins replyPieces : List Bytes} (hw : w.Admitted)
    (h : Carried unit store w.request ins replyPieces) :
    Issued unit store w ins replyPieces :=
  ⟨fun _ => h.request,fun hn => absurd hw hn,h.reply⟩

theorem coil_write_agrees :
    Issued 1 coilStore (.coil 3 true) [buildModbusRtuFrame 1 [5,0,3,0xFF,0]]
        [buildModbusRtuFrame 1 [5,0,3,0xFF,0]] ∧
      Agrees 1 coilStore (.coil 3 true) [buildModbusRtuFrame 1 [5,0,3,0xFF,0]]
        [buildModbusRtuFrame 1 [5,0,3,0xFF,0]] := by
  have ha : (Write.coil 3 true).Admitted := ⟨by decide,by decide⟩
  have hr : (handle coilStore [5,0,3,0xFF,0]).reply = some [5,0,3,0xFF,0] := by decide
  have hi := Issued.of_carried ha (@whole_carried 1 coilStore (frame 1 _ ha) _ rfl hr)
  exact ⟨hi,(write_agrees_iff 1 _ _ _ _ hi).mpr (Or.inr ⟨_,rfl⟩)⟩

/-- The slave has eight coils and answers a write of the tenth with an exception; the
master reports that it is done. -/
theorem refused_write_reported :
    Issued 1 coilStore (.coil 9 true) [buildModbusRtuFrame 1 [5,0,9,0xFF,0]]
        [buildModbusRtuFrame 1 [0x85,2]] ∧
      Excepted 1 (.coil 9 true) (slaveAfter 1 coilStore [buildModbusRtuFrame 1 [5,0,9,0xFF,0]]) ∧
      Master.writeCoil (linePort [buildModbusRtuFrame 1 [0x85,2]]) 1 9 true = .ok () := by
  have ha : (Write.coil 9 true).Admitted := ⟨by decide,by decide⟩
  have hr : (handle coilStore [5,0,9,0xFF,0]).reply = some [0x85,2] := by decide
  have hi := Issued.of_carried ha (@whole_carried 1 coilStore (frame 1 _ ha) _ rfl hr)
  exact ⟨hi,hi.refused_reported ha _ rfl⟩

end Write

end EMaster.ModbusRtu
