import EMaster.ModbusStore

/-!
# The application protocol of the slaves

A request PDU is a function code and its data. The answer is a response PDU, which may be
an exception, or none if the request is too short. The unit identifier plays no part.
-/

set_option autoImplicit false

namespace EMaster.ModbusProtocol
open Bytes ModbusStore Runs

def kIllegalFunction : UInt8 := 0x01

def kIllegalAddress : UInt8 := 0x02

def kIllegalValue : UInt8 := 0x03

/-- What a call leaves: the store, the response PDU unless the call failed, and the text
of the error. -/
structure Handled where
  store : Store
  reply : Option Bytes
  error : Text

def parseQuantity (quantity max : UInt16) : Bool := !(quantity = 0 || max < quantity)

def quantityError : Text := "invalid Modbus quantity"

def exception (function code : UInt8) : Bytes := [function ||| 0x80,code]

def truncated (s : Store) : Handled := ⟨s,none,"truncated Modbus PDU"⟩

def refused (s : Store) (function code : UInt8) (error : Text) : Handled :=
  ⟨s,some (exception function code),error⟩

def readReply (s : Store) (function : UInt8) (result : Except Text Bytes) : Handled :=
  match result with
  | .ok response => ⟨s,some response,[]⟩
  | .error error => refused s function kIllegalAddress error

def writeReply (s : Store) (function : UInt8) (response : Bytes) (result : Except Text Store) :
    Handled :=
  match result with
  | .ok written => ⟨written,some response,[]⟩
  | .error error => refused s function kIllegalAddress error

def handleRead (s : Store) (function : UInt8) (request : Bytes) (max : UInt16)
    (respond : ℤ → ℤ → Except Text Bytes) : Handled :=
  if request.length < 5 then truncated s
  else if parseQuantity (getU16 request 3) max = false then
    refused s function kIllegalValue quantityError
  else readReply s function (respond (getU16 request 1).toNat (getU16 request 3).toNat)

def bitsResponse (s : Store) (area : ModbusArea) (address quantity : ℤ) : Except Text Bytes := do
  let values ← s.readBits area address quantity
  .ok (UInt8.ofNat ((quantity.toNat+7)/8)::packBits values)

def registersResponse (s : Store) (area : ModbusArea) (address quantity : ℤ) :
    Except Text Bytes := do
  let values ← s.readRegisters area address quantity
  .ok (UInt8.ofNat (quantity.toNat*2)::values.flatMap putU16)

def handleWriteCoil (s : Store) (function : UInt8) (request : Bytes) : Handled :=
  if request.length < 5 then truncated s
  else if getU16 request 3 ≠ 0 ∧ getU16 request 3 ≠ 0xFF00 then
    refused s function kIllegalValue []
  else writeReply s function request
    (s.writeBits .kCoils (getU16 request 1).toNat [getU16 request 3 = 0xFF00])

def handleWriteRegister (s : Store) (function : UInt8) (request : Bytes) : Handled :=
  if request.length < 5 then truncated s
  else writeReply s function request
    (s.writeRegisters .kHoldingRegisters (getU16 request 1).toNat [getU16 request 3])

def handleWriteMany (s : Store) (function : UInt8) (request : Bytes) (max : UInt16)
    (bytesFor : ℕ → ℕ) (result : Except Text Store) : Handled :=
  if request.length < 6 then truncated s
  else if parseQuantity (getU16 request 3) max = false then
    refused s function kIllegalValue quantityError
  else if (request.getD 5 0).toNat ≠ bytesFor (getU16 request 3).toNat ∨
      request.length ≠ 6+(request.getD 5 0).toNat then
    refused s function kIllegalValue []
  else writeReply s function (request.take 5) result

def handle (s : Store) (request : Bytes) : Handled :=
  match request with
  | [] => truncated s
  | function::_ =>
    if function = 1 then handleRead s function request 2000 (bitsResponse s .kCoils)
    else if function = 2 then
      handleRead s function request 2000 (bitsResponse s .kDiscreteInputs)
    else if function = 3 then
      handleRead s function request 125 (registersResponse s .kHoldingRegisters)
    else if function = 4 then
      handleRead s function request 125 (registersResponse s .kInputRegisters)
    else if function = 5 then handleWriteCoil s function request
    else if function = 6 then handleWriteRegister s function request
    else if function = 15 then
      handleWriteMany s function request 1968 (fun quantity => (quantity+7)/8)
        (s.writeBits .kCoils (getU16 request 1).toNat (bitsAt request 6 (getU16 request 3).toNat))
    else if function = 16 then
      handleWriteMany s function request 123 (fun quantity => quantity*2)
        (s.writeRegisters .kHoldingRegisters (getU16 request 1).toNat
          (wordsAt request 6 (getU16 request 3).toNat))
    else refused s function kIllegalFunction []

def functionOf (request : Bytes) : UInt8 := request.headD 0

def addressOf (request : Bytes) : ℤ := (getU16 request 1).toNat

def coilValues (request : Bytes) : List Bool :=
  if functionOf request = 5 then [getU16 request 3 = 0xFF00]
  else bitsAt request 6 (getU16 request 3).toNat

def registerValues (request : Bytes) : List UInt16 :=
  if functionOf request = 6 then [getU16 request 3]
  else wordsAt request 6 (getU16 request 3).toNat

def Accepts (s : Store) (request : Bytes) : Prop :=
  ∃ response, (handle s request).reply = some response ∧ response.head? = some (functionOf request)

def Excepts (s : Store) (request : Bytes) : Prop :=
  ∃ code, (handle s request).reply = some (exception (functionOf request) code)

/-- The area after a write differs from the one before in exactly the addressed cells. -/
structure WritesExactly {α : Type*} (before after : AreaStorage α) (address : ℤ)
    (values : List α) : Prop where
  range : after.range = before.range
  inside : before.range.start ≤ address ∧
    address+values.length ≤ before.range.start+before.cells.length
  cells : ∀ a, after.cell a =
    if address ≤ a ∧ a < address+values.length then values[(a-address).toNat]?
    else before.cell a

variable {addr : ℤ} {α : Type*} {storage : AreaStorage α}

theorem copied_exactly {vs : List α} (h : storage.validateSpan addr vs.length = true) :
    WritesExactly storage (storage.copied addr vs) addr vs where
  range := rfl
  inside := by
    obtain ⟨_,hl,hh⟩ := (storage.validate_span_iff addr vs.length).mp h
    rw [storage.sized]
    exact ⟨hl,hh⟩
  cells := storage.cell_copied addr vs h

def IsRead (function : UInt8) : Prop := function = 1 ∨ function = 2 ∨ function = 3 ∨ function = 4

def IsCoilWrite (function : UInt8) : Prop := function = 5 ∨ function = 15

def IsRegisterWrite (function : UInt8) : Prop := function = 6 ∨ function = 16

def IsWrite (function : UInt8) : Prop := IsCoilWrite function ∨ IsRegisterWrite function

instance : DecidablePred IsRead := fun _ => inferInstanceAs (Decidable (_ ∨ _))

instance : DecidablePred IsWrite := fun _ =>
  inferInstanceAs (Decidable ((_ ∨ _) ∨ (_ ∨ _)))

variable (s : Store) (function : UInt8) (request : Bytes) (area : ModbusArea)

theorem exception_head (code : UInt8) (h : IsWrite function) :
    (exception function code).head? ≠ some function := by
  rcases h with (rfl | rfl) | (rfl | rfl) <;> simp [exception] <;> decide

/-- A request that is refused, with an exception or with no answer. -/
def Refused (s : Store) (function : UInt8) (h : Handled) : Prop :=
  h.store = s ∧ (h.reply = none ∨ ∃ code, h.reply = some (exception function code))

theorem truncated_refused : Refused s function (truncated s) := ⟨rfl,.inl rfl⟩

theorem refused_refused (code : UInt8) (error : Text) :
    Refused s function (refused s function code error) :=
  ⟨rfl,.inr ⟨code,rfl⟩⟩

theorem read_refused (max : UInt16) (respond : ℤ → ℤ → Except Text Bytes) :
    (handleRead s function request max respond).store = s ∧
      (Refused s function (handleRead s function request max respond) ∨
        5 ≤ request.length ∧ ∃ response,
          respond (getU16 request 1).toNat (getU16 request 3).toNat = .ok response ∧
          (handleRead s function request max respond).reply = some response) := by
  rw [handleRead]
  split_ifs with hs hq
  · exact ⟨rfl,.inl (truncated_refused s _)⟩
  · exact ⟨rfl,.inl (refused_refused s _ _ _)⟩
  · cases hr : respond (getU16 request 1).toNat (getU16 request 3).toNat with
    | ok response => exact ⟨rfl,.inr ⟨not_lt.mp hs,response,rfl,rfl⟩⟩
    | error error => exact ⟨rfl,.inl (refused_refused s _ _ _)⟩

theorem write_many_cases (max : UInt16) (bytesFor : ℕ → ℕ) (result : Except Text Store) :
    Refused s function (handleWriteMany s function request max bytesFor result) ∨
      6 ≤ request.length ∧ request.length = 6+bytesFor (getU16 request 3).toNat ∧
        handleWriteMany s function request max bytesFor result =
          writeReply s function (request.take 5) result := by
  rw [handleWriteMany]
  split_ifs with hs hq hl
  · exact .inl (truncated_refused s _)
  · exact .inl (refused_refused s _ _ _)
  · exact .inl (refused_refused s _ _ _)
  · obtain ⟨hc,hsz⟩ := not_or.mp hl
    exact .inr ⟨not_lt.mp hs,by rw [not_not.mp hsz,not_not.mp hc],rfl⟩

/-- All bytes that the values of a write are taken from are bytes of the request. -/
structure InRequest (request : Bytes) : Prop where
  fixed : 5 ≤ request.length
  bits : functionOf request = 15 → ∀ i < (getU16 request 3).toNat, 6+i/8 < request.length
  words : functionOf request = 16 → ∀ i < (getU16 request 3).toNat, 6+i*2+1 < request.length

theorem function_cons {fn : UInt8} (h : functionOf request = fn) (hne : fn ≠ 0) :
    ∃ data, request = fn::data := by
  cases request with
  | nil => exact absurd h.symm hne
  | cons first data => exact ⟨data,by rw [← h]; rfl⟩

theorem write_effect {resp : Bytes} {ok : Bool} {result : Except Text Store} {next : Store}
    {error : Text} (hw : ok = true ∧ result = .ok next ∨ ok = false ∧ result = .error error)
    (hin : InRequest request)
    (hh : handle s request = writeReply s (functionOf request) resp result)
    (hd : resp.head? = some (functionOf request)) :
    Refused s (functionOf request) (handle s request) ∨
      InRequest request ∧ ok = true ∧ (handle s request).store = next ∧ Accepts s request := by
  rw [Accepts,hh]
  obtain ⟨hs,hw⟩ | ⟨_,hw⟩ := hw <;> rw [hw]
  · exact .inr ⟨hin,hs,rfl,resp,rfl,hd⟩
  · exact .inl (refused_refused s _ _ _)

theorem coil_write (hf : IsCoilWrite (functionOf request)) :
    Refused s (functionOf request) (handle s request) ∨
      InRequest request ∧
      s.coils.validateSpan (addressOf request) (coilValues request).length = true ∧
      (handle s request).store =
        { s with coils := s.coils.copied (addressOf request) (coilValues request) } ∧
      Accepts s request := by
  rcases hf with hf | hf
  · obtain ⟨data,rfl⟩ := function_cons request hf (by decide)
    have hh : handle s (5::data) = handleWriteCoil s 5 (5::data) := rfl
    rw [handleWriteCoil] at hh
    split_ifs at hh with hsh hv
    · rw [hh]
      exact .inl (truncated_refused s _)
    · rw [hh]
      exact .inl (refused_refused s _ _ _)
    · exact write_effect s _ (s.write_bits_cases _ _)
        ⟨not_lt.mp hsh,fun h => absurd (hf.symm.trans h) (by decide),
          fun h => absurd (hf.symm.trans h) (by decide)⟩ hh rfl
  · obtain ⟨data,rfl⟩ := function_cons request hf (by decide)
    obtain hr | ⟨hln,hl,hm⟩ := write_many_cases s 15 _ 1968
      (fun qty => (qty+7)/8) (s.writeBits .kCoils (getU16 (15::data) 1).toNat
        (bitsAt (15::data) 6 (getU16 (15::data) 3).toNat))
    · exact .inl hr
    · exact write_effect s _ (s.write_bits_cases _ _)
        ⟨by omega,fun _ i hi => by omega,fun h => absurd (hf.symm.trans h) (by decide)⟩ hm rfl

theorem register_write (hf : IsRegisterWrite (functionOf request)) :
    Refused s (functionOf request) (handle s request) ∨
      InRequest request ∧
      s.holdingRegisters.validateSpan (addressOf request) (registerValues request).length = true ∧
      (handle s request).store =
        { s with holdingRegisters :=
          s.holdingRegisters.copied (addressOf request) (registerValues request) } ∧
      Accepts s request := by
  rcases hf with hf | hf
  · obtain ⟨data,rfl⟩ := function_cons request hf (by decide)
    have hh : handle s (6::data) = handleWriteRegister s 6 (6::data) := rfl
    rw [handleWriteRegister] at hh
    split_ifs at hh with hsh
    · rw [hh]
      exact .inl (truncated_refused s _)
    · exact write_effect s _ (s.write_registers_cases _ _)
        ⟨not_lt.mp hsh,fun h => absurd (hf.symm.trans h) (by decide),
          fun h => absurd (hf.symm.trans h) (by decide)⟩ hh rfl
  · obtain ⟨data,rfl⟩ := function_cons request hf (by decide)
    obtain hr | ⟨hln,hl,hm⟩ := write_many_cases s 16 (16::data) 123 (fun qty => qty*2)
      (s.writeRegisters .kHoldingRegisters (getU16 (16::data) 1).toNat
        (wordsAt (16::data) 6 (getU16 (16::data) 3).toNat))
    · exact .inl hr
    · exact write_effect s _ (s.write_registers_cases _ _)
        ⟨by omega,fun h => absurd (hf.symm.trans h) (by decide),fun _ i hi => by omega⟩ hm rfl

def bounds {α : Type*} (storage : AreaStorage α) : ℤ×ℤ :=
  (storage.range.start,storage.range.start+storage.cells.length)

def readBounds (s : Store) (function : UInt8) : ℤ×ℤ :=
  if function = 1 then bounds s.coils
  else if function = 2 then bounds s.discreteInputs
  else if function = 3 then bounds s.holdingRegisters
  else bounds s.inputRegisters

def Inside (bounds : ℤ×ℤ) (address quantity : ℤ) : Prop :=
  bounds.1 ≤ address ∧ address+quantity ≤ bounds.2

variable {quantity : ℤ}

theorem span_inside (h : storage.validateSpan addr quantity = true) :
    Inside (bounds storage) addr quantity := by
  obtain ⟨_,hl,hh⟩ := (storage.validate_span_iff addr quantity).mp h
  rw [Inside,bounds,storage.sized]
  exact ⟨hl,hh⟩

theorem read_inside {storage : AreaStorage α} {addr quantity : ℤ} {vs : List α}
    (h : storage.read addr quantity = .ok vs) : Inside (bounds storage) addr quantity := by
  rw [AreaStorage.read] at h
  split_ifs at h with hs
  exact span_inside hs

variable {resp : Bytes}

theorem of_map_ok {α β : Type} {f : α → β} {x : Except Text α} {y : β} (h : x.map f = .ok y) :
    ∃ v, x = .ok v := by
  cases x with
  | error error => cases h
  | ok v => exact ⟨v,rfl⟩

theorem read_looks (max : UInt16) {respond : ℤ → ℤ → Except Text Bytes}
    (hb : ∀ address quantity response, respond address quantity = .ok response →
      Inside (readBounds s function) address quantity) :
    Refused s function (handleRead s function request max respond) ∨
      5 ≤ request.length ∧
        Inside (readBounds s function) (addressOf request) (getU16 request 3).toNat := by
  obtain ⟨_,hrf | ⟨hl,response,hr,_⟩⟩ := read_refused s _ _ max _
  · exact .inl hrf
  · exact .inr ⟨hl,hb _ _ response hr⟩

theorem read_effect (hf : IsRead (functionOf request)) :
    Refused s (functionOf request) (handle s request) ∨
      5 ≤ request.length ∧ Inside (readBounds s (functionOf request)) (addressOf request)
        (getU16 request 3).toNat := by
  rcases hf with hf | hf | hf | hf
  · obtain ⟨data,rfl⟩ := function_cons _ hf (by decide)
    refine read_looks s 1 _ _ fun _ _ _ h => ?_
    obtain ⟨vs,hv⟩ := of_map_ok h
    exact read_inside hv
  · obtain ⟨data,rfl⟩ := function_cons _ hf (by decide)
    refine read_looks s 2 _ _ fun _ _ _ h => ?_
    obtain ⟨vs,hv⟩ := of_map_ok h
    exact read_inside hv
  · obtain ⟨data,rfl⟩ := function_cons _ hf (by decide)
    refine read_looks s 3 _ _ fun _ _ _ h => ?_
    obtain ⟨vs,hv⟩ := of_map_ok h
    exact read_inside hv
  · obtain ⟨data,rfl⟩ := function_cons _ hf (by decide)
    refine read_looks s 4 _ _ fun _ _ _ h => ?_
    obtain ⟨vs,hv⟩ := of_map_ok h
    exact read_inside hv

theorem other_kept (hf : ¬IsWrite (functionOf request)) : (handle s request).store = s := by
  cases request with
  | nil => rfl
  | cons fn data =>
    obtain ⟨hc,hr⟩ := not_or.mp hf
    obtain ⟨h5,h15⟩ := not_or.mp hc
    obtain ⟨h6,h16⟩ := not_or.mp hr
    change fn ≠ 5 at h5
    change fn ≠ 15 at h15
    change fn ≠ 6 at h6
    change fn ≠ 16 at h16
    rw [handle]
    split_ifs
    · exact (read_refused s _ _ _ _).1
    · exact (read_refused s _ _ _ _).1
    · exact (read_refused s _ _ _ _).1
    · exact (read_refused s _ _ _ _).1
    · rfl

structure Effect (s : Store) (request : Bytes) : Prop where
  reads : IsRead (functionOf request) → (handle s request).store = s
  refused : (handle s request).reply = none ∨ Excepts s request → (handle s request).store = s
  coils : IsCoilWrite (functionOf request) → Accepts s request →
    WritesExactly s.coils (handle s request).store.coils (addressOf request)
        (coilValues request) ∧
      (handle s request).store = { s with coils := (handle s request).store.coils }
  registers : IsRegisterWrite (functionOf request) → Accepts s request →
    WritesExactly s.holdingRegisters (handle s request).store.holdingRegisters
        (addressOf request) (registerValues request) ∧
      (handle s request).store =
        { s with holdingRegisters := (handle s request).store.holdingRegisters }
  indices : IsRead (functionOf request) →
    Refused s (functionOf request) (handle s request) ∨
      5 ≤ request.length ∧ Inside (readBounds s (functionOf request)) (addressOf request)
        (getU16 request 3).toNat
  values : IsWrite (functionOf request) → Accepts s request → InRequest request

theorem accepted_not_refused (hf : IsWrite (functionOf request)) (h : Accepts s request) :
    ¬((handle s request).reply = none ∨ Excepts s request) := by
  obtain ⟨resp,hr,hh⟩ := h
  rintro (hn | ⟨code,hc⟩)
  · rw [hn] at hr
    cases hr
  · rw [hc] at hr
    cases hr
    exact exception_head _ code hf hh

theorem refused_not_accepted (hf : IsWrite (functionOf request))
    (h : Refused s (functionOf request) (handle s request)) : ¬Accepts s request :=
  fun ha => accepted_not_refused s _ hf ha h.2

theorem refused_kept (h : (handle s request).reply = none ∨ Excepts s request) :
    (handle s request).store = s := by
  by_cases hf : IsWrite (functionOf request)
  · rcases hf with hc | hrg
    · obtain hr | ⟨_,_,_,ha⟩ := coil_write s _ hc
      · exact hr.1
      · exact absurd h (accepted_not_refused s request (.inl hc) ha)
    · obtain hr | ⟨_,_,_,ha⟩ := register_write s _ hrg
      · exact hr.1
      · exact absurd h (accepted_not_refused s request (.inr hrg) ha)
  · exact other_kept s _ hf

variable {function}

theorem read_not_write (h : IsRead function) : ¬IsWrite function := by
  rcases h with rfl | rfl | rfl | rfl <;> simp [IsWrite,IsCoilWrite,IsRegisterWrite]

theorem store_effect : Effect s request where
  reads := fun hf => other_kept s request (read_not_write hf)
  refused := refused_kept s request
  coils := fun hf ha => by
    obtain hr | ⟨_,hsp,hs,_⟩ := coil_write s request hf
    · exact absurd ha (refused_not_accepted s request (.inl hf) hr)
    · rw [hs]
      exact ⟨copied_exactly hsp,rfl⟩
  registers := fun hf ha => by
    obtain hr | ⟨_,hsp,hs,_⟩ := register_write s request hf
    · exact absurd ha (refused_not_accepted s request (.inr hf) hr)
    · rw [hs]
      exact ⟨copied_exactly hsp,rfl⟩
  indices := read_effect s request
  values := fun hf ha => by
    rcases hf with hc | hrg
    · obtain hr | ⟨hin,_⟩ := coil_write s request hc
      · exact absurd ha (refused_not_accepted s request (.inl hc) hr)
      · exact hin
    · obtain hr | ⟨hin,_⟩ := register_write s request hrg
      · exact absurd ha (refused_not_accepted s request (.inr hrg) hr)
      · exact hin

/-- In every state that configurations and writes lead to, for every request: an accepted
write changes exactly the cells it addresses, to the values it carries; nothing else
changes the store; and all addresses are looked up inside the configured areas. -/
theorem handle_effect (calls : List Store.Call) (request : Bytes) :
    Effect (run Store.call Store.initial calls) request :=
  store_effect _ _

end EMaster.ModbusProtocol
