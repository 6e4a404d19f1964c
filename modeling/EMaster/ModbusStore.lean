import EMaster.Text
import EMaster.Bytes
import EMaster.Runs

/-!
# The register store

Four address areas that the slaves and the application share. An area holds one cell for
each address of its configured range; before it is configured the range is empty. Reads
and writes are refused unless all their addresses are in the range.
-/

set_option autoImplicit false

namespace EMaster.ModbusStore
open List

inductive ModbusArea where
  | kCoils
  | kDiscreteInputs
  | kInputRegisters
  | kHoldingRegisters
  deriving DecidableEq, Repr

structure ModbusRange where
  start : ℤ := 0
  count : ℤ := 0
  deriving DecidableEq, Repr

structure AreaStorage (α : Type*) where
  range : ModbusRange
  cells : List α
  sized : (cells.length : ℤ) = range.count
  low : 0 ≤ range.start
  fits : range.start+range.count ≤ 65536
  deriving DecidableEq

structure Store where
  (coils discreteInputs : AreaStorage Bool)
  (inputRegisters holdingRegisters : AreaStorage UInt16)
  deriving DecidableEq

def kMaxPoints : ℤ := 65536

def validateRange (range : ModbusRange) : Bool :=
  !(range.start < 0 || range.count ≤ 0 || 65535 < range.start || kMaxPoints < range.count ||
    65536-range.count < range.start)

def validateAccess (area : ModbusArea) (write : Bool) : Except Text Unit :=
  if write && (area = .kDiscreteInputs || area = .kInputRegisters) then
    .error "address area is read-only"
  else .ok ()

namespace AreaStorage

variable {α : Type*}

def unconfigured : AreaStorage α := ⟨{},[],rfl,le_rfl,by decide⟩

theorem assigned_fits {range : ModbusRange} (h : validateRange range = true) :
    0 < range.count ∧ 0 ≤ range.start ∧ range.start+range.count ≤ 65536 := by
  simp [validateRange,kMaxPoints] at h
  omega

def assigned (range : ModbusRange) (value : α) (h : validateRange range = true) :
    AreaStorage α where
  range := range
  cells := List.replicate range.count.toNat value
  sized := by
    have := assigned_fits h
    rw [length_replicate]
    omega
  low := (assigned_fits h).2.1
  fits := (assigned_fits h).2.2

def cell (storage : AreaStorage α) (address : ℤ) : Option α :=
  if storage.range.start ≤ address then
    storage.cells[(address-storage.range.start).toNat]?
  else none

def validateSpan (storage : AreaStorage α) (address quantity : ℤ) : Bool :=
  !(quantity ≤ 0 || address < storage.range.start || storage.range.count < quantity ||
    storage.range.start+storage.range.count-quantity < address)

def spanError : Text := "address is outside the configured register range"

variable (storage : AreaStorage α) (addr : ℤ)

theorem validate_span_iff (quantity : ℤ) :
    storage.validateSpan addr quantity = true ↔
      0 < quantity ∧ storage.range.start ≤ addr ∧
        addr+quantity ≤ storage.range.start+storage.range.count := by
  simp [validateSpan]
  omega

def offset (storage : AreaStorage α) (address : ℤ) : ℕ := (address-storage.range.start).toNat

def read (storage : AreaStorage α) (address quantity : ℤ) : Except Text (List α) :=
  if storage.validateSpan address quantity then
    .ok ((storage.cells.drop (storage.offset address)).take quantity.toNat)
  else .error spanError

def copied (storage : AreaStorage α) (address : ℤ) (values : List α) : AreaStorage α where
  range := storage.range
  cells := storage.cells.mapIdx (fun i old =>
    if storage.offset address ≤ i then values.getD (i-storage.offset address) old else old)
  sized := by rw [length_mapIdx,storage.sized]
  low := storage.low
  fits := storage.fits

def write (storage : AreaStorage α) (address : ℤ) (values : List α) : Except Text (AreaStorage α) :=
  if storage.validateSpan address values.length then .ok (storage.copied address values)
  else .error spanError

theorem read_length (quantity : ℤ) (vs : List α) (h : storage.read addr quantity = .ok vs) : (vs.length : ℤ) = quantity := by
  rw [read] at h
  split_ifs at h with hs
  obtain ⟨hp,hl,hh⟩ := (validate_span_iff _ addr _).mp hs
  have hsz := storage.sized
  cases h
  rw [length_take,length_drop,offset]
  omega

theorem cell_copied (vs : List α) (h : storage.validateSpan addr vs.length = true) (a : ℤ) :
    (storage.copied addr vs).cell a =
      if addr ≤ a ∧ a < addr+vs.length then vs[(a-addr).toNat]?
      else storage.cell a := by
  obtain ⟨hp,hl,hh⟩ := (validate_span_iff _ addr _).mp h
  have hsz := storage.sized
  have ho : storage.offset addr = (addr-storage.range.start).toNat := rfl
  by_cases hs : storage.range.start ≤ a
  · simp only [cell,copied,hs,if_true,List.getElem?_mapIdx]
    by_cases ha : addr ≤ a ∧ a < addr+vs.length
    · have hin : (a-storage.range.start).toNat < storage.cells.length := by omega
      have hv : (a-storage.range.start).toNat-storage.offset addr = (a-addr).toNat := by omega
      have hlt : (a-addr).toNat < vs.length := by omega
      rw [if_pos ha,List.getElem?_eq_getElem hin,Option.map_some,if_pos (by omega),
        hv,getD_eq_getElem _ _ hlt,List.getElem?_eq_getElem hlt]
    · rw [if_neg ha]
      cases hc : storage.cells[(a-storage.range.start).toNat]? with
      | none => rfl
      | some old =>
        rw [Option.map_some]
        split_ifs
        · rw [getD_eq_default _ _ (by omega)]
        · rfl
  · rw [if_neg (by omega)]
    simp [cell,copied,hs]

end AreaStorage

namespace Store

def initial : Store := ⟨.unconfigured,.unconfigured,.unconfigured,.unconfigured⟩

variable (s : Store) (area : ModbusArea)

def configure (range : ModbusRange) : Except Text Store :=
  if h : validateRange range = true then
    .ok (match area with
      | .kCoils => { s with coils := .assigned range false h }
      | .kDiscreteInputs => { s with discreteInputs := .assigned range false h }
      | .kInputRegisters => { s with inputRegisters := .assigned range 0 h }
      | .kHoldingRegisters => { s with holdingRegisters := .assigned range 0 h })
  else .error "range must fit within Modbus addresses 0..65535"

def readBits (address quantity : ℤ) : Except Text (List Bool) :=
  match area with
  | .kCoils => s.coils.read address quantity
  | .kDiscreteInputs => s.discreteInputs.read address quantity
  | _ => .error "area is not bit storage"

def writeBits (address : ℤ) (values : List Bool) : Except Text Store := do
  validateAccess area true
  match area with
  | .kCoils =>
    let storage ← s.coils.write address values
    .ok { s with coils := storage }
  | _ => .error "area is not writable coil storage"

def readRegisters (address quantity : ℤ) : Except Text (List UInt16) :=
  match area with
  | .kInputRegisters => s.inputRegisters.read address quantity
  | .kHoldingRegisters => s.holdingRegisters.read address quantity
  | _ => .error "area is not register storage"

def writeRegisters (address : ℤ) (values : List UInt16) :
    Except Text Store := do
  validateAccess area true
  match area with
  | .kHoldingRegisters =>
    let storage ← s.holdingRegisters.write address values
    .ok { s with holdingRegisters := storage }
  | _ => .error "area is not writable holding-register storage"

inductive Call where
  | configure (area : ModbusArea) (range : ModbusRange)
  | writeBits (area : ModbusArea) (address : ℤ) (values : List Bool)
  | writeRegisters (area : ModbusArea) (address : ℤ) (values : List UInt16)

def result : Call → Except Text Store
  | .configure area range => s.configure area range
  | .writeBits area address values => s.writeBits area address values
  | .writeRegisters area address values => s.writeRegisters area address values

def call (c : Call) : Store :=
  match s.result c with
  | .ok changed => changed
  | .error _ => s

theorem write_bits_cases (addr : ℤ) (vs : List Bool) :
    s.coils.validateSpan addr vs.length = true ∧
        s.writeBits .kCoils addr vs = .ok { s with coils := s.coils.copied addr vs } ∨
      s.coils.validateSpan addr vs.length = false ∧
        s.writeBits .kCoils addr vs = .error AreaStorage.spanError := by
  cases h : s.coils.validateSpan addr vs.length with
  | true => exact .inl ⟨rfl,by simp [writeBits,validateAccess,AreaStorage.write,h]; rfl⟩
  | false => exact .inr ⟨rfl,by simp [writeBits,validateAccess,AreaStorage.write,h]; rfl⟩

theorem write_registers_cases (addr : ℤ) (vs : List UInt16) :
    s.holdingRegisters.validateSpan addr vs.length = true ∧
        s.writeRegisters .kHoldingRegisters addr vs =
          .ok { s with holdingRegisters := s.holdingRegisters.copied addr vs } ∨
      s.holdingRegisters.validateSpan addr vs.length = false ∧
        s.writeRegisters .kHoldingRegisters addr vs = .error AreaStorage.spanError := by
  cases h : s.holdingRegisters.validateSpan addr vs.length with
  | true => exact .inl ⟨rfl,by simp [writeRegisters,validateAccess,AreaStorage.write,h]; rfl⟩
  | false =>
    exact .inr ⟨rfl,by simp [writeRegisters,validateAccess,AreaStorage.write,h]; rfl⟩

end Store

end EMaster.ModbusStore
