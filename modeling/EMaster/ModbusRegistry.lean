import EMaster.Json
import EMaster.Runs
import EMaster.NamedRows

/-!
# Named points of the controller and the poller

Scripts give names to inputs, outputs and registers. The poller works through a copy of
each list: it reads a point, then stores the value under the name of the point. A script may
register, re-register or drop points between any two of its steps.
-/

set_option autoImplicit false

namespace EMaster.ModbusRegistry
open NamedRows

inductive ModbusSource where
  | kAuto
  | kDiscreteInput
  | kCoil
  deriving DecidableEq, Repr

structure ModbusPoint where
  name : Text
  address : ℤ := 0
  owner : ℤ := 0
  value : Bool := false
  valid : Bool := false
  source : ModbusSource := .kAuto
  functionCode : ℕ := 0
  deriving DecidableEq, Repr

inductive RegisterType where
  | kUInt16
  | kInt16
  | kUInt32
  | kInt32
  | kUInt64
  | kInt64
  | kFloat32
  | kFloat64
  | kString
  deriving DecidableEq, Repr

structure RegisterFormat where
  type : RegisterType := .kUInt16
  byteSwap : Bool := false
  wordSwap : Bool := false
  length : ℤ := 0
  deriving DecidableEq, Repr

structure ModbusRegisterPoint where
  name : Text
  address : ℤ := 0
  owner : ℤ := 0
  format : RegisterFormat := {}
  inputRegister : Bool := false
  writable : Bool := false
  unit : Text := []
  raw : List UInt16 := []
  value : Json := .null
  valid : Bool := false
  error : Text := []

/-- What a reading depends on: where the words are and how they are decoded. -/
structure Shape where
  address : ℤ
  inputRegister : Bool
  format : RegisterFormat
  deriving DecidableEq, Repr

def ModbusRegisterPoint.shape (p : ModbusRegisterPoint) : Shape :=
  ⟨p.address,p.inputRegister,p.format⟩

structure Registry where
  (inputs outputs : List ModbusPoint)
  registers : List ModbusRegisterPoint

def redeclare (address : ℤ) (source : ModbusSource) (owner : ℤ) (p : ModbusPoint) : ModbusPoint :=
  if p.address ≠ address ∨ p.source ≠ source then
    { p with
      address := address
      source := source
      valid := false
      value := false
      functionCode := 0
      owner := owner }
  else { p with owner := owner }

def upsertUnlocked (points : List ModbusPoint) (name : Text) (address : ℤ)
    (source : ModbusSource) (owner : ℤ) : List ModbusPoint :=
  upsert (fun p => p.name = name) (redeclare address source owner)
    { name := name, address := address, source := source, owner := owner } points

def readBack (value : Bool) (functionCode : ℕ) (p : ModbusPoint) : ModbusPoint :=
  { p with value := value, valid := true, functionCode := functionCode }

def updateUnlocked (points : List ModbusPoint) (name : Text) (value : Bool)
    (functionCode : ℕ) : List ModbusPoint :=
  amend (fun p => p.name = name) (readBack value functionCode) points

namespace Registry

def empty : Registry := ⟨[],[],[]⟩

def isEmpty (r : Registry) : Bool := r.inputs.isEmpty && r.outputs.isEmpty && r.registers.isEmpty

variable (r : Registry) (name : Text)

def registerInput (address : ℤ) (source : ModbusSource) (owner : ℤ) : Registry :=
  { r with inputs := upsertUnlocked r.inputs name address source owner }

def registerOutput (address owner : ℤ) : Registry :=
  { r with outputs := upsertUnlocked r.outputs name address .kCoil owner }

/-- The cached reading stays only if nothing about the layout moved. -/
def replaced (point existing : ModbusRegisterPoint) : ModbusRegisterPoint :=
  if existing.shape = point.shape then
    { point with
      raw := existing.raw
      value := existing.value
      valid := existing.valid
      error := existing.error }
  else point

def registerRegister (point : ModbusRegisterPoint) : Registry :=
  { r with
    registers := upsert (fun p => p.name = point.name) (replaced point) point r.registers }

def updateRegister (raw : List UInt16) (value : Json) : Registry :=
  { r with
    registers := amend (fun p => p.name = name)
      (fun p => { p with raw := raw,value := value,valid := true,error := [] }) r.registers }

def updateRegisterError (error : Text) : Registry :=
  { r with
    registers := amend (fun p => p.name = name) (fun p => { p with error := error }) r.registers }

def clearOwner (owner : ℤ) : Registry :=
  ⟨r.inputs.filter (fun p => p.owner ≠ owner),r.outputs.filter (fun p => p.owner ≠ owner),
    r.registers.filter (fun p => p.owner ≠ owner)⟩

def updateInput (value : Bool) (functionCode : ℕ) : Registry :=
  { r with inputs := updateUnlocked r.inputs name value functionCode }

def updateOutput (value : Bool) : Registry :=
  { r with outputs := updateUnlocked r.outputs name value 1 }

def setResolvedSource (source : ModbusSource) : Registry :=
  { r with
    inputs := amend (fun p => p.name = name && p.source = .kAuto)
      (fun p => { p with source := source }) r.inputs }

end Registry

end EMaster.ModbusRegistry
