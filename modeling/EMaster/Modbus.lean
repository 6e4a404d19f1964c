import EMaster.LockerConfig

/-!
# Driving one output of the controller

Logical addresses are decoded into an address space and an offset. A coil is
written as a bit; a holding register is read, changed and written back. What the
controller answers is supplied, once for the write that sets the output and once
for the write that clears it. The accepted writes are recorded.
-/

set_option autoImplicit false

namespace EMaster.Modbus
open LockerConfig

/-- What the controller answers while one bit is written. A read has already
been retried as often as configured. -/
structure Plc where
  read : Space → ℤ → Option (BitVec 64)
  accepts : Space → ℤ → BitVec 64 → Bool

structure Answers where
  busy : Bool
  (onSet onClear : Plc)

/-- One write that the controller accepted: the bit that was meant, the value it
was given, and the word that went out. -/
structure Write where
  address : ℤ
  bit : ℕ
  on : Bool
  space : Space
  offset : ℤ
  word : BitVec 64
  deriving DecidableEq, Repr

def modicon : List AddressRange :=
  [⟨1,9999,.coil,1⟩,⟨10001,19999,.discreteInput,10001⟩,⟨30001,39999,.inputRegister,30001⟩,
   ⟨40001,49999,.holding,40001⟩,⟨100001,165536,.coil,100001⟩,
   ⟨300001,365536,.inputRegister,300001⟩,⟨400001,465536,.holding,400001⟩]

def lockerIo : List AddressRange :=
  [⟨1,9999,.coil,1⟩,⟨10001,19999,.coil,10001⟩,⟨20001,29999,.discreteInput,20001⟩,
   ⟨30001,39999,.inputRegister,30001⟩,⟨40001,49999,.holding,40001⟩,
   ⟨100001,165536,.coil,100001⟩,⟨200001,265536,.discreteInput,200001⟩,
   ⟨300001,365536,.inputRegister,300001⟩,⟨400001,465536,.holding,400001⟩]

def ranges (settings : PlcSettings) : List AddressRange :=
  if settings.addressRanges ≠ [] then settings.addressRanges
  else match settings.addressMode with
    | .modicon => modicon
    | .lockerIo => lockerIo
    | .raw => []

def decode (settings : PlcSettings) (address : ℤ) (defaultSpace : Space) : Space × ℤ :=
  match (ranges settings).find?
      (fun range => decide (range.first ≤ address ∧ address ≤ range.last)) with
  | none => (defaultSpace,address)
  | some range => (range.space,address-range.base)

def spaceName : Space → Text
  | .coil => "coil"
  | .discreteInput => "discrete_input"
  | .inputRegister => "input_register"
  | .holding => "holding"

/-- The outcome of writing one bit: whether it succeeded, and the write that
went out, if one did. -/
structure Written where
  result : Except Text Unit
  write : Option Write

def writable : Space → Bool
  | .coil => true
  | .holding => true
  | _ => false

def writeRegister (plc : Plc) (address : ℤ) (bit : ℕ) (on : Bool) (place : Space × ℤ)
    (word : BitVec 64) : Written :=
  if writable place.1 = false then ⟨.error (spaceName place.1++" is read-only"),none⟩
  else if plc.accepts place.1 place.2 word then
    ⟨.ok (),some ⟨address,bit,on,place.1,place.2,word⟩⟩
  else ⟨.error "PLC rejected the write",none⟩

def bitMask (bit : ℕ) : BitVec 64 := 1#64 <<< bit

def updatedWord (current : BitVec 64) (bit : ℕ) (on : Bool) : BitVec 64 :=
  if on then current ||| bitMask bit else current &&& (~~~bitMask bit &&& 0xFFFF#64)

def coilWord (on : Bool) : BitVec 64 := if on then 1#64 else 0#64

def writeBit (settings : PlcSettings) (plc : Plc) (address : ℤ) (bit : ℕ) (on : Bool) : Written :=
  let place := decode settings address (decode settings address .holding).1
  if place.1 = .coil then
    writeRegister plc address bit on place (coilWord on)
  else match plc.read place.1 place.2 with
    | none => ⟨.error "no reply from PLC",none⟩
    | some current =>
      if updatedWord current bit on = current then ⟨.ok (),none⟩
      else writeRegister plc address bit on place (updatedWord current bit on)

/-- Whether the output was set, so that the call slept before it cleared it, comes with the
result. -/
structure Triggered where
  result : Except Text Unit
  writes : List Write
  held : Bool

/-- Set, hold, clear. A refused clear is an error although the output was set. -/
def triggerBit (settings : PlcSettings) (answers : Answers) (address : ℤ) (bit : ℕ) : Triggered :=
  if answers.busy then ⟨.error "another register update is in progress",[],false⟩
  else
    let set := writeBit settings answers.onSet address bit true
    match set.result with
    | .error reason => ⟨.error reason,set.write.toList,false⟩
    | .ok () =>
      let clear := writeBit settings answers.onClear address bit false
      ⟨clear.result,set.write.toList++clear.write.toList,true⟩

def pulses (writes : List Write) : List Write := writes.filter (fun write => write.on)

/-- The write went to the place that this register decodes to. -/
def Drives (settings : PlcSettings) (register : ℤ) (bit : ℕ) (write : Write) : Prop :=
  write.address = register ∧ write.bit = bit ∧
    (write.space,write.offset) = decode settings register .holding

variable (settings : PlcSettings) (plc : Plc) (answers : Answers) (addr : ℤ) (bit : ℕ)

variable {write : Write} {on : Bool}

variable {addr answers bit settings}

end EMaster.Modbus
