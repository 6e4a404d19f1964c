import EMaster.Transport

/-!
# The native Modbus TCP driver

The driver of the Modbus plugin, written in C. The buffers are those of the functions and of
the driver record; a blob that a caller passes in is a buffer of its own length. Calls with a
null pointer return at once and are left out.
-/

set_option autoImplicit false

namespace EMaster.ModbusDriver
open Bytes Program Transport List

def MODBUS_MAX_ADU : ℕ := 260
def MODBUS_MAX_READ_BITS : ℕ := 2000
def MODBUS_MAX_READ_REGISTERS : ℕ := 125
def MODBUS_MAX_WRITE_BITS : ℕ := 1968
def MODBUS_MAX_WRITE_REGISTERS : ℕ := 123

inductive Buffer where
  | adu
  | header
  | response
  | valueBuffer
  | pair
  | multiple
  | lastError
  | blob (length : ℕ)
  deriving DecidableEq, Repr

def size : Buffer → ℕ
  | .adu => MODBUS_MAX_ADU
  | .header => 7
  | .response => MODBUS_MAX_ADU
  | .valueBuffer => 250
  | .pair => 4
  | .multiple => MODBUS_MAX_ADU
  | .lastError => 160
  | .blob length => length

section
variable (length : ℕ)

@[simp] theorem size_adu : size .adu = 260 := rfl
@[simp] theorem size_response : size .response = 260 := rfl
@[simp] theorem size_value_buffer : size .valueBuffer = 250 := rfl
@[simp] theorem size_pair : size .pair = 4 := rfl
@[simp] theorem size_multiple : size .multiple = 260 := rfl
@[simp] theorem size_last_error : size .lastError = 160 := rfl
@[simp] theorem size_blob : size (.blob length) = length := rfl

end

structure Driver where
  attached : Bool
  status : DriverStatus
  (timeoutMs unitId healthFunction healthAddress healthCount : ℤ)
  running : Bool
  transaction : UInt16
  response : Bytes
  responseLength : ℕ
  valueBuffer : Bytes

def Driver.zero : Driver := ⟨false,.zero,0,0,0,0,0,false,0,[],0,List.replicate 250 0⟩

structure Config where
  (timeoutMs unitId healthFunction healthAddress healthCount : ℤ)

variable {σ : Type}

abbrev Io (σ α : Type) : Type := Prog (World Buffer Driver σ) α

def setError (message : String) : Io σ Unit := do
  let text := message.toList.take 159
  touch [⟨.lastError,0,text.length+1⟩]
  setDriver (fun d => { d with status := { d.status with lastError := text } })

def adu (transaction : UInt16) (unitId : ℤ) (function : UInt8) (payload : Bytes) : Bytes :=
  putU16 transaction++putU16 0++putU16 (.ofNat (payload.length+2))++[UInt8.ofInt unitId,function]++
    payload

section
variable (T : VTable σ) (fuel : ℕ)

def receiveReply (self : Driver) (function : UInt8) : Io σ Status := do
  let (status,header) ← readExact T self.timeoutMs .header 0 7 fuel []
  if status < 0 then pure status
  else do
    touch [⟨.header,4,2⟩,⟨.header,0,2⟩,⟨.header,2,2⟩,⟨.header,6,1⟩]
    let length := (getU16 header 4).toNat
    if getU16 header 0 ≠ self.transaction ∨ getU16 header 2 ≠ 0 ∨
        header.getD 6 0 ≠ UInt8.ofInt self.unitId ∨ length < 2 ∨ 254 < length then
      pure HSF_ERR_PROTOCOL
    else do
      setDriver (fun d => { d with responseLength := length-1 })
      let (status,response) ← readExact T self.timeoutMs .response 0 (length-1) fuel []
      if status < 0 then pure status
      else do
        setDriver (fun d => { d with response := response })
        touch [⟨.response,0,1⟩]
        pure (if response.getD 0 0 = function ||| 0x80 then HSF_ERR_PROTOCOL
          else if response.getD 0 0 = function then HSF_OK else HSF_ERR_PROTOCOL)

variable (function : UInt8)

def exchangeOnce (source : Buffer) (payload : Bytes) : Io σ Status := do
  setDriver (fun d => { d with transaction := d.transaction+1 })
  let self ← getDriver
  if MODBUS_MAX_ADU < payload.length+8 then pure HSF_ERR_INVALID_ARG
  else do
    touch [⟨.adu,0,2⟩,⟨.adu,2,2⟩,⟨.adu,4,2⟩,⟨.adu,6,1⟩,⟨.adu,7,1⟩,⟨source,0,payload.length⟩,
      ⟨.adu,8,payload.length⟩]
    let status ← writeAll T self.timeoutMs .adu
      (adu self.transaction self.unitId function payload) fuel 0
    if status < 0 then pure status else receiveReply T fuel self function

def exchange (source : Buffer) (payload : Bytes) : Io σ Status := do
  let self ← getDriver
  let status ← ensureTransportOpen T self.attached
  if status < 0 then pure status
  else do
    let status ← exchangeOnce T fuel function source payload
    if reconnectable status = false then pure status
    else do
      closeLink T
      let status ← ensureTransportOpen T self.attached
      if status < 0 then pure status else exchangeOnce T fuel function source payload

variable (address : DeviceAddress)

def addressAndCount : Option (UInt16×UInt16) :=
  let requested := if 0 < address.a3 then address.a3 else 1
  if address.a2 < 0 ∨ 65535 < address.a2 ∨ requested < 1 ∨ 65535 < requested then none
  else some (.ofInt address.a2,.ofInt requested)

def overwrite (data buffer : Bytes) : Bytes := data++buffer.drop data.length

def decode (count : UInt16) (i16 : Bool) (byteCount : ℕ) (buffer : Bytes) : Status×Value :=
  if function ≤ 2 ∧ count = 1 then (HSF_OK,.bool (buffer.getD 0 0 &&& 1 ≠ 0))
  else if 3 ≤ function ∧ count = 1 then
    if byteCount ≠ 2 then (HSF_ERR_PROTOCOL,.null)
    else (HSF_OK,if i16 then .i64 (getU16 buffer 0).toInt16.toInt else .u64 (getU16 buffer 0).toNat)
  else (HSF_OK,.blob (some (buffer.take byteCount)))

def decodeAccesses (count : UInt16) (byteCount : ℕ) : List (Access Buffer) :=
  if function ≤ 2 ∧ count = 1 then [⟨.valueBuffer,0,1⟩]
  else if 3 ≤ function ∧ count = 1 then if byteCount ≠ 2 then [] else [⟨.valueBuffer,0,2⟩]
  else [⟨.valueBuffer,0,byteCount⟩]

def readPoint : Io σ (Status×Value) := do
  let function := UInt8.ofInt address.a1
  if function < 1 ∨ 4 < function then pure (HSF_ERR_NOT_SUPPORTED,.null)
  else match addressAndCount address with
    | none => pure (HSF_ERR_INVALID_ARG,.null)
    | some (start,count) =>
      if function ≤ 2 ∧ MODBUS_MAX_READ_BITS < count.toNat ∨
          3 ≤ function ∧ MODBUS_MAX_READ_REGISTERS < count.toNat then
        pure (HSF_ERR_INVALID_ARG,.null)
      else do
        touch [⟨.pair,0,2⟩,⟨.pair,2,2⟩]
        let status ← exchange T fuel function .pair (putU16 start++putU16 count)
        if status < 0 then pure (status,.null)
        else do
          let self ← getDriver
          if self.responseLength < 2 then pure (HSF_ERR_PROTOCOL,.null)
          else do
            touch [⟨.response,1,1⟩]
            let byteCount := (self.response.getD 1 0).toNat
            if self.responseLength ≠ byteCount+2 ∨ 250 < byteCount then
              pure (HSF_ERR_PROTOCOL,.null)
            else do
              touch [⟨.response,2,byteCount⟩,⟨.valueBuffer,0,byteCount⟩]
              let buffer := overwrite ((self.response.drop 2).take byteCount) self.valueBuffer
              setDriver (fun d => { d with valueBuffer := buffer })
              touch (decodeAccesses function count byteCount)
              pure (decode function count address.i16 byteCount buffer)

def writeSingle (address raw : UInt16) : Io σ Status := do
  let request := putU16 address++putU16 raw
  touch [⟨.pair,0,2⟩,⟨.pair,2,2⟩]
  let status ← exchange T fuel function .pair request
  if status < 0 then pure status
  else do
    let self ← getDriver
    if self.responseLength ≠ 5 then pure HSF_ERR_PROTOCOL
    else do
      touch [⟨.response,1,4⟩,⟨.pair,0,4⟩]
      pure (if (self.response.drop 1).take 4 ≠ request then HSF_ERR_PROTOCOL else HSF_OK)

def multipleBytes (count : UInt16) : Option ℕ :=
  if function = 15 then
    if count.toNat < 1 ∨ MODBUS_MAX_WRITE_BITS < count.toNat then none else some ((count.toNat+7)/8)
  else
    if count.toNat < 1 ∨ MODBUS_MAX_WRITE_REGISTERS < count.toNat then none
    else some (count.toNat*2)

def writeMultiple (address count : UInt16) : Option Bytes → Io σ Status
  | none => pure HSF_ERR_INVALID_ARG
  | some blob =>
    match multipleBytes function count with
    | none => pure HSF_ERR_INVALID_ARG
    | some byteCount =>
      if blob.length ≠ byteCount ∨ 246 < byteCount then pure HSF_ERR_INVALID_ARG
      else do
        touch [⟨.multiple,0,2⟩,⟨.multiple,2,2⟩,⟨.multiple,4,1⟩,⟨.blob blob.length,0,byteCount⟩,
          ⟨.multiple,5,byteCount⟩]
        let request := putU16 address++putU16 count++[UInt8.ofNat byteCount]++blob
        let status ← exchange T fuel function .multiple request
        if status < 0 then pure status
        else do
          let self ← getDriver
          if self.responseLength ≠ 5 then pure HSF_ERR_PROTOCOL
          else do
            touch [⟨.response,1,4⟩,⟨.multiple,0,4⟩]
            pure (if (self.response.drop 1).take 4 ≠ request.take 4 then HSF_ERR_PROTOCOL
              else HSF_OK)

def Config.refused (c : Config) : Bool :=
  c.timeoutMs < 1 || c.unitId < 0 || 255 < c.unitId || c.healthFunction < 1 ||
    4 < c.healthFunction || c.healthAddress < 0 || 65535 < c.healthAddress || c.healthCount < 1 ||
    (c.healthFunction ≤ 2 && MODBUS_MAX_READ_BITS < c.healthCount) ||
    (3 ≤ c.healthFunction && MODBUS_MAX_READ_REGISTERS < c.healthCount)

def driverInitialize (c : Config) : Io σ Status := do
  setDriver (fun _ => { Driver.zero with
    attached := true, timeoutMs := c.timeoutMs, unitId := c.unitId,
    healthFunction := c.healthFunction, healthAddress := c.healthAddress,
    healthCount := c.healthCount })
  if c.refused then pure HSF_ERR_CONFIG
  else do
    setDriver (fun d => { d with status := { d.status with state := .READY } })
    pure HSF_OK

def driverStart : Io σ Status := do
  setDriver (fun d => { d with running := true,status := { d.status with state := .RUNNING } })
  let self ← getDriver
  let status ← ensureTransportOpen T self.attached
  setDriver (fun d => { d with status := { d.status with connected := decide (0 ≤ status) } })
  setError (if status < 0 then "transport offline; reconnecting on the next operation" else "")
  pure HSF_OK

def driverStop : Io σ Status := do
  let self ← getDriver
  closeAttached T self.attached
  setDriver (fun d => { d with
    running := false, status := { d.status with connected := false, state := .READY } })
  pure HSF_OK

def countRead (ok : Bool) (s : DriverStatus) : DriverStatus :=
  if ok then { s with readsOk := s.readsOk+1, connected := true }
  else { s with readsFailed := s.readsFailed+1, connected := false }

def countWrite (ok : Bool) (s : DriverStatus) : DriverStatus :=
  if ok then { s with writesOk := s.writesOk+1, connected := true }
  else { s with writesFailed := s.writesFailed+1, connected := false }

def finish (count : Bool → DriverStatus → DriverStatus) (status : Status) : Io σ Unit := do
  setDriver (fun d => { d with status := count (status = HSF_OK) d.status })
  setError (if status = HSF_OK then "" else statusName status)

def driverRead : Io σ (Status×Value) := do
  let self ← getDriver
  if self.running = false then pure (HSF_ERR_STATE,.null)
  else do
    let (status,value) ← readPoint T fuel address
    finish countRead status
    pure (status,value)

/-- The one request that a value is written with. -/
def writeValue (start count : UInt16) (value : Value) : Io σ Status :=
  match function, value with
  | 5, .bool b => writeSingle T fuel 5 start (if b then 0xFF00 else 0)
  | 6, .i64 n => if n < 0 ∨ 65535 < n then pure HSF_ERR_INVALID_ARG
      else writeSingle T fuel 6 start (.ofInt n)
  | 6, .u64 n => if 65535 < n then pure HSF_ERR_INVALID_ARG
      else writeSingle T fuel 6 start (.ofNat n)
  | 15, .blob data => writeMultiple T fuel 15 start count data
  | 16, .blob data => writeMultiple T fuel 16 start count data
  | _, _ => pure HSF_ERR_NOT_SUPPORTED

def driverWrite (value : Value) : Io σ Status := do
  let self ← getDriver
  if self.running = false then pure HSF_ERR_STATE
  else match addressAndCount address with
    | none => pure HSF_ERR_INVALID_ARG
    | some (start,count) => do
      let function := UInt8.ofInt address.a1
      let function := if function = 1 then 5 else if function = 3 then 6 else function
      let status ← writeValue T fuel function start count value
      finish countWrite status
      pure status

def driverHealth : Io σ Status := do
  let self ← getDriver
  let (status,_) ← driverRead T fuel ⟨self.healthFunction,self.healthAddress,self.healthCount,false⟩
  pure status

end

inductive Call where
  | initialized (config : Config)
  | start
  | stop
  | read (address : DeviceAddress)
  | write (address : DeviceAddress) (value : Value)
  | health

def perform (T : VTable σ) (fuel : ℕ) : Call → Io σ Status
  | .initialized config => driverInitialize config
  | .start => driverStart T
  | .stop => driverStop T
  | .read address => do
    let (status,_) ← driverRead T fuel address
    pure status
  | .write address value => driverWrite T fuel address value
  | .health => driverHealth T fuel

def session (T : VTable σ) : List (Call×ℕ) → Io σ Unit
  | [] => pure ()
  | (call,fuel)::calls => do
    let _ ← perform T fuel call
    session T calls

/-! ## Every access is inside its buffer -/

def Steady (w : World Buffer Driver σ) : Prop := Keeps size (fun _ => True) w

@[reducible] def Stays {α : Type} (m : Io σ α) : Prop :=
  Triple (Inside size) Steady m (fun _ => Steady)

theorem set_steady (f : Driver → Driver) : Stays (setDriver f : Io σ Unit) :=
  set_driver_inside (fun _ _ => trivial)

theorem get_steady : Stays (getDriver : Io σ Driver) :=
  get_driver_inside.weaken (fun _ hw => hw) (fun _ _ h => h.1)

theorem set_error_inside (msg : String) : Stays (setError msg : Io σ Unit) := by
  refine (touch_inside _ ?_).bind (fun _ => set_steady _)
  simp only [mem_singleton,forall_eq,Access.Fits,size_last_error,length_take]
  omega

theorem adu_length (transaction : UInt16) (unit : ℤ) (fn : UInt8) (payload : Bytes) :
    (adu transaction unit fn payload).length = payload.length+8 := by
  simp [adu,putU16]

theorem decode_accesses_fit {fn : UInt8} {count : UInt16} {byteCount : ℕ}
    (h : byteCount ≤ 250) : ∀ a ∈ decodeAccesses fn count byteCount, a.Fits size := by
  unfold decodeAccesses
  split_ifs <;> simp [Access.Fits,h]

section
variable (T : VTable σ) (fuel : ℕ)

theorem receive_reply_inside (self : Driver) (fn : UInt8) :
    Stays (receiveReply T fuel self fn) := by
  refine (read_exact_inside T _ Buffer.header 0 7 (by decide) fuel [] (by simp)).bind ?_
  rintro ⟨st,header⟩
  refine Triple.given (fun _ => guard_inside (fun _ => ?_))
  refine (touch_inside _ (by decide)).bind (fun _ => ?_)
  refine guard_inside (fun hl => ?_)
  refine (set_steady _).bind (fun _ => ?_)
  refine (read_exact_inside T _ Buffer.response 0 _ ?_ fuel [] (by simp)).bind ?_
  · simp only [not_or,not_lt] at hl
    rw [size_response]
    omega
  rintro ⟨st,resp⟩
  refine Triple.given (fun _ => guard_inside (fun _ => ?_))
  exact (set_steady _).bind (fun _ => (touch_inside _ (by decide)).bind (fun _ => pure_inside _))

variable (addr : DeviceAddress) (fn : UInt8)

theorem exchange_once_inside (src : Buffer) (payload : Bytes) (h : payload.length ≤ size src) :
    Stays (exchangeOnce T fuel fn src payload) := by
  refine (set_steady _).bind (fun _ => get_steady.bind (fun self => ?_))
  refine guard_inside (fun hf => ?_)
  have ha : payload.length+8 ≤ 260 := not_lt.mp hf
  refine (touch_inside _ ?_).bind (fun _ => ?_)
  · simp only [mem_cons,not_mem_nil,or_false,forall_eq_or_imp,forall_eq,Access.Fits,size_adu]
    omega
  refine (write_all_inside T _ (by rw [adu_length]; exact ha) fuel 0).bind (fun st => ?_)
  exact guard_inside (fun _ => receive_reply_inside T fuel self fn)

theorem exchange_inside (src : Buffer) (payload : Bytes) (h : payload.length ≤ size src) :
    Stays (exchange T fuel fn src payload) := by
  refine get_steady.bind (fun self => (ensure_open_inside T _).bind (fun st => ?_))
  refine guard_inside (fun _ => ?_)
  refine (exchange_once_inside T fuel fn src payload h).bind (fun st => ?_)
  refine guard_inside (fun _ => (close_link_inside T).bind (fun _ => ?_))
  refine (ensure_open_inside T _).bind (fun st => ?_)
  exact guard_inside (fun _ => exchange_once_inside T fuel fn src payload h)

theorem read_point_inside : Stays (readPoint T fuel addr) := by
  refine guard_inside (fun _ => ?_)
  cases addressAndCount addr with
  | none => exact pure_inside _
  | some place =>
    refine guard_inside (fun _ => ?_)
    refine (touch_inside _ (by decide)).bind (fun _ => ?_)
    refine (exchange_inside T fuel _ .pair _ (by simp [putU16])).bind (fun st => ?_)
    refine guard_inside (fun _ => get_steady.bind (fun self => ?_))
    refine guard_inside (fun _ => ?_)
    refine (touch_inside _ (by decide)).bind (fun _ => ?_)
    refine guard_inside (fun hc => ?_)
    have hb : (self.response.getD 1 0).toNat ≤ 250 := by
      simp only [not_or,not_lt] at hc
      exact hc.2
    refine (touch_inside _ ?_).bind (fun _ => (set_steady _).bind (fun _ => ?_))
    · simp only [mem_cons,not_mem_nil,or_false,forall_eq_or_imp,forall_eq,
        Access.Fits,size_response,size_value_buffer]
      omega
    exact (touch_inside _ (decode_accesses_fit hb)).bind (fun _ => pure_inside _)

theorem write_single_inside (addr raw : UInt16) : Stays (writeSingle T fuel fn addr raw) := by
  refine (touch_inside _ (by decide)).bind (fun _ => ?_)
  refine (exchange_inside T fuel _ .pair _ (by simp [putU16])).bind (fun st => ?_)
  refine guard_inside (fun _ => get_steady.bind (fun self => ?_))
  refine guard_inside (fun _ => ?_)
  exact (touch_inside _ (by decide)).bind (fun _ => pure_inside _)

theorem write_multiple_inside (addr count : UInt16) (blob : Option Bytes) :
    Stays (writeMultiple T fuel fn addr count blob) := by
  cases blob with
  | none => exact pure_inside _
  | some blob =>
    unfold writeMultiple
    cases multipleBytes fn count with
    | none => exact pure_inside _
    | some byteCount =>
      refine guard_inside (fun hc => ?_)
      simp only [not_or,not_not,not_lt] at hc
      obtain ⟨hb,hby⟩ := hc
      refine (touch_inside _ ?_).bind (fun _ => ?_)
      · simp only [mem_cons,not_mem_nil,or_false,forall_eq_or_imp,forall_eq,
          Access.Fits,size_multiple,size_blob]
        omega
      refine (exchange_inside T fuel _ .multiple _ ?_).bind (fun st => ?_)
      · simp only [putU16,length_append,length_cons,length_nil,size_multiple]
        omega
      refine guard_inside (fun _ => get_steady.bind (fun self => ?_))
      refine guard_inside (fun _ => ?_)
      exact (touch_inside _ (by decide)).bind (fun _ => pure_inside _)

theorem finish_inside (count : Bool → DriverStatus → DriverStatus) (st : Status) :
    Stays (finish count st : Io σ Unit) :=
  (set_steady _).bind (fun _ => set_error_inside _)

theorem driver_read_inside : Stays (driverRead T fuel addr) := by
  refine get_steady.bind (fun self => guard_inside (fun _ => ?_))
  refine (read_point_inside T fuel addr).bind ?_
  rintro ⟨st,value⟩
  exact (finish_inside countRead st).bind (fun _ => pure_inside _)

theorem write_value_inside (start count : UInt16) (value : Value) :
    Stays (writeValue T fuel fn start count value) := by
  unfold writeValue
  split
  · exact write_single_inside T fuel _ _ _
  · exact guard_inside (fun _ => write_single_inside T fuel _ _ _)
  · exact guard_inside (fun _ => write_single_inside T fuel _ _ _)
  · exact write_multiple_inside T fuel _ _ _ _
  · exact write_multiple_inside T fuel _ _ _ _
  · exact pure_inside _

theorem driver_write_inside (value : Value) : Stays (driverWrite T fuel addr value) := by
  refine get_steady.bind (fun self => guard_inside (fun _ => ?_))
  cases addressAndCount addr with
  | none => exact pure_inside _
  | some place =>
    refine (write_value_inside T fuel _ _ _ value).bind (fun st => ?_)
    exact (finish_inside countWrite st).bind (fun _ => pure_inside _)

theorem perform_inside (call : Call) : Stays (perform T fuel call) := by
  cases call with
  | initialized cfg =>
    refine (set_steady _).bind (fun _ => guard_inside (fun _ => ?_))
    exact (set_steady _).bind (fun _ => pure_inside _)
  | start =>
    refine (set_steady _).bind (fun _ => get_steady.bind (fun self => ?_))
    refine (ensure_open_inside T _).bind (fun st => (set_steady _).bind (fun _ => ?_))
    exact (set_error_inside _).bind (fun _ => pure_inside _)
  | stop =>
    refine get_steady.bind (fun self => (close_attached_inside T _).bind (fun _ => ?_))
    exact (set_steady _).bind (fun _ => pure_inside _)
  | read addr => exact (driver_read_inside T fuel addr).bind (fun _ => pure_inside _)
  | write addr value => exact driver_write_inside T fuel addr value
  | health =>
    exact get_steady.bind (fun self => (driver_read_inside T fuel _).bind (fun _ => pure_inside _))

end

theorem session_inside (T : VTable σ) (calls : List (Call×ℕ)) : Stays (session T calls) := by
  induction calls with
  | nil => exact pure_inside _
  | cons call calls ih => exact (perform_inside T call.2 call.1).bind (fun _ => ih)

end EMaster.ModbusDriver
