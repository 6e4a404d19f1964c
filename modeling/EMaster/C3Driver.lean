import EMaster.C3Codec
import EMaster.Transport

/-!
# The native C3 driver

The driver of the C3 plugin, written in C. The buffers are those of the functions and of the
driver record; the password of the settings is a buffer of its own length. Calls with a null
pointer return at once and are left out.
-/

set_option autoImplicit false

namespace EMaster.C3Driver
open Bytes Program Transport List
open C3 (crc16 kFrameStart kFrameEnd kProtocolVersion kReplyOk kReplyError)

def C3_CONNECT_SESSIONLESS : UInt8 := 0x01
def C3_CONTROL : UInt8 := 0x05
def C3_RTLOG_BINARY : UInt8 := 0x0B
def C3_RTLOG_KEYVALUE : UInt8 := 0x79
def C3_MAX_FRAME : ℕ := 4096

inductive Buffer where
  | request
  | frame
  | valueBuffer
  | password
  | control
  | inputState
  | inputKnown
  | lastError
  | setting (length : ℕ)
  | null
  deriving DecidableEq, Repr

def size : Buffer → ℕ
  | .request => 256
  | .frame => C3_MAX_FRAME
  | .valueBuffer => C3_MAX_FRAME
  | .password => 64
  | .control => 5
  | .inputState => 256
  | .inputKnown => 256
  | .lastError => 160
  | .setting length => length
  | .null => 0

section
variable (length : ℕ)

@[simp] theorem size_request : size .request = 256 := rfl
@[simp] theorem size_frame : size .frame = 4096 := rfl
@[simp] theorem size_value_buffer : size .valueBuffer = 4096 := rfl
@[simp] theorem size_password : size .password = 64 := rfl
@[simp] theorem size_input_state : size .inputState = 256 := rfl
@[simp] theorem size_input_known : size .inputKnown = 256 := rfl
@[simp] theorem size_last_error : size .lastError = 160 := rfl
@[simp] theorem size_setting : size (.setting length) = length := rfl

end

structure Driver where
  attached : Bool
  status : DriverStatus
  timeoutMs : ℤ
  (running rtlogKeyvalue rtlogFallbackLogged : Bool)
  (password frame valueBuffer : Bytes)
  valueLength : ℕ
  (inputState inputKnown : ℕ → Bool)

def Driver.zero : Driver :=
  ⟨false,.zero,0,false,false,false,List.replicate 64 0,[],[],0,fun _ => false,fun _ => false⟩

structure Config where
  timeoutMs : ℤ
  password : Bytes

variable {σ : Type}

abbrev Io (σ α : Type) : Type := Prog (World Buffer Driver σ) α

def setError (message : String) : Io σ Unit := do
  let text := message.toList.take 159
  touch [⟨.lastError,0,text.length+1⟩]
  setDriver (fun d => { d with status := { d.status with lastError := text } })

def setConnected (connected : Bool) : Io σ Unit :=
  setDriver (fun d => { d with status := { d.status with connected := connected } })

/-- A string in a buffer ends before its first zero byte. -/
def cstring (buffer : Bytes) : Bytes := buffer.takeWhile (fun b => b ≠ 0)

def frameBytes (command : UInt8) (payload : Bytes) : Bytes :=
  let checked := kProtocolVersion::command::putLow (.ofNat payload.length)++payload
  kFrameStart::checked++putLow (crc16 checked)++[kFrameEnd]

def encodeAccesses (source : Buffer) (n : ℕ) : List (Access Buffer) :=
  [⟨.request,0,5⟩,⟨source,0,n⟩,⟨.request,5,n⟩,⟨.request,1,n+4⟩,⟨.request,5+n,3⟩]

def payloadLength (frame : Bytes) : ℕ := (wordOf (frame.getD 3 0) (frame.getD 4 0)).toNat

def frameRefused (frame : Bytes) (n : ℕ) : Bool :=
  frame.getD 0 0 ≠ kFrameStart || frame.getD (n+7) 0 ≠ kFrameEnd ||
    crc16 ((frame.drop 1).take (4+n)) ≠ wordOf (frame.getD (5+n) 0) (frame.getD (6+n) 0) ||
    (frame.getD 2 0 ≠ kReplyOk && frame.getD 2 0 ≠ kReplyError)

def printable (c : UInt8) : Bool := 0x20 ≤ c && c ≤ 0x7E || c = 0x09 || c = 0x0D || c = 0x0A

def looksLikeKeyvalue (data : Bytes) : Bool :=
  data.contains 0x3D && data.length*3/4 ≤ data.countP printable

section
variable (T : VTable σ) (fuel : ℕ)

def readFrame : Io σ Status := do
  let self ← getDriver
  let (status,head) ← readExact T self.timeoutMs .frame 0 5 fuel []
  if status < 0 then pure status
  else do
    touch [⟨.frame,3,2⟩]
    let n := payloadLength head
    if C3_MAX_FRAME < 5+n+3 then pure HSF_ERR_PROTOCOL
    else do
      let (status,rest) ← readExact T self.timeoutMs .frame 5 (n+3) fuel []
      if status < 0 then pure status
      else do
        touch [⟨.frame,5+n,2⟩,⟨.frame,0,1⟩,⟨.frame,n+7,1⟩,⟨.frame,1,4+n⟩,⟨.frame,2,1⟩]
        setDriver (fun d => { d with frame := head++rest })
        pure (if frameRefused (head++rest) n then HSF_ERR_PROTOCOL
          else if (head++rest).getD 2 0 = kReplyError then HSF_ERR_PROTOCOL else HSF_OK)

def disconnectTransport : Io σ Unit := do
  let self ← getDriver
  closeAttached T self.attached
  setConnected false

variable (command : UInt8) (source : Buffer)

def exchangeOnce (payload : Bytes) : Io σ Status := do
  let self ← getDriver
  if 0xFFFF < payload.length ∨ 256 < payload.length+8 then pure HSF_ERR_INVALID_ARG
  else do
    touch (encodeAccesses source payload.length)
    let status ← writeAll T self.timeoutMs .request (frameBytes command payload) fuel 0
    if status < 0 then pure status else readFrame T fuel

def attempt : Io σ Status := do
  let self ← getDriver
  let status ← ensureTransportOpen T self.attached
  if status = HSF_OK then do
    touch [⟨.password,0,(cstring self.password).length+1⟩]
    exchangeOnce T fuel C3_CONNECT_SESSIONLESS .password (cstring self.password)
  else pure status

def secondAttempt (status : Status) : Io σ Status :=
  if reconnectable status then do
    disconnectTransport T
    attempt T fuel
  else pure status

def dropFailed (status : Status) : Io σ Unit :=
  if status < 0 ∧ reconnectable status = true then disconnectTransport T else pure ()

def connectSessionless : Io σ Status := do
  let first ← attempt T fuel
  let status ← secondAttempt T fuel first
  setConnected (status = HSF_OK)
  dropFailed T status
  pure status

/-- The command is sent once more over a new connection if the first one is lost. -/
def commandTwice (payload : Bytes) : Io σ Status := do
  let status ← exchangeOnce T fuel command source payload
  if reconnectable status = false then pure status
  else do
    disconnectTransport T
    let status ← connectSessionless T fuel
    if status < 0 then pure status else exchangeOnce T fuel command source payload

def exchange (payload : Bytes) : Io σ Status := do
  let self ← getDriver
  let isOpen ← linkOpen T
  if self.status.connected = true ∧ isOpen = true then commandTwice T fuel command source payload
  else do
    let status ← connectSessionless T fuel
    if status < 0 then pure status else commandTwice T fuel command source payload

end

def strstr (needle : Bytes) : Bytes → Option ℕ
  | [] => if needle = [] then some 0 else none
  | c::text => if needle <+: c::text then some 0 else (strstr needle text).map (·+1)

def isSpace (c : UInt8) : Bool := c = 0x20 || 0x09 ≤ c && c ≤ 0x0D

def isDigit (c : UInt8) : Bool := 0x30 ≤ c && c ≤ 0x39

def signed (text : Bytes) : Bool×Bytes :=
  match text with
  | 0x2D::rest => (true,rest)
  | 0x2B::rest => (false,rest)
  | _ => (false,text)

def atoiDigits (text : Bytes) : Bytes := (signed (text.dropWhile isSpace)).2.takeWhile isDigit

def atoiSpan (text : Bytes) : ℕ :=
  (text.length-(signed (text.dropWhile isSpace)).2.length)+(atoiDigits text).length

/-- The number is held to the range of `long` and then cut to an `int`. -/
def atoi (text : Bytes) : ℤ :=
  let n : ℤ := (atoiDigits text).foldl (fun n c => 10*n+(c.toNat-0x30)) 0
  let value := if (signed (text.dropWhile isSpace)).1 then -n else n
  Int.bmod (max (-2^63) (min (2^63-1) value)) (2^32)

def doorKey : Bytes := [0x64,0x6F,0x6F,0x72,0x3D]

def eventKey : Bytes := [0x65,0x76,0x65,0x6E,0x74,0x74,0x79,0x70,0x65,0x3D]

def setInput (input : ℕ) (eventType : ℤ) : Io σ Unit := do
  touch [⟨.inputState,input,1⟩,⟨.inputKnown,input,1⟩]
  setDriver (fun d => { d with
    inputState := Function.update d.inputState input (eventType = 221)
    inputKnown := Function.update d.inputKnown input true })

def noteText (text : Bytes) : Io σ Unit := do
  touch [⟨.valueBuffer,0,text.length+1⟩]
  match strstr doorKey text, strstr eventKey text with
  | some door,some event => do
    touch [⟨.valueBuffer,door+5,atoiSpan (text.drop (door+5))+1⟩,
      ⟨.valueBuffer,event+10,atoiSpan (text.drop (event+10))+1⟩]
    let input := atoi (text.drop (door+5))
    let eventType := atoi (text.drop (event+10))
    if (eventType = 220 ∨ eventType = 221) ∧ 0 < input ∧ input < 256 then
      setInput input.toNat eventType
    else pure ()
  | _,_ => pure ()

def noteRecord (buffer : Bytes) (offset : ℕ) : Io σ Unit := do
  touch [⟨.valueBuffer,offset+9,1⟩,⟨.valueBuffer,offset+10,1⟩]
  let input := buffer.getD (offset+9) 0
  let eventType := buffer.getD (offset+10) 0
  if (eventType = 220 ∨ eventType = 221) ∧ input ≠ 0 then setInput input.toNat eventType.toNat
  else pure ()

def noteRecords (buffer : Bytes) (n : ℕ) : ℕ → Io σ Unit
  | 0 => pure ()
  | records+1 => do
    noteRecord buffer (n-16*(records+1))
    noteRecords buffer n records

section
variable (T : VTable σ) (fuel : ℕ)

def keepValue : Io σ Status := do
  let self ← getDriver
  let n := payloadLength self.frame
  if C3_MAX_FRAME < n then pure HSF_ERR_PROTOCOL
  else do
    touch [⟨.frame,5,n⟩,⟨.valueBuffer,0,n⟩]
    let value := (self.frame.drop 5).take n
    setDriver (fun d => { d with valueBuffer := value,valueLength := n })
    if self.rtlogKeyvalue then
      if C3_MAX_FRAME ≤ n then pure HSF_ERR_PROTOCOL
      else do
        touch [⟨.valueBuffer,n,1⟩]
        noteText (cstring value)
        pure HSF_OK
    else do
      noteRecords value n (n/16)
      pure HSF_OK

def readRtlog : Io σ Status := do
  let self ← getDriver
  let command := if self.rtlogKeyvalue then C3_RTLOG_KEYVALUE else C3_RTLOG_BINARY
  let status ← exchange T fuel command .null []
  if status < 0 then pure status
  else do
    touch [⟨.frame,3,2⟩]
    let self ← getDriver
    let n := payloadLength self.frame
    if self.rtlogKeyvalue = false ∧ n%16 ≠ 0 then do
      setDriver (fun d => { d with rtlogKeyvalue := true })
      touch [⟨.frame,5,n⟩]
      if looksLikeKeyvalue ((self.frame.drop 5).take n) then do
        setDriver (fun d => { d with rtlogFallbackLogged := true })
        keepValue
      else do
        let status ← exchange T fuel C3_RTLOG_KEYVALUE .null []
        if status < 0 then pure status
        else do
          touch [⟨.frame,3,2⟩]
          keepValue
    else keepValue

def control (operation number addressType duration : UInt8) : Io σ Status :=
  exchange T fuel C3_CONTROL .control [operation,number,addressType,duration,0]

/-- The status of the operation, and that of the last command it has sent. -/
def pulseOutput (number : ℤ) (auxiliary : Bool) (durationMs : ℕ) : Io σ (Status×Status) :=
  if number < 1 ∨ 255 < number ∨ 60000 < durationMs then
    pure (HSF_ERR_INVALID_ARG,HSF_ERR_INVALID_ARG)
  else do
    let holdSeconds := max 1 ((durationMs+999)/1000)
    let n := UInt8.ofInt number
    let status ← control T fuel 1 n (if auxiliary then 2 else 1) (.ofNat holdSeconds)
    if status < 0 then pure (status,status)
    else if auxiliary then do
      let status ← control T fuel 1 n 2 0
      pure (status,status)
    else do
      -- both forms in which panels release a door output are sent
      let zeroDuration ← control T fuel 1 n 1 0
      let cancelLatch ← control T fuel 4 n 0 0
      pure (if zeroDuration = HSF_OK ∨ cancelLatch = HSF_OK then HSF_OK
        else if zeroDuration < 0 then zeroDuration else cancelLatch,cancelLatch)

def passwordField (password : Bytes) : Bytes :=
  password.take 63++List.replicate (64-(password.take 63).length) 0

def driverInitialize (c : Config) : Io σ Status := do
  setDriver (fun _ => { Driver.zero with attached := true,timeoutMs := c.timeoutMs })
  if c.timeoutMs < 1 then pure HSF_ERR_CONFIG
  else do
    let n := min c.password.length 63
    touch [⟨.setting c.password.length,0,n⟩,⟨.password,0,n⟩]
    setDriver (fun d => { d with
      password := passwordField c.password, status := { d.status with state := .READY } })
    pure HSF_OK

def driverStart : Io σ Status := do
  setDriver (fun d => { d with running := true,status := { d.status with state := .RUNNING } })
  let status ← connectSessionless T fuel
  setConnected (status = HSF_OK)
  setError (if status = HSF_OK then "" else statusName status)
  pure HSF_OK

def driverStop : Io σ Status := do
  let self ← getDriver
  closeAttached T self.attached
  setDriver (fun d => { d with
    running := false, status := { d.status with connected := false, state := .READY } })
  pure HSF_OK

variable (status : Status) (s : DriverStatus)

def countRead : DriverStatus :=
  if status = HSF_OK then { s with readsOk := s.readsOk+1, connected := true }
  else { s with
    readsFailed := s.readsFailed+1, connected := s.connected && !reconnectable status }

def countWrite : DriverStatus :=
  if status = HSF_OK then { s with writesOk := s.writesOk+1, connected := true }
  else { s with
    writesFailed := s.writesFailed+1, connected := s.connected && !reconnectable status }

def countHealth : DriverStatus :=
  if status = HSF_OK then { s with readsOk := s.readsOk+1, connected := true }
  else { s with readsFailed := s.readsFailed+1, connected := false }

def finish (count : Status → DriverStatus → DriverStatus) (status : Status) : Io σ Unit := do
  setDriver (fun d => { d with status := count status d.status })
  setError (if status = HSF_OK then "" else statusName status)

variable (address : DeviceAddress)

def readValue : Io σ (Status×Value) := do
  let self ← getDriver
  if address.a1 = 1 then pure (HSF_OK,.blob (some (self.valueBuffer.take self.valueLength)))
  else if address.a1 = 2 then
    let input := Int.bmod address.a2 (2^32)
    if input < 1 ∨ 255 < input then pure (HSF_ERR_INVALID_ARG,.null)
    else do
      touch [⟨.inputKnown,input.toNat,1⟩,⟨.inputState,input.toNat,1⟩]
      pure (if self.inputKnown input.toNat then (HSF_OK,.bool (self.inputState input.toNat))
        else (HSF_ERR_NOT_FOUND,.null))
  else pure (HSF_ERR_NOT_SUPPORTED,.null)

def readLogged : Io σ (Status×Value) := do
  let status ← readRtlog T fuel
  if status = HSF_OK then readValue address else pure (status,.null)

def driverRead : Io σ (Status×Value) := do
  let self ← getDriver
  if self.running = false then pure (HSF_ERR_STATE,.null)
  else if address.a1 = 0 then pure (HSF_OK,.bool self.status.connected)
  else do
    let (status,value) ← readLogged T fuel address
    finish countRead status
    pure (status,value)

def duration : Value → Option ℕ
  | .u64 n => some n
  | .i64 n => if 0 ≤ n then some n.toNat else none
  | _ => none

def driverWrite (value : Value) : Io σ (Status×Status) := do
  let self ← getDriver
  if self.running = false then pure (HSF_ERR_STATE,HSF_ERR_STATE)
  else match duration value with
    | none => pure (HSF_ERR_INVALID_ARG,HSF_ERR_INVALID_ARG)
    | some durationMs =>
      if address.a1 ≠ 3 ∧ address.a1 ≠ 4 then pure (HSF_ERR_NOT_SUPPORTED,HSF_ERR_NOT_SUPPORTED)
      else do
        let (status,last) ← pulseOutput T fuel (Int.bmod address.a2 (2^32)) (address.a1 = 4) durationMs
        finish countWrite status
        pure (status,last)

def driverHealth : Io σ Status := do
  let self ← getDriver
  if self.running = false then pure HSF_ERR_STATE
  else do
    let status ← connectSessionless T fuel
    finish countHealth status
    pure status

end

inductive Call where
  | initialized (config : Config)
  | start
  | stop
  | read (address : DeviceAddress)
  | write (address : DeviceAddress) (value : Value)
  | health

/-- The status of the call, and that of the last exchange it has made. -/
def perform (T : VTable σ) (fuel : ℕ) : Call → Io σ (Status×Status)
  | .initialized config => do
    let status ← driverInitialize config
    pure (status,status)
  | .start => do
    let status ← driverStart T fuel
    pure (status,status)
  | .stop => do
    let status ← driverStop T
    pure (status,status)
  | .read address => do
    let (status,_) ← driverRead T fuel address
    pure (status,status)
  | .write address value => driverWrite T fuel address value
  | .health => do
    let status ← driverHealth T fuel
    pure (status,status)

def session (T : VTable σ) : List (Call×ℕ) → Io σ Unit
  | [] => pure ()
  | (call,fuel)::calls => do
    let _ ← perform T fuel call
    session T calls

/-! ## Every access is inside its buffer -/

def Terminated (d : Driver) : Prop := (cstring d.password).length ≤ 63

def Framed (d : Driver) : Prop := Terminated d ∧ payloadLength d.frame+8 ≤ 4096

def Steady (w : World Buffer Driver σ) : Prop := Keeps size Terminated w

@[reducible] def Stays {α : Type} (m : Io σ α) : Prop :=
  Triple (Inside size) Steady m (fun _ => Steady)

def Holding (w : World Buffer Driver σ) : Prop := Keeps size Framed w

/-- If the status is no error, there is a frame in the buffer. -/
def Answered (status : Status) (w : World Buffer Driver σ) : Prop :=
  Steady w ∧ (0 ≤ status → Holding w)

theorem Holding.steady {w : World Buffer Driver σ} (h : Holding w) : Steady w := ⟨h.1,h.2.1⟩

theorem cstring_length (head rest : Bytes) : (cstring (head++0::rest)).length ≤ head.length := by
  induction head with
  | nil => simp [cstring]
  | cons b head ih =>
    by_cases hb : b = 0
    · simp [cstring,hb]
    · simpa [cstring,hb] using ih

theorem password_field_terminated (password : Bytes) :
    (cstring (passwordField password)).length ≤ 63 := by
  have ht : (password.take 63).length ≤ 63 := by simp
  obtain ⟨n,hn⟩ : ∃ n, 64-(password.take 63).length = n+1 := ⟨63-(password.take 63).length,by omega⟩
  rw [passwordField,hn,replicate_succ]
  exact (cstring_length _ _).trans ht

theorem set_steady (f : Driver → Driver) (h : ∀ d, (f d).password = d.password) :
    Stays (setDriver f : Io σ Unit) :=
  set_driver_inside (fun d hd => by rw [Terminated,h d]; exact hd)

theorem set_holding {f : Driver → Driver}
    (h : ∀ d, (f d).password = d.password ∧ (f d).frame = d.frame) :
    Triple (Inside size) Holding (setDriver f : Io σ Unit) (fun _ => Holding) := by
  refine set_driver_inside (fun d hd => ?_)
  rw [Framed,Terminated,(h d).1,(h d).2]
  exact hd

theorem set_connected_inside (connected : Bool) : Stays (setConnected connected : Io σ Unit) :=
  set_steady _ (fun _ => rfl)

theorem set_error_inside (msg : String) : Stays (setError msg : Io σ Unit) := by
  refine (touch_inside _ ?_).bind (fun _ => set_steady _ (fun _ => rfl))
  simp only [mem_singleton,forall_eq,Access.Fits,size_last_error,length_take]
  omega

theorem failed_inside {st : Status} (h : st < 0) :
    Triple (Inside size) Steady (pure st : Io σ Status) Answered :=
  Triple.pure st (fun _ hw => ⟨hw.1,hw,fun hok => absurd h (not_lt.mpr hok)⟩)

theorem frame_bytes_length (cmd : UInt8) (payload : Bytes) :
    (frameBytes cmd payload).length = payload.length+8 := by
  simp [frameBytes,putLow]

theorem payload_length_append {head : Bytes} (rest : Bytes) (h : head.length = 5) :
    payloadLength (head++rest) = payloadLength head := by
  simp [payloadLength,List.getElem?_append_left,h]

section
variable (T : VTable σ) (fuel : ℕ)

theorem read_frame_inside : Triple (Inside size) Steady (readFrame T fuel) Answered := by
  refine self_inside (fun self _ => ?_)
  refine (read_exact_inside T _ _ 0 5 (by decide) fuel [] (by simp)).bind ?_
  rintro ⟨st,head⟩
  refine Triple.given (fun hh => Triple.ite (fun h => failed_inside h) (fun hok => ?_))
  have hl : head.length = 5 := hh (not_lt.mp hok)
  refine (touch_inside _ (by decide)).bind (fun _ => ?_)
  refine Triple.ite (fun _ => failed_inside (by decide)) (fun hf => ?_)
  have ht : payloadLength head+8 ≤ 4096 := by
    rw [not_lt,C3_MAX_FRAME] at hf
    omega
  refine (read_exact_inside T _ _ 5 _ ?_ fuel [] (by simp)).bind ?_
  · rw [size_frame]
    omega
  rintro ⟨st,rest⟩
  refine Triple.given (fun _ => Triple.ite (fun h => failed_inside h) (fun _ => ?_))
  refine (touch_inside _ ?_).bind (fun _ => ?_)
  · simp only [mem_cons,not_mem_nil,or_false,forall_eq_or_imp,forall_eq,Access.Fits,size_frame]
    omega
  have hs : Triple (Inside size) (Keeps size Terminated)
      (setDriver (fun d => { d with frame := head++rest }) : Io σ Unit) (fun _ => Holding) := by
    refine set_driver_inside (fun d hd => ⟨hd,?_⟩)
    rw [payload_length_append rest hl]
    exact ht
  exact hs.bind (fun _ => Triple.pure _ (fun _ hw => ⟨hw.1,hw.steady,fun _ => hw⟩))

theorem disconnect_inside : Stays (disconnectTransport T) := by
  refine self_inside (fun self _ => ?_)
  exact (close_attached_inside T _).bind (fun _ => set_connected_inside false)

variable (cmd : UInt8)

theorem exchange_once_inside (src : Buffer) (payload : Bytes) (h : payload.length ≤ size src) :
    Triple (Inside size) Steady (exchangeOnce T fuel cmd src payload) Answered := by
  refine self_inside (fun self _ => ?_)
  refine Triple.ite (fun _ => failed_inside (by decide)) (fun hf => ?_)
  have hr : payload.length+8 ≤ 256 := by
    simp only [not_or,not_lt] at hf
    exact hf.2
  refine (touch_inside _ ?_).bind (fun _ => ?_)
  · simp only [encodeAccesses,mem_cons,not_mem_nil,or_false,forall_eq_or_imp,
      forall_eq,Access.Fits,size_request]
    omega
  refine (write_all_inside T _ ?_ fuel 0).bind (fun st => ?_)
  · rw [frame_bytes_length]
    exact hr
  exact Triple.ite (fun h => failed_inside h) (fun _ => read_frame_inside T fuel)

theorem attempt_inside : Stays (attempt T fuel) := by
  refine self_inside (fun self hs => ?_)
  refine (ensure_open_inside T _).bind (fun st => Triple.ite (fun _ => ?_) (fun _ => pure_inside _))
  have hl : (cstring self.password).length ≤ 63 := hs
  refine (touch_inside _ ?_).bind (fun _ => ?_)
  · simp only [mem_singleton,forall_eq,Access.Fits,size_password]
    omega
  refine (exchange_once_inside T fuel _ .password _ ?_).weaken (fun _ hw => hw) (fun _ _ h => h.1)
  rw [size_password]
  omega

theorem connect_inside : Stays (connectSessionless T fuel) := by
  have hs (st : Status) :
      Stays (secondAttempt T fuel st) :=
    Triple.ite (fun _ => (disconnect_inside T).bind (fun _ => attempt_inside T fuel))
      (fun _ => pure_inside _)
  have hd (st : Status) :
      Stays (dropFailed T st) :=
    Triple.ite (fun _ => disconnect_inside T) (fun _ => pure_inside _)
  refine (attempt_inside T fuel).bind (fun first => (hs first).bind (fun st => ?_))
  exact (set_connected_inside _).bind (fun _ => (hd st).bind (fun _ => pure_inside _))

variable {src : Buffer} {payload : Bytes}

theorem command_twice_inside (h : payload.length ≤ size src) :
    Triple (Inside size) Steady (commandTwice T fuel cmd src payload) Answered := by
  refine (exchange_once_inside T fuel cmd src payload h).bind (fun st => ?_)
  refine Triple.ite (fun _ => Triple.pure st (fun _ hw => ⟨hw.1.1,hw⟩)) (fun _ => ?_)
  refine Triple.weaken ?_ (fun _ hw => hw.1) (fun _ _ hw => hw)
  refine (disconnect_inside T).bind (fun _ => (connect_inside T fuel).bind (fun st => ?_))
  exact Triple.ite (fun h => failed_inside h)
    (fun _ => exchange_once_inside T fuel cmd src payload h)

theorem exchange_inside (src : Buffer) (payload : Bytes) (h : payload.length ≤ size src) :
    Triple (Inside size) Steady (exchange T fuel cmd src payload) Answered := by
  refine self_inside (fun self _ => ?_)
  refine (link_open_inside T).bind (fun isOpen => ?_)
  refine Triple.ite (fun _ => command_twice_inside T fuel cmd h) (fun _ => ?_)
  refine (connect_inside T fuel).bind (fun st => ?_)
  exact Triple.ite (fun h => failed_inside h) (fun _ => command_twice_inside T fuel cmd h)

theorem after_exchange {α : Type} {post : α → World Buffer Driver σ → Prop}
    (h : payload.length ≤ size src) {failed : Status → Io σ α} {next : Io σ α}
    (hf : ∀ status, status < 0 → Triple (Inside size) Steady (failed status) post)
    (hn : Triple (Inside size) Holding next post) :
    Triple (Inside size) Steady (exchange T fuel cmd src payload >>= fun status =>
      if status < 0 then failed status else next) post := by
  refine (exchange_inside T fuel cmd src payload h).bind (fun status => ?_)
  refine Triple.ite (fun hs => ?_) (fun hs => ?_)
  · exact (hf status hs).weaken (fun _ hw => hw.1) (fun _ _ hw => hw)
  · exact hn.weaken (fun _ hw => hw.2 (not_lt.mp hs)) (fun _ _ hw => hw)

end

theorem strstr_inside (needle text : Bytes) (n : ℕ) (h : strstr needle text = some n) :
    n+needle.length ≤ text.length := by
  induction text generalizing n with
  | nil =>
    simp only [strstr] at h
    split_ifs at h with he
    cases h
    simp [he]
  | cons c text ih =>
    simp only [strstr] at h
    split_ifs at h with hh
    · cases h
      simpa using hh.length_le
    · obtain ⟨m,hm,hmn⟩ := Option.map_eq_some_iff.mp h
      have hr := ih m hm
      rw [length_cons]
      omega

variable (text : Bytes)

theorem signed_length : (signed text).2.length ≤ text.length := by
  unfold signed
  split <;> simp

theorem atoi_span_inside : atoiSpan text ≤ text.length := by
  have hd : (atoiDigits text).length ≤ (signed (text.dropWhile isSpace)).2.length :=
    (takeWhile_sublist _).length_le
  have hs := signed_length (text.dropWhile isSpace)
  have hsp : (text.dropWhile isSpace).length ≤ text.length := (dropWhile_sublist _).length_le
  unfold atoiSpan
  omega

theorem set_input_inside {input : ℕ} (eventType : ℤ) (h : input < 256) :
    Stays (setInput input eventType : Io σ Unit) := by
  refine (touch_inside _ ?_).bind (fun _ => set_steady _ (fun _ => rfl))
  simp only [mem_cons,not_mem_nil,or_false,forall_eq_or_imp,forall_eq,
    Access.Fits,size_input_state,size_input_known]
  omega

theorem note_text_inside {text : Bytes} (h : text.length < 4096) :
    Stays (noteText text : Io σ Unit) := by
  refine (touch_inside _ ?_).bind (fun _ => ?_)
  · simp only [mem_singleton,forall_eq,Access.Fits,size_value_buffer]
    omega
  cases hdr : strstr doorKey text with
  | none => exact pure_inside _
  | some door =>
    cases hev : strstr eventKey text with
    | none => exact pure_inside _
    | some event =>
      have hd := strstr_inside _ _ _ hdr
      have he := strstr_inside _ _ _ hev
      have hds := atoi_span_inside (text.drop (door+5))
      have hes := atoi_span_inside (text.drop (event+10))
      rw [length_drop] at hds hes
      simp only [doorKey,eventKey,length_cons,length_nil] at hd he
      refine (touch_inside _ ?_).bind (fun _ => ?_)
      · simp only [mem_cons,not_mem_nil,or_false,forall_eq_or_imp,forall_eq,
          Access.Fits,size_value_buffer]
        omega
      exact Triple.ite (fun hi => set_input_inside _ (by omega)) (fun _ => pure_inside _)

theorem note_record_inside (buf : Bytes) {off : ℕ} (h : off+11 ≤ 4096) :
    Stays (noteRecord buf off : Io σ Unit) := by
  refine (touch_inside _ ?_).bind (fun _ => ?_)
  · simp only [mem_cons,not_mem_nil,or_false,forall_eq_or_imp,forall_eq,
      Access.Fits,size_value_buffer]
    omega
  exact Triple.ite (fun _ => set_input_inside _ (UInt8.toNat_lt _)) (fun _ => pure_inside _)

theorem note_records_inside (buf : Bytes) {n recs : ℕ} (hn : n ≤ 4096)
    (h : 16*recs ≤ n) :
    Stays (noteRecords buf n recs : Io σ Unit) := by
  induction recs with
  | zero => exact pure_inside _
  | succ recs ih =>
    exact (note_record_inside buf (by omega)).bind (fun _ => ih (by omega))

theorem keep_value_inside :
    Triple (Inside size) Holding (keepValue : Io σ Status) (fun _ => Steady) := by
  refine self_inside (fun self hs => ?_)
  have hn : payloadLength self.frame+8 ≤ 4096 := hs.2
  refine Triple.weaken ?_ (fun _ hw => Holding.steady hw) (fun _ _ hw => hw)
  refine guard_inside (fun _ => ?_)
  refine (touch_inside _ ?_).bind (fun _ => (set_steady _ (by intro _; rfl)).bind (fun _ => ?_))
  · simp only [mem_cons,not_mem_nil,or_false,forall_eq_or_imp,forall_eq,
      Access.Fits,size_frame,size_value_buffer]
    omega
  refine Triple.ite (fun _ => guard_inside (fun _ => ?_)) (fun _ => ?_)
  · refine (touch_inside _ ?_).bind (fun _ => (note_text_inside ?_).bind (fun _ => pure_inside _))
    · simp only [mem_singleton,forall_eq,Access.Fits,size_value_buffer]
      omega
    · have ht : (cstring ((self.frame.drop 5).take (payloadLength self.frame))).length ≤
          ((self.frame.drop 5).take (payloadLength self.frame)).length :=
        (takeWhile_sublist _).length_le
      have htk := length_take_le (payloadLength self.frame) (self.frame.drop 5)
      omega
  · refine (note_records_inside _ (by omega) ?_).bind (fun _ => pure_inside _)
    exact Nat.mul_div_le _ _

section
variable (T : VTable σ) (fuel : ℕ)

theorem read_rtlog_inside : Stays (readRtlog T fuel) := by
  have hnl : ([] : Bytes).length ≤ size .null := by simp
  refine self_inside (fun self _ => ?_)
  refine after_exchange T fuel _ hnl (fun st _ => pure_inside _) ?_
  refine (touch_inside _ (by decide)).bind (fun _ => ?_)
  refine self_inside (fun self hs => ?_)
  have hn : payloadLength self.frame+8 ≤ 4096 := hs.2
  refine Triple.ite (fun _ => ?_) (fun _ => keep_value_inside)
  refine (set_holding (by intro _; exact ⟨rfl,rfl⟩)).bind (fun _ => (touch_inside _ ?_).bind (fun _ => ?_))
  · simp only [mem_singleton,forall_eq,Access.Fits,size_frame]
    omega
  refine Triple.ite (fun _ => ?_) (fun _ => ?_)
  · exact (set_holding (by intro _; exact ⟨rfl,rfl⟩)).bind (fun _ => keep_value_inside)
  · refine Triple.weaken ?_ (fun _ hw => Holding.steady hw) (fun _ _ hw => hw)
    refine after_exchange T fuel _ hnl (fun st _ => pure_inside _) ?_
    exact (touch_inside _ (by decide)).bind (fun _ => keep_value_inside)

theorem control_inside (operation number addressType duration : UInt8) :
    Stays (control T fuel operation number addressType duration) :=
  (exchange_inside T fuel _ .control _ (by simp [size])).weaken (fun _ hw => hw) (fun _ _ hw => hw.1)

theorem pulse_output_inside (number : ℤ) (auxiliary : Bool) (durationMs : ℕ) :
    Stays (pulseOutput T fuel number auxiliary durationMs) := by
  refine guard_inside (fun _ => ?_)
  refine (control_inside T fuel _ _ _ _).bind (fun st => ?_)
  refine guard_inside (fun _ => Triple.ite (fun _ => ?_) (fun _ => ?_))
  · exact (control_inside T fuel _ _ _ _).bind (fun _ => pure_inside _)
  · refine (control_inside T fuel _ _ _ _).bind (fun zeroDuration => ?_)
    exact (control_inside T fuel _ _ _ _).bind (fun cancelLatch => pure_inside _)

theorem finish_inside (count : Status → DriverStatus → DriverStatus) (st : Status) :
    Stays (finish count st : Io σ Unit) :=
  (set_steady _ (by intro _; rfl)).bind (fun _ => set_error_inside _)

theorem initialize_inside (c : Config) : Stays (driverInitialize c : Io σ Status) := by
  have hz : (cstring Driver.zero.password).length ≤ 63 := by decide
  have hf : Stays (setDriver (fun _ => { Driver.zero with
      attached := true, timeoutMs := c.timeoutMs }) : Io σ Unit) :=
    set_driver_inside (fun _ _ => hz)
  refine hf.bind (fun _ => guard_inside (fun _ => ?_))
  refine (touch_inside _ ?_).bind (fun _ => Triple.bind ?_ (fun _ => pure_inside _))
  · simp only [mem_cons,not_mem_nil,or_false,forall_eq_or_imp,forall_eq,
      Access.Fits,size_setting,size_password]
    omega
  · exact set_driver_inside (fun _ _ => password_field_terminated _)

variable (addr : DeviceAddress)

theorem read_value_inside : Stays (readValue addr : Io σ (Status×Value)) := by
  refine self_inside (fun self _ => ?_)
  refine guard_inside (fun _ => Triple.ite (fun _ => ?_) (fun _ => pure_inside _))
  refine guard_inside (fun hi => ?_)
  refine (touch_inside _ ?_).bind (fun _ => pure_inside _)
  simp only [mem_cons,not_mem_nil,or_false,forall_eq_or_imp,forall_eq,
    Access.Fits,size_input_state,size_input_known]
  omega

theorem driver_read_inside : Stays (driverRead T fuel addr) := by
  have hl : Stays (readLogged T fuel addr) :=
    (read_rtlog_inside T fuel).bind (fun _ =>
      Triple.ite (fun _ => read_value_inside addr) (fun _ => pure_inside _))
  refine self_inside (fun self _ => ?_)
  refine guard_inside (fun _ => guard_inside (fun _ => ?_))
  refine hl.bind ?_
  rintro ⟨st,value⟩
  exact (finish_inside countRead st).bind (fun _ => pure_inside _)

theorem driver_write_inside (value : Value) : Stays (driverWrite T fuel addr value) := by
  refine self_inside (fun self _ => ?_)
  refine guard_inside (fun _ => ?_)
  cases duration value with
  | none => exact pure_inside _
  | some durationMs =>
    refine guard_inside (fun _ => (pulse_output_inside T fuel _ _ _).bind ?_)
    rintro ⟨st,last⟩
    exact (finish_inside countWrite st).bind (fun _ => pure_inside _)

theorem perform_inside (call : Call) : Stays (perform T fuel call) := by
  cases call with
  | initialized cfg => exact (initialize_inside cfg).bind (fun _ => pure_inside _)
  | start =>
    refine Triple.bind ?_ (fun _ => pure_inside _)
    refine (set_steady _ (by intro _; rfl)).bind (fun _ => (connect_inside T fuel).bind (fun st => ?_))
    exact (set_connected_inside _).bind (fun _ => (set_error_inside _).bind (fun _ => pure_inside _))
  | stop =>
    refine Triple.bind ?_ (fun _ => pure_inside _)
    refine self_inside (fun self _ => ?_)
    refine (close_attached_inside T _).bind (fun _ => ?_)
    exact (set_steady _ (by intro _; rfl)).bind (fun _ => pure_inside _)
  | read addr => exact (driver_read_inside T fuel addr).bind (fun _ => pure_inside _)
  | write addr value => exact driver_write_inside T fuel addr value
  | health =>
    refine Triple.bind ?_ (fun _ => pure_inside _)
    refine self_inside (fun self _ => ?_)
    refine guard_inside (fun _ => (connect_inside T fuel).bind (fun st => ?_))
    exact (finish_inside countHealth st).bind (fun _ => pure_inside _)

end

theorem session_inside (T : VTable σ) (calls : List (Call×ℕ)) : Stays (session T calls) := by
  induction calls with
  | nil => exact pure_inside _
  | cons call calls ih => exact (perform_inside T call.2 call.1).bind (fun _ => ih)

end EMaster.C3Driver
