import EMaster.C3Records

/-!
# The client of the access panel

The client sends one request at a time and waits until a whole frame has come in or its time
is up. What it has read beyond that frame is carried over to the next request.
-/

set_option autoImplicit false

namespace EMaster.C3
open Framing

structure Client where
  host : Text := []
  port : ℤ := 4370
  password : Text := []
  isOpen : Bool := false
  connected : Bool := false
  sessionLess : Bool := false
  sessionId : UInt16 := 0
  requestNr : ℤ := 0
  timeoutMs : ℤ := 2000
  lastError : Text := []
  carry : Bytes := []
  rtlogKeyValueMode : Bool := false

/-- The panel's answer to a request, and what the socket does meanwhile: whether it takes the
request, how much each read returns until the time is up (at least one byte and at most
4096), and whether the panel closes the connection then. -/
structure Answer where
  reply : Bytes
  framed : IsFrame panelFrames reply
  sizes : List (Fin 4096)
  sends : Bool := true
  closes : Bool := false

def oneRead : List (Fin 4096) := [4095]

/-- What the reads return of the bytes that are there. -/
def cut : List (Fin 4096) → Bytes → List Bytes
  | [], _ => []
  | n::ns, data => if data = [] then [] else data.take (n+1)::cut ns (data.drop (n+1))

inductive ReadEnd where
  | frame (bytes : Bytes)
  | timeout
  | overflow
  deriving DecidableEq, Repr

structure Read where
  ended : ReadEnd
  carry : Bytes
  unread : List Bytes
  deriving DecidableEq, Repr

def readOneFrame (carry : Bytes) (chunks : List Bytes) : Read :=
  if 0 < frameSize carry ∧ frameSize carry ≤ carry.length then
    ⟨.frame (carry.take (frameSize carry)),carry.drop (frameSize carry),chunks⟩
  else
    match chunks with
    | [] => ⟨.timeout,carry,[]⟩
    | chunk::chunks =>
      if 1024*1024 < (carry++chunk).length then ⟨.overflow,[],chunks⟩
      else readOneFrame (carry++chunk) chunks

/-- One request: the reply that was read for it, the panel's reply to it, the replies that
the client had not read when it was sent, and how many bytes of all these came in time. The
bytes that the panel sends are numbered: `start` is where the client reads on, `begins` where
the panel's reply to the request begins. -/
structure Entry where
  request : Bytes
  reply : Option Bytes
  own : Bytes
  start : ℕ
  begins : ℕ
  outstanding : List Bytes
  arrived : ℕ
  deriving DecidableEq, Repr

/-- The panel answers the requests one after the other. Of the bytes that it has sent, those
that the client has not read from the socket are pending. -/
structure Wire where
  answers : ℕ → Answer
  asked : ℕ := 0
  sent : ℕ := 0
  pending : Bytes := []
  outstanding : List Bytes := []
  log : List Entry := []

def Read.reply (r : Read) : Option Bytes :=
  match r.ended with
  | .frame bytes => some bytes
  | _ => none

namespace Wire

def own (w : Wire) : Bytes := (w.answers w.asked).reply

/-- What is read from the socket until the time for the next request is up. -/
def chunks (w : Wire) : List Bytes := cut (w.answers w.asked).sizes (w.pending++w.own)

def answered (w : Wire) (request carry : Bytes) (r : Read) : Wire :=
  { w with
    asked := w.asked+1
    sent := w.sent+w.own.length
    pending := r.unread.flatten++(w.pending++w.own).drop w.chunks.flatten.length
    outstanding := if r.reply.isSome then (w.outstanding++[w.own]).tail else w.outstanding++[w.own]
    log := w.log++ [⟨request,r.reply,w.own,w.sent-(carry++w.pending).length,w.sent,w.outstanding,
      (carry++w.chunks.flatten).length⟩] }

end Wire

def noReply (timeoutMs : ℤ) : Text :=
  "the panel did not reply within "++Text.ofInt timeoutMs++" ms"

namespace Client

variable (c : Client)

def isConnected : Bool := c.connected && c.isOpen

def fail (error : Text) : Client := { c with lastError := error }

def nextRequestNr : Client := { c with requestNr := (c.requestNr+1)%65536 }

def waited (closes : Bool) (r : Read) : Client :=
  match r.ended with
  | .frame _ => { c with carry := r.carry }
  | .timeout =>
    { c with
      carry := r.carry
      isOpen := !closes
      lastError := if c.lastError = [] then noReply c.timeoutMs else c.lastError }
  | .overflow =>
    { c with
      carry := r.carry
      lastError := "the panel sent more than 1 MB without a complete frame" }

variable (w : Wire)

def receive (request : Bytes) : Client×Wire×Option Bytes :=
  let r := readOneFrame c.carry w.chunks
  (c.waited (w.answers w.asked).closes r,w.answered request c.carry r,r.reply)

def transact (request : Bytes) : Client×Wire×Option Bytes :=
  if c.isOpen = false then (c.fail "not connected",w,none)
  else if (w.answers w.asked).sends = false then
    ({ c with
        lastError := "failed to send to the panel"
        connected := false
        isOpen := false },w,none)
  else c.receive w request

variable (connectionString : Text)

/-- The value of a field of a connection string; the case of the key does not matter. -/
def fieldFrom (key : String) : Text :=
  let needle := key.toList++['=']
  match (connectionString.splitOn ',').find? (fun token =>
    needle.length < token.length && Text.lower (token.take needle.length) = Text.lower needle) with
  | some token => token.drop needle.length
  | none => []

/-- The socket is closed; a request to end the session is sent before, but its reply is not
waited for. -/
def disconnect : Client :=
  let c := if c.isConnected && !c.sessionLess then c.nextRequestNr else c
  { c with isOpen := false, connected := false, sessionId := 0, sessionLess := false, carry := [] }

def address : Text := c.host++ ':'::Text.ofInt c.port

def configured : Client :=
  let host := fieldFrom connectionString "ipaddress"
  let port := fieldFrom connectionString "port"
  let timeout := fieldFrom connectionString "timeout"
  { c with
    lastError := []
    host := if host = [] then fieldFrom connectionString "ip" else host
    password := fieldFrom connectionString "passwd"
    port := if port = [] then 4370 else Text.atoi port
    timeoutMs := max 500 (if timeout = [] then 2000 else Text.atoi timeout) }

structure Panel where
  reachable : Bool
  answers : ℕ → Answer

def opened : Client := { c with isOpen := true, carry := [] }

def connectSessionLess (panel : Panel) : Client×Wire×Bool :=
  let w : Wire := { answers := panel.answers }
  if panel.reachable = false then
    ({ c with
        isOpen := false
        carry := []
        lastError := "cannot reach "++c.address++" for a session-less connect" },w,
      false)
  else
    match c.opened.transact w (encodeConnectSessionLess c.password) with
    | (c',w',none) =>
      ({ c' with
          isOpen := false
          lastError := "no reply to either CONNECT_SESSION or CONNECT_SESSION_LESS" },w',
        false)
    | (c',w',some reply) =>
      match decodeGenericReply reply with
      | .kOk => ({ c' with sessionLess := true,sessionId := 0,connected := true },w',true)
      | .kRejected =>
        ({ c' with
            isOpen := false
            lastError := "the panel rejected the connection (wrong password?)" },w',false)
      | _ =>
        ({ c' with
            isOpen := false
            lastError := "the panel's connect reply was malformed" },w',false)

/-- A session is tried first, then a connection without one over a new socket. -/
def connect (first second : Panel) : Client×Wire×Bool :=
  let c := c.disconnect.configured connectionString
  let w : Wire := { answers := first.answers }
  if c.host = [] then (c.fail "no ipaddress in the connection string",w,false)
  else if first.reachable = false then (c.fail ("cannot reach "++c.address),w,false)
  else
    match { c.opened with requestNr := 0 }.transact w (encodeConnectSession c.password) with
    | (c',_,none) => c'.connectSessionLess second
    | (c',w',some reply) =>
      match decodeConnectSession reply with
      | (.kOk,sessionId) =>
        ({ c' with
            sessionLess := false
            sessionId := sessionId
            requestNr := 0
            connected := true },w',true)
      | _ => c'.connectSessionLess second

/-- The names between the commas, without the empty ones. -/
def splitNames (items : Bytes) : List Bytes := (items.splitOn 0x2C).filter (· ≠ [])

def getDeviceParam (items : Bytes) : Client×Wire×ℤ×Bytes :=
  if c.isConnected = false then (c.fail "not connected",w,-1,[])
  else
    let c := c.nextRequestNr
    match c.transact w (encodeGetParam (splitNames items) (!c.sessionLess) c.sessionId c.requestNr) with
    | (c',w',none) => (c',w',-1,[])
    | (c',w',some reply) =>
      match decodeGetParam reply (!c.sessionLess) with
      | (.kOk,values) =>
        let out := [0x2C].intercalate (values.map (fun entry => entry.1++0x3D::entry.2))
        (c',w',out.length,out)
      | _ => (c'.fail "GETPARAM was rejected by the panel",w',-1,[])

def toByte (n : ℤ) : UInt8 := UInt8.ofInt n

def controlDevice (operationId param1 param2 param3 : ℤ) : Client×Wire×ℤ :=
  if c.isConnected = false then (c.fail "not connected",w,-1)
  else if operationId < 1 ∨ 4 < operationId then
    (c.fail ("unknown control operation "++Text.ofInt operationId),w,-1)
  else
    let c := c.nextRequestNr
    match c.transact w (encodeControl (toByte operationId) (toByte param1) (toByte param2)
      (toByte param3) (!c.sessionLess) c.sessionId c.requestNr) with
    | (c',w',none) => (c',w',-1)
    | (c',w',some reply) =>
      match decodeGenericReply reply with
      | .kOk => (c',w',0)
      | .kRejected => (c'.fail "the panel rejected the control command",w',-1)
      | _ => (c'.fail "the panel's control reply was malformed",w',-1)

def packed (status : Bytes) : UInt32 :=
  [3,2,1,0].foldl (fun (n : UInt32) i => n <<< 8 ||| (status.getD i 0).toUInt32) 0

def csvLine (fields : List Text) : Text := [','].intercalate fields++['\r','\n']

def recordFields (record : RtLogRecord) : List Text :=
  match record.kind with
  | .kDoorAlarmStatus =>
    [formatC3Time record.timeSecond,Text.ofNat (packed record.dssStatus).toNat,
      Text.ofNat (packed record.alarmStatus).toNat,['0'],"255",['0'],
      Text.ofNat record.verified.toNat]
  | .kEvent =>
    [formatC3Time record.timeSecond,Text.ofNat record.pin.toNat,Text.ofNat record.cardNo.toNat,
      Text.ofNat record.doorId.toNat,Text.ofNat record.eventType.toNat,
      Text.ofNat record.inOutState.toNat,Text.ofNat record.verified.toNat]

def recordsCsv (records : List RtLogRecord) : Text :=
  records.flatMap (fun record => csvLine (recordFields record))

def fieldOf (object : List (Bytes×Bytes)) (key fallback : String) : Text :=
  match object.lookup (fromString key.toList) with
  | some value => textOf value
  | none => fallback.toList

def objectCsv (object : List (Bytes×Bytes)) : Text :=
  csvLine [fieldOf object "time" "",fieldOf object "pin" "0",fieldOf object "cardno" "0",
    fieldOf object "door" "0",fieldOf object "eventtype" "0",fieldOf object "inoutstate" "0",
    fieldOf object "verified" "0"]

def getRTLogKeyValue : Client×Wire×ℤ×Text :=
  let c := c.nextRequestNr
  match c.transact w (encodeRtlogKeyValueRequest (!c.sessionLess) c.sessionId c.requestNr) with
  | (c',w',none) => (c',w',-1,[])
  | (c',w',some reply) =>
    match decodeRtlogKeyValue reply (!c.sessionLess) with
    | (.kOk,some object) => (c',w',(objectCsv object).length,objectCsv object)
    | (.kOk,none) => (c',w',0,[])
    | _ => (c'.fail "RTLOG (key/value) was rejected by the panel",w',-1,[])

/-- The binary log; once the panel has turned out not to have one, the other one. -/
def getRTLog : Client×Wire×ℤ×Text :=
  if c.isConnected = false then (c.fail "not connected",w,-1,[])
  else if c.rtlogKeyValueMode then c.getRTLogKeyValue w
  else
    let c := c.nextRequestNr
    match c.transact w (encodeRtlogBinaryRequest (!c.sessionLess) c.sessionId c.requestNr) with
    | (c',w',none) => (c',w',-1,[])
    | (c',w',some reply) =>
      match decodeRtlogBinary reply (!c.sessionLess) with
      | (.kNotBinaryMode,_) => { c' with rtlogKeyValueMode := true }.getRTLogKeyValue w'
      | (.kOk,records) => (c',w',(recordsCsv records).length,recordsCsv records)
      | _ => (c'.fail "RTLOG was rejected by the panel",w',-1,[])

end Client

end EMaster.C3
