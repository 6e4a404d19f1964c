import EMaster.C3Codec
import EMaster.Decimal

/-!
# Requests, replies and log records of the access panel

Commands and the payloads they carry. A record of the realtime log has 16 bytes; a time in
it counts the seconds of months that all have 31 days.
-/

set_option autoImplicit false

namespace EMaster.C3
open Bytes

variable (data : Bytes)

/-- A string of the host program, one character to a byte. -/
def textOf : Text := data.map (fun b => Char.ofNat b.toNat)

def fromString (text : Text) : Bytes := text.map (fun c => UInt8.ofNat c.toNat)

/-- What the decoder returns; by `decode_inside` it always returns. -/
def decodeFrame (stripSessionBlock : Bool) : DecodedFrame :=
  (decodeFrameGeneric data stripSessionBlock).getD ⟨.kIncomplete,[]⟩

theorem decode_frame_of_some {data : Bytes} {strip : Bool} {frame : DecodedFrame}
    (h : decodeFrameGeneric data strip = some frame) :
    decodeFrame data strip = frame := by
  rw [decodeFrame,h]
  rfl

def encodeConnectSession (password : Text) : Bytes :=
  encodeFrame kCommandConnectSession kPreSessionId kPreSessionRequestNr (fromString password) true

/-- The checks are those of every reply; the payload is the session itself, so that no
session block is taken off it. -/
def decodeConnectSession : ResponseStatus×UInt16 :=
  match decodeFrame data false with
  | ⟨.kOk,payload⟩ =>
    if payload.length < 2 then (.kMalformed,0)
    else (.kOk,wordOf (payload.getD 0 0) (payload.getD 1 0))
  | frame => (frame.status,0)

def encodeConnectSessionLess (password : Text) : Bytes :=
  encodeFrame kCommandConnectSessionLess 0 0 (fromString password) false

def decodeGenericReply : ResponseStatus := (decodeFrame data false).status

def encodeControl (operation param1 param2 param3 : UInt8) (includeSessionBlock : Bool)
    (sessionId : UInt16) (requestNr : ℤ) : Bytes :=
  encodeFrame kCommandControl sessionId requestNr [operation,param1,param2,param3,0]
    includeSessionBlock

variable (includeSessionBlock : Bool)

def encodeRtlogBinaryRequest (sessionId : UInt16) (requestNr : ℤ) :
    Bytes :=
  encodeFrame kCommandRtlogBinary sessionId requestNr [] includeSessionBlock

def encodeRtlogKeyValueRequest (sessionId : UInt16)
    (requestNr : ℤ) : Bytes :=
  encodeFrame kCommandRtlogKeyValue sessionId requestNr [] includeSessionBlock

def encodeGetParam (names : List Bytes) (includeSessionBlock : Bool) (sessionId : UInt16)
    (requestNr : ℤ) : Bytes :=
  encodeFrame kCommandGetParam sessionId requestNr ([0x2C].intercalate names) includeSessionBlock

def wordChar (c : UInt8) : Bool :=
  (0x61 ≤ c && c ≤ 0x7A) || (0x41 ≤ c && c ≤ 0x5A) || (0x30 ≤ c && c ≤ 0x39) || c = 0x5F ||
    c = 0x7E

def inValue (c : UInt8) : Bool := c ≠ 0x2C && c ≠ 0x09

theorem drop_while_length {α : Type} (p : α → Bool) (l : List α) :
    (l.dropWhile p).length ≤ l.length := (List.dropWhile_sublist p).length_le

/-- A key is word characters up to an equals sign, its value runs to a comma or a tab. -/
def parseKeyValuePairs (data : Bytes) : List (Bytes×Bytes) :=
  match h : data.dropWhile wordChar with
  | [] => []
  | c::rest =>
    have hrest : rest.length < data.length := by
      have hdrop := drop_while_length wordChar data
      rw [h,List.length_cons] at hdrop
      exact hdrop
    if data.takeWhile wordChar = [] ∨ c ≠ 0x3D then parseKeyValuePairs rest
    else if rest.takeWhile inValue = [] then parseKeyValuePairs (rest.dropWhile inValue)
    else
      (data.takeWhile wordChar,rest.takeWhile inValue):: parseKeyValuePairs (rest.dropWhile inValue)
termination_by data.length
decreasing_by
  all_goals
    have hvalue := drop_while_length inValue rest
    omega

/-- Objects keep their keys in order; a later value replaces an earlier one. -/
def putKey (key value : Bytes) : List (Bytes×Bytes) → List (Bytes×Bytes)
  | [] => [(key,value)]
  | entry::entries =>
    if key < entry.1 then (key,value)::entry::entries
    else if entry.1 = key then (key,value)::entries
    else entry::putKey key value entries

def objectOf (pairs : List (Bytes×Bytes)) : List (Bytes×Bytes) :=
  pairs.foldl (fun object pair => putKey pair.1 pair.2 object) []

def decodeGetParam : ResponseStatus×List (Bytes×Bytes) :=
  match decodeFrame data includeSessionBlock with
  | ⟨.kOk,payload⟩ => (.kOk,objectOf (parseKeyValuePairs payload))
  | frame => (frame.status,[])

inductive RtLogRecordKind where
  | kEvent
  | kDoorAlarmStatus
  deriving DecidableEq, Repr

structure RtLogRecord where
  kind : RtLogRecordKind := .kEvent
  cardNo : UInt32 := 0
  pin : UInt32 := 0
  alarmStatus : Bytes := []
  dssStatus : Bytes := []
  verified : UInt8 := 0
  doorId : UInt8 := 0
  eventType : UInt8 := 0
  inOutState : UInt8 := 0
  timeSecond : UInt32 := 0
  deriving DecidableEq, Repr

def readU32 (offset : ℕ) : UInt32 :=
  (data.getD offset 0).toUInt32 ||| (data.getD (offset+1) 0).toUInt32 <<< 8 |||
    (data.getD (offset+2) 0).toUInt32 <<< 16 ||| (data.getD (offset+3) 0).toUInt32 <<< 24

def readRecord (rec : Bytes) : RtLogRecord :=
  if rec.getD 10 0 = 255 then
    { kind := .kDoorAlarmStatus
      alarmStatus := rec.take 4
      dssStatus := (rec.drop 4).take 4
      -- Byte 9, where an event has its door.
      verified := rec.getD 9 0
      eventType := rec.getD 10 0
      timeSecond := readU32 rec 12 }
  else
    { kind := .kEvent
      cardNo := readU32 rec 0
      pin := readU32 rec 4
      verified := rec.getD 8 0
      doorId := rec.getD 9 0
      eventType := rec.getD 10 0
      inOutState := rec.getD 11 0
      timeSecond := readU32 rec 12 }

inductive RtLogStatus where
  | kIncomplete
  | kMalformed
  | kRejected
  | kNotBinaryMode
  | kOk
  deriving DecidableEq, Repr

def readRecords (payload : Bytes) : List RtLogRecord :=
  (List.range (payload.length/16)).map (fun i => readRecord ((payload.drop (16*i)).take 16))

def decodeRtlogBinary : RtLogStatus×List RtLogRecord :=
  match decodeFrame data includeSessionBlock with
  | ⟨.kIncomplete,_⟩ => (.kIncomplete,[])
  | ⟨.kMalformed,_⟩ => (.kMalformed,[])
  | ⟨.kRejected,_⟩ => (.kRejected,[])
  | ⟨.kOk,payload⟩ =>
    if payload.length%16 ≠ 0 then (.kNotBinaryMode,[]) else (.kOk,readRecords payload)

/-- At most one record, with the keys as the panel named them. -/
def decodeRtlogKeyValue : ResponseStatus×Option (List (Bytes×Bytes)) :=
  match decodeFrame data includeSessionBlock with
  | ⟨.kOk,payload⟩ =>
    match objectOf (parseKeyValuePairs payload) with
    | [] => (.kOk,none)
    | object => (.kOk,some object)
  | frame => (frame.status,none)

structure C3DateTime where
  (year month day hour minute second : ℕ)
  deriving DecidableEq, Repr

def decodeC3Time (value : UInt32) : C3DateTime where
  second := value.toNat%60
  minute := value.toNat/60%60
  hour := value.toNat/60/60%24
  day := value.toNat/60/60/24%31+1
  month := value.toNat/60/60/24/31%12+1
  year := value.toNat/60/60/24/31/12+2000

def formatC3Time (value : UInt32) : Text :=
  let t := decodeC3Time value
  Text.padded 4 t.year++ '-'::(Text.padded 2 t.month++ '-'::(Text.padded 2 t.day++
    ' '::(Text.padded 2 t.hour++ ':'::(Text.padded 2 t.minute++ ':'::Text.padded 2 t.second))))

def encodeC3Time (t : C3DateTime) : ℕ :=
  (((((t.year-2000)*12+(t.month-1))*31+(t.day-1))*24+t.hour)*60+t.minute)*60+t.second

/-- A time of the calendar that fits the panel's 32 bits. -/
structure Representable (t : C3DateTime) : Prop where
  year : 2000 ≤ t.year
  month : 1 ≤ t.month ∧ t.month ≤ 12
  day : 1 ≤ t.day ∧ t.day ≤ 31
  hour : t.hour < 24
  minute : t.minute < 60
  second : t.second < 60
  fits : encodeC3Time t < 2^32

theorem decode_encode_time (t : C3DateTime) (h : Representable t) :
    decodeC3Time (UInt32.ofNat (encodeC3Time t)) = t := by
  obtain ⟨hy,hmn,hd,hh,hm,hs,hf⟩ := h
  have hv : (UInt32.ofNat (encodeC3Time t)).toNat = encodeC3Time t :=
    UInt32.toNat_ofNat_of_lt' (by simpa [UInt32.size] using hf)
  obtain ⟨year,month,day,hour,minute,second⟩ := t
  simp only [encodeC3Time] at *
  simp only [decodeC3Time,hv,C3DateTime.mk.injEq]
  omega

theorem encode_decode_time (value : UInt32) :
    encodeC3Time (decodeC3Time value) = value.toNat ∧ Representable (decodeC3Time value) := by
  have hb := value.toNat_lt
  have hv : encodeC3Time (decodeC3Time value) = value.toNat := by
    simp only [encodeC3Time,decodeC3Time]
    omega
  refine ⟨hv,?_,?_,?_,?_,?_,?_,by omega⟩ <;> simp only [decodeC3Time] <;> omega

end EMaster.C3
