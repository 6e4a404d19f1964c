import EMaster.ModbusRtu

/-!
# Frames of the access panel

A frame is a start byte, a body, the checksum of the body with its low byte first and an
end byte. The body holds the protocol version, a command, the length of what follows, the
session block once a session exists, and the payload. Every read of the decoder is written
so that it fails outside the buffer.
-/

set_option autoImplicit false

namespace EMaster.C3
open Bytes Framing ModbusRtu List

def kFrameStart : UInt8 := 0xAA
def kFrameEnd : UInt8 := 0x55
def kProtocolVersion : UInt8 := 0x01

def kCommandConnectSessionLess : UInt8 := 0x01
def kCommandGetParam : UInt8 := 0x04
def kCommandControl : UInt8 := 0x05
def kCommandRtlogBinary : UInt8 := 0x0B
def kCommandConnectSession : UInt8 := 0x76
def kCommandRtlogKeyValue : UInt8 := 0x79
def kReplyOk : UInt8 := 0xC8
def kReplyError : UInt8 := 0xC9

def kPreSessionId : UInt16 := 0xFEFE
def kPreSessionRequestNr : ℤ := -258

def crc16 (data : Bytes) : UInt16 := data.foldl crcByte 0x0000

/-- The request number is signed and travels as its lowest 16 bits. -/
def sessionBlock (sessionId : UInt16) (requestNr : ℤ) (includeSessionBlock : Bool) : Bytes :=
  if includeSessionBlock then putLow sessionId++putLow (UInt16.ofInt requestNr) else []

def encodeBody (command : UInt8) (sessionId : UInt16) (requestNr : ℤ) (payload : Bytes)
    (includeSessionBlock : Bool) : Bytes :=
  kProtocolVersion::command::
    (putLow (UInt16.ofNat ((if includeSessionBlock then 4 else 0)+payload.length))++
      (sessionBlock sessionId requestNr includeSessionBlock++payload))

def encodeFrame (command : UInt8) (sessionId : UInt16) (requestNr : ℤ) (payload : Bytes)
    (includeSessionBlock : Bool) : Bytes :=
  let body := encodeBody command sessionId requestNr payload includeSessionBlock
  kFrameStart::(body++(putLow (crc16 body)++[kFrameEnd]))

inductive ResponseStatus where
  | kIncomplete
  | kMalformed
  | kRejected
  | kOk
  deriving DecidableEq, Repr

structure DecodedFrame where
  status : ResponseStatus
  payload : Bytes
  deriving DecidableEq, Repr

def judge (command start last : UInt8) (checked : Bytes) (expectedCrc : UInt16) (content : Bytes)
    (stripSessionBlock : Bool) : DecodedFrame :=
  if start ≠ kFrameStart ∨ last ≠ kFrameEnd ∨ crc16 checked ≠ expectedCrc ∨
      (command ≠ kReplyOk ∧ command ≠ kReplyError) then ⟨.kMalformed,[]⟩
  else if command = kReplyError then ⟨.kRejected,[]⟩
  else ⟨.kOk,if stripSessionBlock = true ∧ 4 ≤ content.length then content.drop 4 else content⟩

def decodeFrameGeneric (data : Bytes) (stripSessionBlock : Bool) : Option DecodedFrame :=
  if data.length < 5 then some ⟨.kIncomplete,[]⟩
  else do
    let length ← lowWordAt data 3
    let frameSize := 5+length.toNat+2+1
    if data.length < frameSize then return ⟨.kIncomplete,[]⟩
    let expectedCrc ← lowWordAt data (5+length.toNat)
    let command ← data[2]?
    let start ← data[0]?
    let last ← data[frameSize-1]?
    let checked ← span data 1 (4+length.toNat)
    let content ← span data 5 length.toNat
    return judge command start last checked expectedCrc content stripSessionBlock

def lengthField (data : Bytes) : ℕ := (wordOf (data.getD 3 0) (data.getD 4 0)).toNat

def frameSize (data : Bytes) : ℕ := if data.length < 5 then 0 else 5+lengthField data+2+1

theorem body_length (cmd : UInt8) (sid : UInt16) (nr : ℤ) (payload : Bytes)
    (blk : Bool) :
    (encodeBody cmd sid nr payload blk).length = 4+((if blk then 4 else 0)+payload.length) := by
  cases blk <;> simp [encodeBody,sessionBlock,putLow] <;> omega

theorem frame_length (cmd : UInt8) (sid : UInt16) (nr : ℤ) (payload : Bytes)
    (blk : Bool) :
    (encodeFrame cmd sid nr payload blk).length = 8+((if blk then 4 else 0)+payload.length) := by
  simp only [encodeFrame,length_cons,length_append,body_length]
  simp [putLow]
  omega

variable {data : Bytes}

theorem decode_whole (strip : Bool) (h5 : 5 ≤ data.length)
    (hs : 8+lengthField data ≤ data.length) :
    decodeFrameGeneric data strip =
      some (judge (data.getD 2 0) (data.getD 0 0) (data.getD (7+lengthField data) 0)
        ((data.drop 1).take (4+lengthField data))
        (wordOf (data.getD (5+lengthField data) 0) (data.getD (6+lengthField data) 0))
        ((data.drop 5).take (lengthField data)) strip) := by
  have hln : lowWordAt data 3 = some (wordOf (data.getD 3 0) (data.getD 4 0)) :=
    low_word_inside data 3 (by omega)
  have hcr := low_word_inside data (5+lengthField data) (by omega)
  have hg : ∀ i, i < data.length → data[i]? = some (data.getD i 0) := by
    intro i hi
    rw [getD_eq_getElem?_getD,List.getElem?_eq_getElem hi]
    rfl
  have hl := hg (7+lengthField data) (by omega)
  have hc := span_fits data 1 (4+lengthField data) (by omega)
  have hcn := span_fits data 5 (lengthField data) (by omega)
  rw [lengthField] at hs hcr hl hc hcn ⊢
  rw [decodeFrameGeneric,if_neg (by omega),hln]
  simp only [Option.bind_eq_bind,Option.bind_some]
  rw [if_neg (by omega),hcr,hg 2 (by omega),hg 0 (by omega),hc,hcn,
    show 5+(wordOf (data.getD 3 0) (data.getD 4 0)).toNat+2+1-1 =
      7+(wordOf (data.getD 3 0) (data.getD 4 0)).toNat by omega,hl,
    show 5+(wordOf (data.getD 3 0) (data.getD 4 0)).toNat+1 =
      6+(wordOf (data.getD 3 0) (data.getD 4 0)).toNat by omega]
  rfl

theorem decode_incomplete (strip : Bool)
    (h : data.length < 5 ∨ data.length < 8+lengthField data) :
    decodeFrameGeneric data strip = some ⟨.kIncomplete,[]⟩ := by
  by_cases h5 : data.length < 5
  · rw [decodeFrameGeneric,if_pos h5]
  · have hl : lowWordAt data 3 = some (wordOf (data.getD 3 0) (data.getD 4 0)) :=
      low_word_inside data 3 (by omega)
    have hs := h.resolve_left h5
    rw [lengthField] at hs
    rw [decodeFrameGeneric,if_neg h5,hl]
    simp only [Option.bind_eq_bind,Option.bind_some]
    rw [if_pos (by omega)]
    rfl

theorem length_field_append (data rest : Bytes) (h : 5 ≤ data.length) :
    lengthField (data++rest) = lengthField data := by
  rw [lengthField,lengthField,getD_append data rest 0 3 (by omega),
    getD_append data rest 0 4 (by omega)]

theorem frame_size_append (a b : Bytes) (h : 0 < frameSize a) : frameSize (a++b) = frameSize a := by
  by_cases h5 : a.length < 5
  · rw [frameSize,if_pos h5] at h
    omega
  · rw [frameSize, frameSize, if_neg h5, if_neg (by rw [length_append]; omega),
      length_field_append a b (by omega)]

theorem frame_size_own (a : Bytes) (h : 0 < frameSize a) (hft : frameSize a ≤ a.length) :
    frameSize (a.take (frameSize a)) = frameSize a := by
  have h8 : 8 ≤ frameSize a := by
    rw [frameSize] at h ⊢
    split_ifs at h ⊢ <;> omega
  have hf := length_field_append (a.take (frameSize a)) (a.drop (frameSize a))
    (by rw [length_take]; omega)
  rw [take_append_drop] at hf
  rw [frameSize, if_neg (by rw [length_take]; omega), ← hf]
  rw [frameSize,if_neg (by omega)]

def panelFrames : Predictor UInt8 := ⟨frameSize,frame_size_append,frame_size_own⟩

section Encoded
variable (cmd : UInt8) (sid : UInt16) (nr : ℤ) (payload : Bytes) (block : Bool)

theorem length_field_encoded (h : (if block then 4 else 0)+payload.length < 65536)
    (rest : Bytes) :
    lengthField (encodeFrame cmd sid nr payload block++rest) =
      (if block then 4 else 0)+payload.length := by
  have hl : (encodeFrame cmd sid nr payload block++rest).getD 3 0 =
      (UInt16.ofNat ((if block then 4 else 0)+payload.length)).toUInt8 := rfl
  have hh : (encodeFrame cmd sid nr payload block++rest).getD 4 0 =
      (UInt16.ofNat ((if block then 4 else 0)+payload.length) >>> 8).toUInt8 := rfl
  rw [lengthField,hl,hh,word_of_halves]
  exact UInt16.toNat_ofNat_of_lt' (by simpa [UInt16.size] using h)

theorem frame_size_encoded (h : (if block then 4 else 0)+payload.length < 65536)
    (rest : Bytes) :
    frameSize (encodeFrame cmd sid nr payload block++rest) =
      (encodeFrame cmd sid nr payload block).length := by
  have hl := frame_length cmd sid nr payload block
  rw [frameSize, if_neg (by rw [length_append]; omega),
    length_field_encoded cmd sid nr _ block h, hl]
  omega

theorem decode_part (h : (if block then 4 else 0)+payload.length < 65536)
    (part more : Bytes) (hm : more ≠ [])
    (hf : part++more = encodeFrame cmd sid nr payload block)
    (strip : Bool) :
    decodeFrameGeneric part strip = some ⟨.kIncomplete,[]⟩ := by
  apply decode_incomplete
  by_cases h5 : part.length < 5
  · exact .inl h5
  · have hfl := length_field_encoded cmd sid nr _ block h []
    have hl := frame_length cmd sid nr payload block
    have hp := length_pos_iff.mpr hm
    rw [append_nil,← hf,length_field_append part more (by omega)] at hfl
    rw [← hf,length_append] at hl
    omega

variable (rest : Bytes)

theorem encoded_body :
    encodeFrame cmd sid nr payload block++rest =
      (kFrameStart::encodeBody cmd sid nr payload block)++
        (putLow (crc16 (encodeBody cmd sid nr payload block))++ (kFrameEnd::rest)) := by
  simp [encodeFrame]

theorem encoded_trailer (i : ℕ) :
    (encodeFrame cmd sid nr payload block++rest).getD
        (5+((if block then 4 else 0)+payload.length)+i) 0 =
      (putLow (crc16 (encodeBody cmd sid nr payload block))++ (kFrameEnd::rest)).getD i 0 := by
  have hl : (kFrameStart::encodeBody cmd sid nr payload block).length =
      5+((if block then 4 else 0)+payload.length) := by
    rw [length_cons,body_length]
    omega
  rw [encoded_body,← hl,getD_append_right _ _ _ _ (Nat.le_add_right _ _),Nat.add_sub_cancel_left]

theorem encoded_checked :
    ((encodeFrame cmd sid nr payload block++rest).drop 1).take
        (4+((if block then 4 else 0)+payload.length)) =
      encodeBody cmd sid nr payload block := by
  rw [encoded_body,← body_length cmd sid nr _ block]
  exact take_left

theorem encoded_content :
    ((encodeFrame cmd sid nr payload block++rest).drop 5).take
        ((if block then 4 else 0)+payload.length) =
      sessionBlock sid nr block++payload := by
  have hl : (sessionBlock sid nr block++payload).length =
      (if block then 4 else 0)+payload.length := by
    cases block <;> simp [sessionBlock,putLow]
    omega
  have hd : (encodeFrame cmd sid nr payload block++rest).drop 5 =
      (sessionBlock sid nr block++payload)++
        (putLow (crc16 (encodeBody cmd sid nr payload block))++ (kFrameEnd::rest)) := by
    rw [encoded_body]
    simp [encodeBody,putLow]
  rw [hd,← hl]
  exact take_left

theorem decode_frame (h : (if block then 4 else 0)+payload.length < 65536) (rest : Bytes)
    (strip : Bool) :
    decodeFrameGeneric (encodeFrame cmd sid nr payload block++rest)
        strip =
      some (judge cmd kFrameStart kFrameEnd
        (encodeBody cmd sid nr payload block)
        (crc16 (encodeBody cmd sid nr payload block))
        (sessionBlock sid nr block++payload) strip) := by
  have hf := length_field_encoded cmd sid nr payload block h rest
  have hln := frame_length cmd sid nr payload block
  have hl := encoded_trailer cmd sid nr payload block rest 0
  have hh := encoded_trailer cmd sid nr payload block rest 1
  have hls := encoded_trailer cmd sid nr payload block rest 2
  rw [decode_whole _ (by rw [length_append]; omega)
    (by rw [hf,length_append]; omega), hf, encoded_checked, encoded_content,
    show 7+((if block then 4 else 0)+payload.length) =
      5+((if block then 4 else 0)+payload.length)+2 by omega, hls,
    show 6+((if block then 4 else 0)+payload.length) =
      5+((if block then 4 else 0)+payload.length)+1 by omega, hh]
  rw [Nat.add_zero] at hl
  rw [hl]
  exact congrArg (fun crc => some (judge cmd kFrameStart kFrameEnd _ crc _ _)) (word_of_halves _)

theorem decode_encoded (h : (if block then 4 else 0)+payload.length < 65536) (rest : Bytes) :
    decodeFrameGeneric (encodeFrame kReplyOk sid nr payload block++rest) block =
      some ⟨.kOk,payload⟩ := by
  rw [decode_frame _ sid nr _ block h rest block,judge,
    if_neg (by simp),if_neg (by decide)]
  cases block <;> simp [sessionBlock,putLow]

end Encoded

theorem encoded_framed (cmd : UInt8) (sid : UInt16) (nr : ℤ) {payload : Bytes}
    {block : Bool} (h : (if block then 4 else 0)+payload.length < 65536) :
    IsFrame panelFrames (encodeFrame cmd sid nr payload block) := by
  have hs := frame_size_encoded cmd sid nr _ block h []
  rw [append_nil] at hs
  exact ⟨hs,cons_ne_nil _ _⟩

theorem decode_inside (data : Bytes) (strip : Bool) :
    ∃ frame, decodeFrameGeneric data strip = some frame := by
  by_cases h : data.length < 5 ∨ data.length < 8+lengthField data
  · exact ⟨_,decode_incomplete _ h⟩
  · push Not at h
    exact ⟨_,decode_whole _ h.1 h.2⟩

/-- A reply of the panel is decoded to its payload whatever follows it; no proper part of
it is; its size is seen from its beginning; and no read leaves the buffer. -/
theorem frame_round_trip (sessionId : UInt16) (requestNr : ℤ) (payload : Bytes)
    (h : payload.length ≤ 65531) (block : Bool) :
    (∀ rest, decodeFrameGeneric (encodeFrame kReplyOk sessionId requestNr payload block++rest)
      block = some ⟨.kOk,payload⟩) ∧
    (∀ part more, more ≠ [] → part++more = encodeFrame kReplyOk sessionId requestNr payload block →
      ∀ stripSessionBlock, decodeFrameGeneric part stripSessionBlock = some ⟨.kIncomplete,[]⟩) ∧
    (∀ rest, frameSize (encodeFrame kReplyOk sessionId requestNr payload block++rest) =
      (encodeFrame kReplyOk sessionId requestNr payload block).length) ∧
    ∀ data stripSessionBlock, ∃ frame, decodeFrameGeneric data stripSessionBlock = some frame := by
  have hs : (if block then 4 else 0)+payload.length < 65536 := by
    split_ifs <;> omega
  exact ⟨decode_encoded sessionId requestNr payload block hs,
    decode_part _ _ _ _ block hs,
    frame_size_encoded _ _ _ _ block hs,decode_inside⟩

theorem three_bytes_round_trip :
    ([3,0xAA,0x55] : Bytes).length ≤ 65531 ∧
      decodeFrameGeneric (encodeFrame kReplyOk 0x1234 (-2) [3,0xAA,0x55] true++[0xAA]) true =
        some ⟨.kOk,[3,0xAA,0x55]⟩ ∧
      decodeFrameGeneric [0xAA,1,0xC8] true = some ⟨.kIncomplete,[]⟩ := by
  have h := frame_round_trip 0x1234 (-2) [3,0xAA,0x55] (by decide) true
  exact ⟨by decide,h.1 [0xAA],
    h.2.1 [0xAA,1,0xC8] ((encodeFrame kReplyOk 0x1234 (-2) [3,0xAA,0x55] true).drop 3)
      (by decide +kernel) (by decide +kernel) true⟩

end EMaster.C3
