import EMaster.Json
import EMaster.WireReader

/-!
# Signed and encrypted packages

The writer and the reader of a package: a magic, a format version, a header in JSON, the
encrypted payload and a signature over all that. The cipher, the signature scheme, the hash
and the JSON library are parameters; metadata is text, so that it always has a JSON form.
-/

set_option autoImplicit false

namespace EMaster
namespace LuaPackage
open Wire List

structure Sodium where
  initialise : Bool
  encrypt : (message additional nonce key : Bytes) → Bytes
  decrypt : (ciphertext additional nonce key : Bytes) → Option Bytes
  sign : (message secretKey : Bytes) → Option Bytes
  verify : (signature message publicKey : Bytes) → Bool
  hexDigest : Bytes → Text

/-- The JSON library on a header: its text is bytes, a text it cannot read is refused, and a
number with a fraction converts to an integer. -/
structure HeaderCodec where
  dump : Json → Bytes
  parse : Bytes → Option Json
  truncate : Text → ℤ

def kMagic : Bytes := [0x48,0x53,0x46,0x4c,0x55,0x41,0x50]
def kFormatVersion : ℕ := 1
def kKeyBytes : ℕ := 32
def kNonceBytes : ℕ := 24
def kSignatureBytes : ℕ := 64
def kPublicKeyBytes : ℕ := 32
def kSecretKeyBytes : ℕ := 64
def kMagicBytes : ℕ := 8
def kMaxHeaderBytes : ℕ := 64*1024
def kMaxPayloadBytes : ℕ := 64*1024*1024

def kTagBytes : ℕ := 16

def kAlgorithm : Text := "xchacha20poly1305-ietf"

structure Metadata where
  (appId version entry runtimeTag builtAt builtBy sourceSha256 bytecodeSha256 : Text)
  bytecodeBytes : ℤ
  (algorithm notes : Text)
  deriving DecidableEq, Repr

def Metadata.initial : Metadata := ⟨[],[],[],[],[],[],[],[],0,kAlgorithm,[]⟩

abbrev Nonce := {bytes : Bytes // bytes.length = kNonceBytes}

def toInt64 (n : ℤ) : ℤ := Int.bmod n (2^64)

def toJson (metadata : Metadata) : List (Text×Json) :=
  [("app_id",.str metadata.appId),
    ("version",.str metadata.version),
    ("entry",.str metadata.entry),
    ("runtime_tag",.str metadata.runtimeTag),
    ("built_at",.str metadata.builtAt),
    ("built_by",.str metadata.builtBy),
    ("source_sha256",.str metadata.sourceSha256),
    ("bytecode_sha256",.str metadata.bytecodeSha256),
    ("bytecode_bytes",.int metadata.bytecodeBytes),
    ("algorithm",.str metadata.algorithm),
    ("notes",.str metadata.notes)]

def hexDigit (n : ℕ) : Char := "0123456789abcdef".toList.getD n '0'

def hexOf (bytes : Bytes) : Text :=
  bytes.flatMap (fun b => [hexDigit (b.toNat/16),hexDigit (b.toNat%16)])

def headerOf (metadata : Metadata) (nonce : Nonce) : Json :=
  .obj (toJson metadata++[("format".toList,.int kFormatVersion),
    ("nonce".toList,.str (hexOf nonce.val))])

/-- The metadata the builder writes: what it knows itself replaces what it was given. -/
def complete (sodium : Sodium) (runtimeTag : Text) (bytecode : Bytes) (metadata : Metadata) :
    Metadata :=
  { metadata with
    algorithm := kAlgorithm
    bytecodeBytes := toInt64 bytecode.length
    bytecodeSha256 := sodium.hexDigest bytecode
    runtimeTag := if metadata.runtimeTag = [] then runtimeTag else metadata.runtimeTag }

def frame (headerText ciphertext : Bytes) : Bytes :=
  (kMagic++[0])++(putLE 2 kFormatVersion++(putLE 4 headerText.length++(headerText++
    (putLE 8 ciphertext.length++ciphertext))))

def keyError (what : Text) (size : ℕ) : Text :=
  "the "++what++" key must be "++Text.ofNat size++" bytes"

def build (sodium : Sodium) (codec : HeaderCodec) (runtimeTag : Text) (nonce : Nonce)
    (bytecode : Bytes) (metadata : Metadata) (encryptionKey secretKey : Bytes) :
    Except Text Bytes :=
  if sodium.initialise = false then .error "libsodium is not initialised"
  else if bytecode = [] then .error "there is no bytecode to package"
  else if encryptionKey.length ≠ kKeyBytes then
    .error (keyError "encryption" kKeyBytes)
  else if secretKey.length ≠ kSecretKeyBytes then
    .error (keyError "signing" kSecretKeyBytes)
  else
    let headerText := codec.dump (headerOf (complete sodium runtimeTag bytecode metadata) nonce)
    if kMaxHeaderBytes < headerText.length then .error "package metadata is too large"
    else
      let out := frame headerText (sodium.encrypt bytecode headerText nonce.val encryptionKey)
      match sodium.sign out secretKey with
      | none => .error "signing failed"
      | some signature => .ok (out++signature)

structure Envelope where
  headerText : Bytes
  header : Json
  (payloadOffset payloadLength signedLength : ℕ)

def parseHeader (codec : HeaderCodec) (headerText : Bytes) : Except (Stop Text) Json :=
  match codec.parse headerText with
  | none => .error (.refused "package header is not valid JSON")
  | some header => do
    require (header.isObject = true) "package header is not a JSON object"
    .ok header

def parseEnvelope (codec : HeaderCodec) (package : Bytes) : Except (Stop Text) Envelope := do
  require (kMagicBytes+2+4+8+kSignatureBytes ≤ package.length)
    "not a gateway Lua package (too short)"
  let magic ← touch package 0 kMagicBytes
  require (magic = kMagic++[0]) "not a gateway Lua package (bad magic)"
  let (format,offset) ← readLE 2 package kMagicBytes "truncated package"
  require (format = kFormatVersion) ("package format version "++Text.ofNat format++
    " is not supported by this gateway")
  let (headerLength,offset) ← readLE 4 package offset "truncated package"
  require (headerLength ≠ 0 ∧ headerLength ≤ kMaxHeaderBytes)
    "package header length is implausible"
  let (headerText,offset) ←
    readBytes package offset headerLength "package header length is implausible"
  let (payloadLength,offset) ← readLE 8 package offset "truncated package"
  require (payloadLength ≠ 0 ∧ payloadLength ≤ kMaxPayloadBytes)
    "package payload length is implausible"
  require (offset+kSignatureBytes ≤ package.length ∧
      package.length-offset-kSignatureBytes = payloadLength)
    "package payload length does not match the file"
  let header ← parseHeader codec headerText
  .ok ⟨headerText,header,offset,payloadLength,offset+payloadLength⟩

def valueInt (codec : HeaderCodec) (header : Json) (key : Text) (fallback : ℤ) : Option ℤ :=
  match header with
  | .obj _ =>
    match header.field key with
    | none => some fallback
    | some (.int n) => some (toInt64 n)
    | some (.float literal) => some (codec.truncate literal)
    | some _ => none
  | _ => none

/-- Nothing where the library throws because a field has another type. -/
def metadataFrom (codec : HeaderCodec) (header : Json) : Option Metadata := do
  let appId ← header.valueText "app_id" []
  let version ← header.valueText "version" []
  let entry ← header.valueText "entry" []
  let runtimeTag ← header.valueText "runtime_tag" []
  let builtAt ← header.valueText "built_at" []
  let builtBy ← header.valueText "built_by" []
  let sourceSha256 ← header.valueText "source_sha256" []
  let bytecodeSha256 ← header.valueText "bytecode_sha256" []
  let bytecodeBytes ← valueInt codec header "bytecode_bytes" 0
  let algorithm ← header.valueText "algorithm" []
  let notes ← header.valueText "notes" []
  some ⟨appId,version,entry,runtimeTag,builtAt,builtBy,sourceSha256,bytecodeSha256,bytecodeBytes,
    algorithm,notes⟩

def nibble (c : Char) : Option ℕ :=
  if '0' ≤ c ∧ c ≤ '9' then some (c.toNat - '0'.toNat)
  else if 'a' ≤ c ∧ c ≤ 'f' then some (c.toNat - 'a'.toNat+10)
  else if 'A' ≤ c ∧ c ≤ 'F' then some (c.toNat - 'A'.toNat+10)
  else none

def hexToBytes : Text → Option Bytes
  | [] => some []
  | [_] => none
  | high::low::rest =>
    match nibble high, nibble low, hexToBytes rest with
    | some h, some l, some bytes => some (UInt8.ofNat (16*h+l)::bytes)
    | _, _, _ => none

def hexEquals (a b : Text) : Bool := Text.lower a = Text.lower b

structure OpenResult where
  ok : Bool
  bytecode : Bytes
  metadata : Metadata
  error : Text
  (signatureFailed runtimeMismatch : Bool)
  deriving DecidableEq, Repr

def OpenResult.refusal (metadata : Metadata) (error : Text) : OpenResult :=
  ⟨false,[],metadata,error,false,false⟩

/-- An exception of the JSON library leaves the reader. -/
inductive Thrown where
  | jsonType
  deriving DecidableEq, Repr

def openSigned (sodium : Sodium) (package encryptionKey : Bytes) (envelope : Envelope)
    (metadata : Metadata) (hex : Text) : Except (Stop Thrown) OpenResult :=
  match hexToBytes hex with
  | none => .ok (.refusal metadata "package header has no usable nonce")
  | some nonce =>
    if nonce.length ≠ kNonceBytes then
      .ok (.refusal metadata "package header has no usable nonce")
    else if metadata.algorithm ≠ kAlgorithm then
      .ok (.refusal metadata
        ("unsupported payload algorithm \""++metadata.algorithm++"\""))
    else do
      let ciphertext ← touch package envelope.payloadOffset envelope.payloadLength
      match sodium.decrypt ciphertext envelope.headerText nonce encryptionKey with
      | none => .ok (.refusal metadata
          "could not decrypt the package: wrong encryption key for this installation")
      | some plaintext =>
        if metadata.bytecodeSha256 ≠ [] ∧
            hexEquals (sodium.hexDigest plaintext) metadata.bytecodeSha256 = false then
          .ok (.refusal metadata "decrypted payload does not match its recorded hash")
        else .ok ⟨true,plaintext,metadata,[],false,false⟩

def openEnvelope (sodium : Sodium) (runtimeTag : Text) (package encryptionKey publicKey : Bytes)
    (envelope : Envelope) (metadata : Metadata) : Except (Stop Thrown) OpenResult :=
  if metadata.runtimeTag ≠ [] ∧ metadata.runtimeTag ≠ runtimeTag then
    .ok { OpenResult.refusal metadata ("package was built for "++metadata.runtimeTag++
      ", this gateway runs "++runtimeTag) with runtimeMismatch := true }
  else do
    let signature ← touch package envelope.signedLength kSignatureBytes
    let signed ← touch package 0 envelope.signedLength
    if sodium.verify signature signed publicKey = false then
      .ok { OpenResult.refusal metadata
        ("signature does not verify -- this package was not built by this "++
          "installation, or has been modified") with signatureFailed := true }
    else
      match envelope.header.valueText "nonce" [] with
      | none => .error (.refused .jsonType)
      | some hex => openSigned sodium package encryptionKey envelope metadata hex

/-- The source's `Open`. -/
def openPackage (sodium : Sodium) (codec : HeaderCodec) (runtimeTag : Text)
    (package encryptionKey publicKey : Bytes) : Except (Stop Thrown) OpenResult :=
  if sodium.initialise = false then
    .ok (.refusal .initial "libsodium is not initialised")
  else if encryptionKey.length ≠ kKeyBytes then
    .ok (.refusal .initial (keyError "encryption" kKeyBytes))
  else if publicKey.length ≠ kPublicKeyBytes then
    .ok (.refusal .initial (keyError "verification" kPublicKeyBytes))
  else
    match parseEnvelope codec package with
    | .error .outside => .error .outside
    | .error (.refused error) => .ok (.refusal .initial error)
    | .ok envelope =>
      match metadataFrom codec envelope.header with
      | none => .error (.refused .jsonType)
      | some metadata =>
        openEnvelope sodium runtimeTag package encryptionKey publicKey envelope metadata

/-- The metadata of a package that nobody has verified. -/
def peekMetadata (codec : HeaderCodec) (package : Bytes) :
    Except (Stop Thrown) (Except Text Metadata) :=
  match parseEnvelope codec package with
  | .error .outside => .error .outside
  | .error (.refused error) => .ok (.error error)
  | .ok envelope =>
    match metadataFrom codec envelope.header with
    | none => .error (.refused .jsonType)
    | some metadata => .ok (.ok metadata)

variable (sodium : Sodium) (codec : HeaderCodec) (headerText : Bytes) (runtimeTag : Text)
  (ciphertext : Bytes)

variable (fields : List (Text×Json)) (bytecode package encryptionKey : Bytes) (metadata : Metadata)

/-- The primitives do what they are for, under a pair of keys. -/
structure Sodium.Matches (sodium : Sodium) (secretKey publicKey : Bytes) : Prop where
  encrypted : ∀ message additional nonce key,
    (sodium.encrypt message additional nonce key).length = message.length+kTagBytes
  decrypts : ∀ message additional nonce key,
    sodium.decrypt (sodium.encrypt message additional nonce key) additional nonce key = some message
  signed : ∀ message signature, sodium.sign message secretKey = some signature →
    signature.length = kSignatureBytes ∧ sodium.verify signature message publicKey = true
  size : publicKey.length = kPublicKeyBytes

def HeaderCodec.Reads (codec : HeaderCodec) (header : Json) : Prop :=
  codec.dump header ≠ [] ∧ ∃ fields, codec.parse (codec.dump header) = some (.obj fields) ∧
    ∀ key, (Json.obj fields).field key = header.field key

theorem nibble_digit : ∀ n < 16, nibble (hexDigit n) = some n := by decide

theorem hex_round (bytes : Bytes) : hexToBytes (hexOf bytes) = some bytes := by
  induction bytes with
  | nil => rfl
  | cons b bytes ih =>
    have hb := b.toNat_lt
    have hh := nibble_digit (b.toNat/16) (by omega)
    have hl := nibble_digit (b.toNat%16) (by omega)
    have hj : 16*(b.toNat/16)+b.toNat%16 = b.toNat := by omega
    rw [hexOf] at ih
    simp [hexOf,hexToBytes,hh,hl,ih,hj]

theorem nonce_field (nonce : Nonce) :
    (headerOf metadata nonce).field "nonce".toList = some (.str (hexOf nonce.val)) := rfl

theorem int64_int64 (n : ℤ) : toInt64 (toInt64 n) = toInt64 n := Int.bmod_bmod

theorem complete_int64 :
    toInt64 (complete sodium runtimeTag bytecode metadata).bytecodeBytes =
      (complete sodium runtimeTag bytecode metadata).bytecodeBytes := by
  simp only [complete,int64_int64]

theorem value_text_of_field (header : Json) (key text : Text)
    (hf : ∀ key, (Json.obj fields).field key = header.field key)
    (h : header.field key = some (.str text)) :
    (Json.obj fields).valueText key [] = some text := by
  rw [Json.valueText,hf key,h]
  rfl

variable {fields} {nonce : Nonce}

theorem metadata_read (hb : toInt64 metadata.bytecodeBytes = metadata.bytecodeBytes)
    (hf : ∀ key, (Json.obj fields).field key = (headerOf metadata nonce).field key) :
    metadataFrom codec (.obj fields) = some metadata := by
  have ht := value_text_of_field fields (headerOf metadata nonce)
  have hc : valueInt codec (.obj fields) "bytecode_bytes".toList 0 =
      some metadata.bytecodeBytes := by
    rw [valueInt,hf]
    exact congrArg some hb
  rw [metadataFrom,ht "app_id".toList metadata.appId hf rfl,
    ht "version".toList metadata.version hf rfl,
    ht "entry".toList metadata.entry hf rfl,
    ht "runtime_tag".toList metadata.runtimeTag hf rfl,
    ht "built_at".toList metadata.builtAt hf rfl,
    ht "built_by".toList metadata.builtBy hf rfl,
    ht "source_sha256".toList metadata.sourceSha256 hf rfl,
    ht "bytecode_sha256".toList metadata.bytecodeSha256 hf rfl,hc,
    ht "algorithm".toList metadata.algorithm hf rfl,
    ht "notes".toList metadata.notes hf rfl]
  rfl

/-- What is left of reading the envelope of a written package after its header. -/
def envelopeTail (codec : HeaderCodec) (headerText ciphertext : Bytes) :
    Except (Stop Text) Envelope := do
  require (valueLE (putLE 8 ciphertext.length) ≠ 0 ∧
      valueLE (putLE 8 ciphertext.length) ≤ kMaxPayloadBytes)
    "package payload length is implausible"
  require (ciphertext.length = valueLE (putLE 8 ciphertext.length))
    "package payload length does not match the file"
  let header ← parseHeader codec headerText
  .ok ⟨headerText,header,22+headerText.length,valueLE (putLE 8 ciphertext.length),
    22+headerText.length+valueLE (putLE 8 ciphertext.length)⟩

theorem frame_length :
    (frame headerText ciphertext).length = 22+headerText.length+ciphertext.length := by
  simp only [frame,kMagic,length_append,length_cons,length_nil,put_length]
  omega

theorem frame_touched (sig : Bytes) :
    (touch (frame headerText ciphertext++sig) 0 (22+headerText.length+ciphertext.length) :
      Except (Stop Thrown) Bytes) = .ok (frame headerText ciphertext) := by
  have hl := frame_length headerText ciphertext
  rw [touch_inside _ _ _ (by rw [length_append]; omega), drop_zero, ← hl, take_left]

theorem frame_held (headerText cipher sig : Bytes) :
    let package := frame headerText cipher++sig
    Holds package 0 (kMagic++[0]) 8 ∧ Holds package 8 (putLE 2 kFormatVersion) 10 ∧
      Holds package 10 (putLE 4 headerText.length) 14 ∧
      Holds package 14 headerText (14+headerText.length) ∧
      Holds package (14+headerText.length) (putLE 8 cipher.length) (22+headerText.length) ∧
      Holds package (22+headerText.length) cipher (22+headerText.length+cipher.length) ∧
      Holds package (22+headerText.length+cipher.length) sig package.length := by
  intro package
  have hs : package = (kMagic++[0])++(putLE 2 kFormatVersion++(putLE 4 headerText.length++
      (headerText++(putLE 8 cipher.length++(cipher++sig))))) := by
    simp [package,frame]
  have h := (holds_whole _ _).mpr hs
  rw [holds_append] at h
  obtain ⟨p1,h1,h⟩ := h
  rw [holds_append] at h
  obtain ⟨p2,h2,h⟩ := h
  rw [holds_append] at h
  obtain ⟨p3,h3,h⟩ := h
  rw [holds_append] at h
  obtain ⟨p4,h4,h⟩ := h
  rw [holds_append] at h
  obtain ⟨p5,h5,h⟩ := h
  rw [holds_append] at h
  obtain ⟨p6,h6,h7⟩ := h
  have e1 : p1 = 8 := h1.1
  have e2 : p2 = 10 := by rw [h2.1,e1,put_length]
  have e3 : p3 = 14 := by rw [h3.1,e2,put_length]
  have e4 : p4 = 14+headerText.length := by rw [h4.1,e3]
  have e5 : p5 = 22+headerText.length := by rw [h5.1,e4,put_length]; omega
  have e6 : p6 = 22+headerText.length+cipher.length := by rw [h6.1,e5]
  subst e1 e2 e3 e4 e5 e6
  exact ⟨h1,h2,h3,h4,h5,h6,h7⟩

theorem envelope_written {sig : Bytes} (hsm : headerText ≠ [])
    (hh : headerText.length ≤ kMaxHeaderBytes)
    (hs : sig.length = kSignatureBytes) :
    parseEnvelope codec (frame headerText ciphertext++sig) =
      envelopeTail codec headerText ciphertext := by
  obtain ⟨hm,hf,hl,ht,hp,_,he⟩ := frame_held headerText ciphertext sig
  have hps : headerText.length ≠ 0 := fun h => hsm (length_eq_zero_iff.mp h)
  have hmx : kMaxHeaderBytes < 256^4 := by decide
  have hsz : (frame headerText ciphertext++sig).length =
      22+headerText.length+ciphertext.length+64 := by
    rw [he.1,hs]
    rfl
  have h64 : kSignatureBytes = 64 := rfl
  have h1 := touch_held (ε := Text) hm
  have h2 := (read_number_iff _ 2 _ 8 10 "truncated package".toList).mpr ⟨by decide,hf⟩
  have h3 := (read_number_iff _ 4 _ 10 14 "truncated package".toList).mpr ⟨by omega,hl⟩
  have h4 := (read_bytes_iff _ headerText 14 _ _
    "package header length is implausible".toList).mpr ⟨rfl,ht⟩
  have h5 := read_held hp "truncated package".toList
  rw [put_length] at h5
  have hr : 22+headerText.length+kSignatureBytes ≤
      (frame headerText ciphertext++sig).length := by omega
  have hrs : (frame headerText ciphertext++sig).length-(22+headerText.length)-
      kSignatureBytes = ciphertext.length := by omega
  have h8 : kMagicBytes = 8 := rfl
  have hln : kMagicBytes+2+4+8+kSignatureBytes ≤
      (frame headerText ciphertext++sig).length := by omega
  rw [parseEnvelope,require_met hln,ok_bind]
  rw [show (touch (frame headerText ciphertext++sig) 0 kMagicBytes :
    Except (Stop Text) Bytes) = .ok (kMagic++[0]) from h1, ok_bind, require_met rfl, ok_bind,
    h8, h2]
  simp only [ok_bind,require_met,h3,hps,hh,h4,h5,hr,hrs,ne_eq,not_false_eq_true,and_self,true_and]
  rfl

theorem tail_fits (hp : codec.parse headerText = some (.obj fields))
    (hs : ciphertext.length ≠ 0) (hf : ciphertext.length ≤ kMaxPayloadBytes) :
    envelopeTail codec headerText ciphertext =
      .ok ⟨headerText,.obj fields,22+headerText.length,ciphertext.length,
        22+headerText.length+ciphertext.length⟩ := by
  have hm : kMaxPayloadBytes < 256^8 := by decide
  have hv := value_put 8 ciphertext.length (by omega)
  rw [envelopeTail,hv,require_met ⟨hs,hf⟩,ok_bind,require_met rfl,ok_bind,parseHeader,hp]
  rfl

theorem tail_refused (hl : kMaxPayloadBytes < ciphertext.length) :
    ∃ error, envelopeTail codec headerText ciphertext = .error (.refused error) := by
  by_cases hp : valueLE (putLE 8 ciphertext.length) ≠ 0 ∧
      valueLE (putLE 8 ciphertext.length) ≤ kMaxPayloadBytes
  · refine ⟨"package payload length does not match the file",?_⟩
    rw [envelopeTail,require_met hp,ok_bind,require_failed (by omega)]
  · refine ⟨"package payload length is implausible",?_⟩
    rw [envelopeTail,require_failed hp]

variable {codec runtimeTag}

theorem built_package {bytecode : Bytes} {md : Metadata} {encryptionKey secretKey pkg : Bytes}
    (h : build sodium codec runtimeTag nonce bytecode md encryptionKey secretKey = .ok pkg) :
    let headerText := codec.dump (headerOf (complete sodium runtimeTag bytecode md) nonce)
    let out := frame headerText (sodium.encrypt bytecode headerText nonce.val encryptionKey)
    sodium.initialise = true ∧ bytecode ≠ [] ∧ encryptionKey.length = kKeyBytes ∧
      headerText.length ≤ kMaxHeaderBytes ∧
      ∃ signature, sodium.sign out secretKey = some signature ∧ pkg = out++signature := by
  intro headerText out
  rw [build] at h
  dsimp only at h
  split_ifs at h with hr hc hk hsc hh
  cases hs : sodium.sign out secretKey with
  | none =>
    rw [hs] at h
    cases h
  | some signature =>
    rw [hs] at h
    exact ⟨by simpa using hr,hc,by simpa using hk,Nat.le_of_not_lt hh,signature,rfl,
      (Except.ok.inj h).symm⟩

def opened (bytecode : Bytes) (metadata : Metadata) : OpenResult :=
  ⟨true,bytecode,metadata,[],false,false⟩

theorem signed_opened (secretKey publicKey : Bytes) (hs : sodium.Matches secretKey publicKey)
    (nonce : Nonce) (bytecode : Bytes) (md : Metadata)
    (encryptionKey headerText sig : Bytes) (header : Json)
    (ha : md.algorithm = kAlgorithm)
    (hh : md.bytecodeSha256 = sodium.hexDigest bytecode) :
    let ciphertext := sodium.encrypt bytecode headerText nonce.val encryptionKey
    openSigned sodium (frame headerText ciphertext++sig) encryptionKey
        ⟨headerText,header,22+headerText.length,ciphertext.length,
          22+headerText.length+ciphertext.length⟩ md (hexOf nonce.val) =
      .ok (opened bytecode md) := by
  intro ciphertext
  obtain ⟨_,_,_,_,_,hc,_⟩ := frame_held headerText ciphertext sig
  have ht := touch_held (ε := Thrown) hc
  have hsm : hexEquals (sodium.hexDigest bytecode) md.bytecodeSha256 = true := by
    simp [hexEquals,hh]
  rw [openSigned,hex_round]
  simp only [nonce.property,ha,ne_eq,not_true_eq_false,if_false,ht,ok_bind,
    ciphertext,hs.decrypts,hsm,Bool.true_eq_false,and_false]
  rfl

/-- Opening what was built gives payload and metadata back just when the encrypted payload
is within the opener's limit. -/
theorem open_build_iff (sodium : Sodium) (codec : HeaderCodec) (runtimeTag : Text) (nonce : Nonce)
    (bytecode : Bytes) (metadata : Metadata) (encryptionKey secretKey publicKey package : Bytes)
    (hsodium : sodium.Matches secretKey publicKey)
    (hcodec : codec.Reads (headerOf (complete sodium runtimeTag bytecode metadata) nonce))
    (htag : metadata.runtimeTag = [] ∨ metadata.runtimeTag = runtimeTag)
    (hbuild : build sodium codec runtimeTag nonce bytecode metadata encryptionKey secretKey =
      .ok package) :
    openPackage sodium codec runtimeTag package encryptionKey publicKey =
        .ok (opened bytecode (complete sodium runtimeTag bytecode metadata)) ↔
      bytecode.length+kTagBytes ≤ kMaxPayloadBytes := by
  obtain ⟨hrd,hc,hk,hh,signature,hsg,rfl⟩ := built_package sodium hbuild
  obtain ⟨hsm,fields,hp,hf⟩ := hcodec
  obtain ⟨hs,hv⟩ := hsodium.signed _ _ hsg
  have hm := metadata_read codec (complete sodium runtimeTag bytecode metadata)
    (complete_int64 sodium runtimeTag bytecode metadata) hf
  have hl := hsodium.encrypted bytecode
    (codec.dump (headerOf (complete sodium runtimeTag bytecode metadata) nonce)) nonce.val
    encryptionKey
  have hn : (Json.obj fields).valueText "nonce" [] = some (hexOf nonce.val) :=
    value_text_of_field fields _ _ _ hf (nonce_field _ nonce)
  have hop := signed_opened sodium secretKey publicKey hsodium nonce bytecode
    (complete sodium runtimeTag bytecode metadata) encryptionKey
    (codec.dump (headerOf (complete sodium runtimeTag bytecode metadata) nonce)) signature
    (.obj fields) rfl rfl
  have hr : ¬((complete sodium runtimeTag bytecode metadata).runtimeTag ≠ [] ∧
      (complete sodium runtimeTag bytecode metadata).runtimeTag ≠ runtimeTag) := by
    by_cases he : metadata.runtimeTag = []
    · simp [complete,he]
    · simp [complete,htag.resolve_left he]
  generalize complete sodium runtimeTag bytecode metadata = completed at *
  generalize codec.dump (headerOf completed nonce) = headerText at *
  generalize sodium.encrypt bytecode headerText nonce.val encryptionKey = ciphertext at *
  rw [openPackage, if_neg (by simp [hrd]), if_neg (by simp [hk]),
    if_neg (by simp [hsodium.size]),
    envelope_written codec headerText ciphertext hsm hh hs]
  rw [← hl]
  constructor
  · intro ho
    by_contra hlr
    obtain ⟨error,hrf⟩ := tail_refused codec headerText ciphertext (by omega)
    rw [hrf] at ho
    exact absurd (congrArg OpenResult.ok (Except.ok.inj ho)) (by simp [OpenResult.refusal,opened])
  · intro hft
    have hps : ciphertext.length ≠ 0 := by rw [hl]; exact Nat.succ_ne_zero _
    obtain ⟨_,_,_,_,_,_,hen⟩ := frame_held headerText ciphertext signature
    have ht := touch_held (ε := Thrown) hen
    rw [hs] at ht
    rw [tail_fits codec headerText ciphertext hp hps hft]
    dsimp only
    rw [hm]
    dsimp only
    rw [openEnvelope,if_neg hr,ht,ok_bind,frame_touched,ok_bind,hv,if_neg (by decide)]
    dsimp only
    rw [hn]
    exact hop

theorem envelope_inside : Inside (parseEnvelope codec package) := by
  have hh (text : Bytes) : Inside (parseHeader codec text) := by
    rw [parseHeader]
    split
    · simp [Inside]
    · exact inside_bind (inside_require _ _) fun _ => inside_ok _
  rw [parseEnvelope]
  by_cases hl : kMagicBytes+2+4+8+kSignatureBytes ≤ package.length
  · rw [require_met hl,ok_bind,touch_inside _ _ _ (by omega),ok_bind]
    iterate 2
      refine inside_bind (inside_require _ _) fun _ => ?_
      refine inside_bind (inside_number _ _ _ _) fun _ => ?_
    refine inside_bind (inside_require _ _) fun _ => ?_
    refine inside_bind (inside_bytes _ _ _ _) fun _ => ?_
    refine inside_bind (inside_number _ _ _ _) fun _ => ?_
    iterate 2 refine inside_bind (inside_require _ _) fun _ => ?_
    exact inside_bind (hh _) fun _ => inside_ok _
  · rw [require_failed hl]
    simp [Inside]

theorem envelope_spans {package : Bytes} {e : Envelope} (h : parseEnvelope codec package = .ok e) :
    e.payloadOffset+e.payloadLength = e.signedLength ∧
      e.signedLength+kSignatureBytes = package.length := by
  simp only [parseEnvelope,bind_ok,require_ok] at h
  obtain ⟨_,_,_,_,_,_,_,_,_,_,_,_,_,_,_,_,_,_,_,_,_,hl,_,_,he⟩ := h
  cases he
  constructor
  · rfl
  · dsimp only
    omega

/-- Opening reads no byte outside the package, whatever the package holds. -/
theorem open_inside (sodium : Sodium) (codec : HeaderCodec) (runtimeTag : Text)
    (package encryptionKey publicKey : Bytes) :
    Inside (openPackage sodium codec runtimeTag package encryptionKey publicKey) := by
  rw [openPackage]
  cases hp : parseEnvelope codec package with
  | error stop =>
    cases stop with
    | outside => exact absurd hp (envelope_inside package)
    | refused error => split_ifs <;> exact inside_ok _
  | ok e =>
    obtain ⟨ho,hl⟩ := envelope_spans hp
    have hs := touch_inside (ε := Thrown) package _ _ hl.le
    have hm := touch_inside (ε := Thrown) package 0 e.signedLength (by omega)
    have hc := touch_inside (ε := Thrown) package e.payloadOffset e.payloadLength (by omega)
    simp only [openEnvelope,openSigned,hs,hm,hc,ok_bind]
    repeat' split
    all_goals simp [Inside]

theorem envelope_framed {package : Bytes} {e : Envelope} (h : parseEnvelope codec package = .ok e) :
    ∃ payload signature : Bytes, signature.length = kSignatureBytes ∧
      package = frame e.headerText payload++signature ∧
      e.headerText.length ≤ kMaxHeaderBytes ∧ payload.length ≤ kMaxPayloadBytes ∧
      e.payloadOffset = 22+e.headerText.length ∧ e.payloadLength = payload.length := by
  simp only [parseEnvelope,bind_ok,require_ok] at h
  obtain ⟨-,hs,_,hm,-,rfl,⟨_,o1⟩,h1,-,rfl,⟨_,o2⟩,h2,-,hh,⟨headerText,o3⟩,h3,
    ⟨n,o4⟩,h4,-,hp,-,⟨_,hl⟩,_,_,he⟩ := h
  cases he
  dsimp only at *
  obtain ⟨magic,hmg,h0⟩ := holds_span package 0 kMagicBytes (by omega)
  have hmt := touch_held (ε := Text) h0
  rw [hmg,hm] at hmt
  rw [← Except.ok.inj hmt] at h0
  have hf := ((read_number_iff _ _ _ _ _ _).mp h1).2
  have hhl := ((read_number_iff _ _ _ _ _ _).mp h2).2
  obtain ⟨ht,hht⟩ := (read_bytes_iff _ _ _ _ _ _).mp h3
  have hpl := ((read_number_iff _ _ _ _ _ _).mp h4).2
  obtain ⟨payload,rfl,h5⟩ := holds_span package o4 n (by omega)
  obtain ⟨signature,hsg,h6⟩ := holds_span package (o4+payload.length) kSignatureBytes (by omega)
  subst ht
  rw [show o4+payload.length+kSignatureBytes = package.length by omega] at h6
  have hw := (holds_whole package _).mp <|
    (holds_append ..).mpr ⟨_,h0,(holds_append ..).mpr ⟨_,hf,(holds_append ..).mpr ⟨_,hhl,
      (holds_append ..).mpr ⟨_,hht,(holds_append ..).mpr ⟨_,hpl,(holds_append ..).mpr ⟨_,h5,h6⟩⟩⟩⟩⟩⟩
  refine ⟨payload,signature,hsg,hw.trans (by simp [frame]),hh.2,hp.2,?_,rfl⟩
  rw [hpl.1,hht.1,hhl.1,hf.1,put_length,put_length,put_length,kMagicBytes]
  omega

/-- The two lengths in front of what they count leave one way to split a file. -/
theorem frame_split {h h' c c' s s' : Bytes} (hh : h.length < 256^4) (hh' : h'.length < 256^4)
    (hc : c.length < 256^8) (hc' : c'.length < 256^8) (he : frame h c++s = frame h' c'++s') :
    h = h' ∧ c = c' ∧ s = s' := by
  simp only [frame,append_assoc,append_cancel_left_eq] at he
  obtain ⟨hl,ht⟩ := append_inj he (by simp)
  obtain ⟨rfl,hb⟩ := append_inj ht (by rw [← value_put 4 _ hh,hl,value_put 4 _ hh'])
  obtain ⟨hl,ht⟩ := append_inj hb (by simp)
  obtain ⟨rfl,rfl⟩ := append_inj ht (by rw [← value_put 8 _ hc,hl,value_put 8 _ hc'])
  exact ⟨rfl,rfl,rfl⟩

theorem accepted_whole {package longer : Bytes} {e e' : Envelope}
    (h : parseEnvelope codec package = .ok e)
    (h' : parseEnvelope codec longer = .ok e') (hp : package <+: longer) : package = longer := by
  obtain ⟨payload,signature,hs,rfl,hh,hc,-⟩ := envelope_framed h
  obtain ⟨payload',signature',hs',rfl,hh',hc',-⟩ := envelope_framed h'
  obtain ⟨rest,hr⟩ := hp
  rw [append_assoc] at hr
  have h4 : kMaxHeaderBytes < 256^4 := by decide
  have h8 : kMaxPayloadBytes < 256^8 := by decide
  obtain ⟨he,hc,hs⟩ := frame_split (by omega) (by omega) (by omega) (by omega) hr
  have hl := congrArg length hs
  rw [length_append] at hl
  rw [← hr,length_eq_zero_iff.mp (show rest.length = 0 by omega),append_nil]

/-- Reading the envelope with the arithmetic of size_t: a sum or a difference keeps what a word
holds. -/
def parseEnvelopeIn (word : ℕ) (codec : HeaderCodec) (package : Bytes) :
    Except (Stop Text) Envelope := do
  require (kMagicBytes+2+4+8+kSignatureBytes ≤ package.length)
    "not a gateway Lua package (too short)"
  let magic ← touch package 0 kMagicBytes
  require (magic = kMagic++[0]) "not a gateway Lua package (bad magic)"
  let (format,offset) ← readLEIn word 2 package kMagicBytes "truncated package"
  require (format = kFormatVersion) ("package format version "++Text.ofNat format++
    " is not supported by this gateway")
  let (headerLength,offset) ← readLEIn word 4 package offset "truncated package"
  require (headerLength ≠ 0 ∧ headerLength ≤ kMaxHeaderBytes)
    "package header length is implausible"
  let (headerText,offset) ←
    readBytesIn word package offset headerLength "package header length is implausible"
  let (payloadLength,offset) ← readLEIn word 8 package offset "truncated package"
  require (payloadLength ≠ 0 ∧ payloadLength ≤ kMaxPayloadBytes)
    "package payload length is implausible"
  require ((offset+kSignatureBytes)%word ≤ package.length ∧
      (package.length+(word-offset)+(word-kSignatureBytes))%word = payloadLength)
    "package payload length does not match the file"
  let header ← parseHeader codec headerText
  .ok ⟨headerText,header,offset,payloadLength,(offset+payloadLength)%word⟩

theorem envelope_in {package : Bytes} {word : ℕ} (hw : 2^32 ≤ word) (hs : package.length < word) :
    parseEnvelopeIn word codec package = parseEnvelope codec package := by
  have h8 : kMagicBytes = 8 := rfl
  have h64 : kSignatureBytes = 64 := rfl
  have hmh : kMaxHeaderBytes = 65536 := rfl
  have hmp : kMaxPayloadBytes = 67108864 := rfl
  rw [parseEnvelopeIn,parseEnvelope,read_number_in (by omega)]
  refine bind_same fun _ hlong => bind_same fun _ _ => bind_same fun _ _ =>
    bind_same fun ⟨format,o1⟩ hf => bind_same fun _ _ => ?_
  have ho1 := ((read_number_iff _ _ _ _ _ _).mp hf).2.1
  rw [put_length] at ho1
  rw [read_number_in (by omega)]
  refine bind_same fun ⟨headerLength,o2⟩ hh => bind_same fun _ hlh => ?_
  have ho2 := ((read_number_iff _ _ _ _ _ _).mp hh).2.1
  rw [put_length] at ho2
  have hlh := require_ok.mp hlh
  rw [read_bytes_in (by omega)]
  refine bind_same fun ⟨headerText,o3⟩ ht => ?_
  obtain ⟨hlt,ho3,-⟩ := (read_bytes_iff _ _ _ _ _ _).mp ht
  dsimp only
  rw [read_number_in (by omega)]
  refine bind_same fun ⟨payloadLength,o4⟩ hp => bind_same fun _ hlp => ?_
  have ho4 := ((read_number_iff _ _ _ _ _ _).mp hp).2.1
  rw [put_length] at ho4
  have hlp := require_ok.mp hlp
  have hsig : (o4+kSignatureBytes)%word = o4+kSignatureBytes := Nat.mod_eq_of_lt (by omega)
  have hsum : (o4+payloadLength)%word = o4+payloadLength := Nat.mod_eq_of_lt (by omega)
  have hrest : (o4+kSignatureBytes ≤ package.length ∧
      (package.length+(word-o4)+(word-kSignatureBytes))%word = payloadLength) ↔
      (o4+kSignatureBytes ≤ package.length ∧
        package.length-o4-kSignatureBytes = payloadLength) := by
    refine and_congr_right fun hl => ?_
    rw [show package.length+(word-o4)+(word-kSignatureBytes) =
      package.length-o4-kSignatureBytes+word*2 by omega,Nat.add_mul_mod_self_left,
      Nat.mod_eq_of_lt (by omega)]
  dsimp only
  rw [hsig,hsum,require_same hrest]

/-- An accepted package is cut without gap or overlap into what the writer frames and a signature
of 64 bytes, which signs all before it; no accepted package continues another; and whatever the
bytes are, no read leaves them and no offset wraps around. -/
theorem envelope_exact (codec : HeaderCodec) :
    (∀ package e, parseEnvelope codec package = .ok e →
      ∃ payload signature : Bytes, signature.length = kSignatureBytes ∧
        package = frame e.headerText payload++signature ∧
        e.signedLength = (frame e.headerText payload).length ∧
        e.payloadOffset = 22+e.headerText.length ∧ e.payloadLength = payload.length) ∧
    (∀ package longer e e', parseEnvelope codec package = .ok e →
      parseEnvelope codec longer = .ok e' → package <+: longer → package = longer) ∧
    ∀ package word, Inside (parseEnvelope codec package) ∧
      (2^32 ≤ word → package.length < word →
        parseEnvelopeIn word codec package = parseEnvelope codec package) := by
  refine ⟨fun package e h => ?_,fun _ _ _ _ => accepted_whole,
    fun package word => ⟨envelope_inside package,envelope_in⟩⟩
  obtain ⟨payload,signature,hs,hp,_,_,ho,hl⟩ := envelope_framed h
  have hsl := (envelope_spans h).1
  exact ⟨payload,signature,hs,hp,by rw [frame_length]; omega,ho,hl⟩

theorem signed_metadata {envelope : Envelope} {hex : Text} {r : OpenResult}
    (h : openSigned sodium package encryptionKey envelope metadata hex = .ok r) :
    r.metadata = metadata := by
  simp only [openSigned] at h
  repeat' split at h
  any_goals (cases h; rfl)
  obtain ⟨ciphertext,_,h⟩ := bind_ok.mp h
  repeat' split at h
  all_goals cases h; rfl

/-- A package that opens shows the metadata it was opened with. -/
theorem open_peeked {publicKey : Bytes} {r : OpenResult}
    (h : openPackage sodium codec runtimeTag package encryptionKey publicKey = .ok r)
    (hok : r.ok = true) : peekMetadata codec package = .ok (.ok r.metadata) := by
  simp only [openPackage] at h
  split_ifs at h
  any_goals (cases h; cases hok)
  rw [peekMetadata]
  cases hp : parseEnvelope codec package with
  | error stop =>
    rw [hp] at h
    cases stop <;> cases h
    cases hok
  | ok envelope =>
    simp only [hp] at h ⊢
    cases hm : metadataFrom codec envelope.header with
    | none => simp [hm] at h
    | some md =>
      simp only [hm,openEnvelope] at h ⊢
      split_ifs at h
      · cases h
        cases hok
      · obtain ⟨signature,_,h⟩ := bind_ok.mp h
        obtain ⟨signed,_,h⟩ := bind_ok.mp h
        split_ifs at h
        · cases h
          cases hok
        · split at h
          · cases h
          · rw [signed_metadata sodium package encryptionKey md h]

/-! ## Packages of a small installation -/

def checksum (bytes : Bytes) : UInt8 := bytes.foldl (· + ·) 0

/-- The payload stays readable; digest and signature are the sum of the bytes. -/
def summedSodium : Sodium where
  initialise := true
  encrypt message _ _ _ := message++replicate kTagBytes 0
  decrypt ciphertext _ _ _ := some (ciphertext.take (ciphertext.length-kTagBytes))
  sign message _ := some (replicate kSignatureBytes (checksum message))
  verify signature message _ := signature = replicate kSignatureBytes (checksum message)
  hexDigest bytes := hexOf [checksum bytes]

theorem summed_matches {publicKey : Bytes} (secretKey : Bytes)
    (h : publicKey.length = kPublicKeyBytes) : summedSodium.Matches secretKey publicKey where
  encrypted message _ _ _ := by simp [summedSodium]
  decrypts message _ _ _ := by simp [summedSodium]
  signed message signature hs := by
    rw [← Option.some.inj hs]
    exact ⟨length_replicate,by simp [summedSodium]⟩
  size := h

def asciiBytes (text : Text) : Bytes := text.map (fun c => UInt8.ofNat c.toNat)

def asciiText (bytes : Bytes) : Text := bytes.map (fun b => Char.ofNat b.toNat)

def quoted (text : Text) : Bytes := 0x22::asciiBytes text++[0x22]

def dumpField : Text×Json → Bytes
  | (key,.str text) => quoted key++0x3a::quoted text
  | (key,.int n) => quoted key++0x3a::asciiBytes (Text.ofInt n)
  | _ => []

def unquoted : Bytes → Option Text
  | 0x22::rest => if rest.getLast? = some 0x22 then some (asciiText rest.dropLast) else none
  | _ => none

def parseField (bytes : Bytes) : Option (Text×Json) :=
  match bytes.splitOn 0x3a with
  | [key,value] => do
    let key ← unquoted key
    match unquoted value with
    | some text => some (key,.str text)
    | none => some (key,.int (Text.digitsValue (asciiText value)))
  | _ => none

/-- Objects of numbers and of texts without a comma, a colon or a quotation mark. -/
def flatCodec : HeaderCodec where
  dump
    | .obj fields => 0x7b::intercalate [0x2c] (fields.map dumpField)++[0x7d]
    | _ => []
  parse
    | 0x7b::rest => ((rest.dropLast.splitOn 0x2c).mapM parseField).map .obj
    | _ => none
  truncate _ := 0

def demoTag : Text := "lua5.4-i8-n8-p8"
def demoNonce : Nonce := ⟨replicate kNonceBytes 7,by decide⟩
def demoKey : Bytes := replicate kKeyBytes 1
def demoSecret : Bytes := replicate kSecretKeyBytes 2
def demoPublic : Bytes := replicate kPublicKeyBytes 3
def demoMetadata : Metadata :=
  { Metadata.initial with appId := "smartlocker", version := "1.0.0" }

def demoHeader (bytecode : Bytes) : Json :=
  headerOf (complete summedSodium demoTag bytecode demoMetadata) demoNonce

def demoBuild (bytecode : Bytes) : Except Text Bytes :=
  build summedSodium flatCodec demoTag demoNonce bytecode demoMetadata demoKey demoSecret

def demoOpen (package : Bytes) : Except (Stop Thrown) OpenResult :=
  openPackage summedSodium flatCodec demoTag package demoKey demoPublic

def demoFrame (bytecode : Bytes) : Bytes :=
  frame (flatCodec.dump (demoHeader bytecode)) (bytecode++replicate kTagBytes 0)

def demoPackage (bytecode : Bytes) : Bytes :=
  demoFrame bytecode++replicate kSignatureBytes (checksum (demoFrame bytecode))

variable {bytecode}

theorem demo_built (h : bytecode ≠ [])
    (hh : (flatCodec.dump (demoHeader bytecode)).length ≤ kMaxHeaderBytes) :
    demoBuild bytecode = .ok (demoPackage bytecode) := by
  rw [demoBuild,build,if_neg (by decide),if_neg h,if_neg (by decide),if_neg (by decide)]
  rw [demoHeader] at hh
  dsimp only
  rw [if_neg (not_lt.mpr hh)]
  rfl

theorem demo_refused (hlr : kMaxPayloadBytes < bytecode.length+kTagBytes)
    (hw : bytecode.length+kTagBytes < 256^8) (hn : flatCodec.dump (demoHeader bytecode) ≠ [])
    (hh : (flatCodec.dump (demoHeader bytecode)).length ≤ kMaxHeaderBytes) :
    demoOpen (demoPackage bytecode) =
      .ok (.refusal .initial "package payload length is implausible") := by
  have hl : (bytecode++replicate kTagBytes (0 : UInt8)).length =
      bytecode.length+kTagBytes := by simp
  have hv := value_put 8 (bytecode++replicate kTagBytes (0 : UInt8)).length (by omega)
  rw [demoOpen,openPackage,if_neg (by decide),if_neg (by decide),if_neg (by decide),
    demoPackage,demoFrame,envelope_written _ _ _ hn hh length_replicate,
    envelopeTail,hv,require_failed (by omega)]

theorem zeros_header (n : ℕ) : demoHeader (replicate n 0) =
    headerOf { demoMetadata with
      bytecodeBytes := toInt64 n, bytecodeSha256 := "00", runtimeTag := demoTag } demoNonce := by
  have hs : checksum (replicate n 0) = 0 := by
    induction n with
    | zero => rfl
    | succ n ih => exact ih
  have hd : summedSodium.hexDigest (replicate n 0) = "00" := by
    show hexOf [checksum _] = _
    rw [hs]
    rfl
  rw [demoHeader,complete,hd,length_replicate]
  rfl

/-- A payload of 64 MiB less 15 bytes is built and signed, and refused on opening. -/
theorem full_payload_refused :
    demoBuild (replicate (kMaxPayloadBytes-15) 0) =
        .ok (demoPackage (replicate (kMaxPayloadBytes-15) 0)) ∧
      demoOpen (demoPackage (replicate (kMaxPayloadBytes-15) 0)) =
        .ok (.refusal .initial "package payload length is implausible") := by
  have hl : (replicate (kMaxPayloadBytes-15) (0 : UInt8)).length = kMaxPayloadBytes-15 :=
    length_replicate
  have hm : kMaxPayloadBytes = 67108864 := rfl
  have ht : kTagBytes = 16 := rfl
  have hz := zeros_header (kMaxPayloadBytes-15)
  have hh : (flatCodec.dump (demoHeader (replicate (kMaxPayloadBytes-15) 0))).length ≤
      kMaxHeaderBytes := by
    rw [hz]
    decide +kernel
  refine ⟨demo_built ?_ hh,demo_refused ?_ ?_ ?_ hh⟩
  · intro hn
    rw [hn,hm] at hl
    cases hl
  · rw [hl,ht]
    omega
  · rw [hl,ht]
    omega
  · rw [hz]
    decide +kernel

theorem small_payload_opened :
    demoOpen (demoPackage [0x1b,0x4c,0x75,0x61]) =
      .ok (opened [0x1b,0x4c,0x75,0x61]
        (complete summedSodium demoTag [0x1b,0x4c,0x75,0x61] demoMetadata)) :=
  (open_build_iff summedSodium flatCodec demoTag demoNonce _ _ demoKey demoSecret demoPublic _
    (summed_matches demoSecret rfl)
    ⟨by decide +kernel,_,rfl,fun _ => rfl⟩ (.inl rfl)
    (demo_built (cons_ne_nil _ _) (by decide +kernel))).mpr (by decide)

end LuaPackage
end EMaster
