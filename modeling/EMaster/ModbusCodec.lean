import EMaster.ModbusRegistry
import EMaster.Bytes

/-!
# Values laid out in registers

A value is a run of bytes, the highest first; the two swap flags say how these bytes stand in the
registers. An integer is converted to a machine word before its range is checked.
-/

set_option autoImplicit false

namespace EMaster.ModbusCodec
open Bytes ModbusRegistry List

def putWord (byteSwap : Bool) (word : UInt16) : Bytes :=
  if byteSwap then [word.toUInt8,(word >>> 8).toUInt8] else [(word >>> 8).toUInt8,word.toUInt8]

def toBytes (registers : List UInt16) (byteSwap wordSwap : Bool) : Bytes :=
  (if wordSwap then registers.reverse else registers).flatMap (putWord byteSwap)

def words (byteSwap : Bool) : Bytes → List UInt16
  | first::second::bytes =>
    (if byteSwap then wordOf first second else wordOf second first)::words byteSwap bytes
  | _ => []

def fromBytes (bytes : Bytes) (byteSwap wordSwap : Bool) : List UInt16 :=
  if wordSwap then (words byteSwap bytes).reverse else words byteSwap bytes

variable (byteSwap wordSwap : Bool)

theorem words_put (ws : List UInt16) : words byteSwap (ws.flatMap (putWord byteSwap)) = ws := by
  induction ws with
  | nil => rfl
  | cons w ws ih => cases byteSwap <;> simp_all [putWord,words,word_of_halves]

theorem put_words (n : ℕ) (b : Bytes) (h : b.length = 2*n) :
    (words byteSwap b).flatMap (putWord byteSwap) = b := by
  induction n generalizing b with
  | zero => rw [length_eq_zero_iff.mp h]; rfl
  | succ n ih =>
    cases b with
    | nil => cases h
    | cons x b =>
      cases b with
      | nil => simp at h; omega
      | cons y b =>
        have hb := ih b (by simp at h; omega)
        cases byteSwap <;> simp_all [putWord,words,low_of_word,high_of_word]

theorem to_bytes_length (registers : List UInt16) :
    (toBytes registers byteSwap wordSwap).length = 2*registers.length := by
  have hp : ∀ w, (putWord byteSwap w).length = 2 := by cases byteSwap <;> exact fun _ => rfl
  cases wordSwap <;> simp [toBytes,length_flatMap,hp,Nat.mul_comm]

theorem to_bytes_even (registers : List UInt16) :
    Even (toBytes registers byteSwap wordSwap).length := by
  rw [to_bytes_length]
  exact even_two_mul _

theorem from_bytes_to (registers : List UInt16) :
    fromBytes (toBytes registers byteSwap wordSwap) byteSwap wordSwap = registers := by
  cases wordSwap <;> simp [fromBytes,toBytes,words_put]

theorem to_bytes_from (bytes : Bytes) (h : Even bytes.length) :
    toBytes (fromBytes bytes byteSwap wordSwap) byteSwap wordSwap = bytes := by
  obtain ⟨n,hn⟩ := h.exists_two_nsmul
  cases wordSwap <;> simp [fromBytes,toBytes,put_words byteSwap n bytes hn]

theorem registers_bytes :
    (∀ registers, fromBytes (toBytes registers byteSwap wordSwap) byteSwap wordSwap = registers) ∧
    (∀ registers, Even (toBytes registers byteSwap wordSwap).length) ∧
    ∀ bytes : Bytes, Even bytes.length →
      toBytes (fromBytes bytes byteSwap wordSwap) byteSwap wordSwap = bytes :=
  ⟨from_bytes_to byteSwap wordSwap,to_bytes_even byteSwap wordSwap,
    to_bytes_from byteSwap wordSwap⟩

/-- With the same flags they are the two directions of one bijection between the registers and the
bytes that come in pairs. -/
theorem one_bijection :
    ∃ e : List UInt16 ≃ {bytes : Bytes // Even bytes.length},
      (∀ registers, (e registers).1 = toBytes registers byteSwap wordSwap) ∧
      ∀ bytes, e.symm bytes = fromBytes bytes.1 byteSwap wordSwap := by
  refine ⟨⟨fun registers => ⟨_,to_bytes_even byteSwap wordSwap registers⟩,
    fun bytes => fromBytes bytes.1 byteSwap wordSwap,?_,?_⟩,fun _ => rfl,fun _ => rfl⟩
  · exact from_bytes_to byteSwap wordSwap
  · exact fun bytes => Subtype.ext (to_bytes_from byteSwap wordSwap bytes.1 bytes.2)

/-! ## Integers -/

/-- The source shifts the value right by eight bits less for each byte. -/
def writeBigEndian (value : ℕ) : ℕ → Bytes
  | 0 => []
  | count+1 => UInt8.ofNat (value >>> (8*count) % 256)::writeBigEndian value count

def readBigEndian (bytes : Bytes) (count : ℕ) : ℕ :=
  (bytes.take count).foldl (fun value b => 256*value+b.toNat) 0

theorem write_length (value count : ℕ) : (writeBigEndian value count).length = count := by
  induction count with
  | zero => rfl
  | succ count ih => rw [writeBigEndian,length_cons,ih]

theorem read_written (value count start : ℕ) :
    (writeBigEndian value count).foldl (fun value b => 256*value+b.toNat) start =
      256^count*start+value%256^count := by
  induction count generalizing start with
  | zero => simp [writeBigEndian,Nat.mod_one]
  | succ count ih =>
    have hb : (UInt8.ofNat (value >>> (8*count) % 256)).toNat = value/256^count%256 := by
      rw [Nat.shiftRight_eq_div_pow,Nat.pow_mul]
      exact UInt8.toNat_ofNat_of_lt (Nat.mod_lt _ (by decide))
    rw [writeBigEndian,foldl_cons,ih,hb,Nat.pow_succ,Nat.mod_mul]
    ring

structure Limits where
  (least most : ℤ)
  count : ℕ

/-- The range of an integer type and its bytes. -/
def integerType : RegisterType → Option Limits
  | .kUInt16 => some ⟨0,0xFFFF,2⟩
  | .kInt16 => some ⟨-32768,32767,2⟩
  | .kUInt32 => some ⟨0,0xFFFFFFFF,4⟩
  | .kInt32 => some ⟨-2147483648,2147483647,4⟩
  | .kUInt64 => some ⟨0,0xFFFFFFFFFFFFFFFF,8⟩
  | .kInt64 => some ⟨-0x8000000000000000,0x7FFFFFFFFFFFFFFF,8⟩
  | _ => none

abbrev IntegerFormat := {format : RegisterFormat // (integerType format.type).isSome}

def limits (format : IntegerFormat) : Limits := (integerType format.1.type).get format.2

def toString : RegisterType → Text
  | .kInt16 => "int16"
  | .kUInt32 => "uint32"
  | .kInt32 => "int32"
  | .kUInt64 => "uint64"
  | .kInt64 => "int64"
  | .kFloat32 => "float32"
  | .kFloat64 => "float64"
  | .kString => "string"
  | .kUInt16 => "uint16"

/-- A JSON integer as the 64-bit integer the source asks for: only the widest unsigned type asks
for an unsigned one. -/
def converted (format : IntegerFormat) (n : ℤ) : ℤ :=
  if format.1.type = .kUInt64 then n%2^64 else n.bmod (2^64)

/-- Every converted integer is in the range of the 64-bit types, which the source does not check. -/
def encodeRegisters (format : IntegerFormat) (n : ℤ) : Except Text (List UInt16) :=
  let v := converted format n
  let ⟨least,most,count⟩ := limits format
  if v < least ∨ most < v then
    .error ("value "++Text.ofInt v++" does not fit "++toString format.1.type)
  else
    .ok (fromBytes (writeBigEndian (v%256^count).toNat count) format.1.byteSwap format.1.wordSwap)

def decodeRegisters (format : IntegerFormat) (registers : List UInt16) : Except Text ℤ :=
  let ⟨least,_,count⟩ := limits format
  if registers.length < count/2 then
    .error ("expected "++Text.ofNat (count/2)++" register(s), got "++Text.ofNat registers.length)
  else
    let value := readBigEndian
      (toBytes (registers.take (count/2)) format.1.byteSwap format.1.wordSwap) count
    .ok (if least < 0 then (value : ℤ).bmod (256^count) else value)

def Fits (format : IntegerFormat) (n : ℤ) : Prop :=
  (limits format).least ≤ n ∧ n ≤ (limits format).most

variable {format : IntegerFormat} {n : ℤ} {registers : List UInt16}

theorem encode_ok_iff :
    (∃ registers, encodeRegisters format n = .ok registers) ↔ Fits format (converted format n) := by
  rw [encodeRegisters,Fits]
  dsimp only
  split_ifs with hf
  · exact iff_of_false (by simp) (by omega)
  · exact iff_of_true ⟨_,rfl⟩ (by omega)

theorem decode_encoded (h : encodeRegisters format n = .ok registers) :
    decodeRegisters format registers = .ok (converted format n) := by
  obtain ⟨⟨type,byteSwap,wordSwap,length⟩,ht⟩ := format
  obtain ⟨⟨least,most,count⟩,hl⟩ := Option.isSome_iff_exists.mp ht
  have hc : count = 2*(count/2) := by
    cases type <;> cases hl <;> rfl
  rw [encodeRegisters,decodeRegisters,limits] at *
  simp only [hl,Option.get_some] at h ⊢
  generalize hv : converted _ n = v at h ⊢
  split_ifs at h with hf
  have hb := to_bytes_from byteSwap wordSwap (writeBigEndian (v%256^count).toNat count)
    (by rw [write_length,hc]; exact even_two_mul _)
  have hr := to_bytes_length byteSwap wordSwap registers
  rw [Except.ok.inj h] at hb
  rw [hb,write_length] at hr
  rw [if_neg (by omega),take_of_length_le (by omega),hb,readBigEndian,
    take_of_length_le (write_length _ _).le,read_written]
  congr 1
  cases type <;> cases hl <;> simp [Int.bmod_def] <;> omega

theorem fits_converted (hn : -2^63 ≤ n ∧ n < 2^64) (h : Fits format n) :
    converted format n = n := by
  obtain ⟨⟨type,_,_,_⟩,ht⟩ := format
  obtain ⟨⟨least,most,count⟩,hl⟩ := Option.isSome_iff_exists.mp ht
  simp only [Fits,limits,hl,Option.get_some] at h
  cases type <;> cases hl <;> simp [converted,Int.bmod_def] <;> omega

/-- What is wanted of one integer: it is encoded just when it fits, and read back as it was. -/
def Kept (format : IntegerFormat) (n : ℤ) : Prop :=
  ((∃ registers, encodeRegisters format n = .ok registers) ↔ Fits format n) ∧
    ∀ registers, encodeRegisters format n = .ok registers → decodeRegisters format registers = .ok n

theorem kept_converted (h : Kept format n) (hf : Fits format (converted format n)) :
    converted format n = n := by
  obtain ⟨registers,hr⟩ := encode_ok_iff.mpr hf
  exact Except.ok.inj ((decode_encoded hr).symm.trans (h.2 registers hr))

theorem kept_of_converted (hn : -2^63 ≤ n ∧ n < 2^64)
    (h : Fits format (converted format n) → converted format n = n) : Kept format n := by
  constructor
  · rw [encode_ok_iff]
    constructor
    · intro hf
      rwa [h hf] at hf
    · intro hf
      rwa [fits_converted hn hf]
  · intro registers hr
    rw [decode_encoded hr,h (encode_ok_iff.mp ⟨registers,hr⟩)]

/-- An integer is encoded just when it fits, and read back as it was, unless the conversion changes
it and the changed integer fits. -/
theorem integers_kept_iff (format : IntegerFormat) (n : ℤ) (hn : -2^63 ≤ n ∧ n < 2^64) :
    (((∃ registers, encodeRegisters format n = .ok registers) ↔ Fits format n) ∧
      ∀ registers, encodeRegisters format n = .ok registers →
        decodeRegisters format registers = .ok n) ↔
      (Fits format (converted format n) → converted format n = n) :=
  ⟨kept_converted,kept_of_converted hn⟩

def swapped : IntegerFormat := ⟨⟨.kInt16,true,false,0⟩,rfl⟩

theorem integers_kept_negative :
    ((∃ registers, encodeRegisters swapped (-2) = .ok registers) ↔ Fits swapped (-2)) ∧
      ∀ registers, encodeRegisters swapped (-2) = .ok registers →
        decodeRegisters swapped registers = .ok (-2) :=
  (integers_kept_iff swapped (-2) (by decide)).mpr fun _ => by decide

/-- The integers whose 64-bit conversion is not taken for another integer of the type. -/
def Unmistaken (format : IntegerFormat) (n : ℤ) : Prop :=
  (format.1.type = .kUInt64 → 0 ≤ n) ∧ n < 2^64+(limits format).least

theorem unmistaken_iff (hn : -2^63 ≤ n ∧ n < 2^64) :
    Unmistaken format n ↔ (Fits format (converted format n) → converted format n = n) := by
  obtain ⟨⟨type,_,_,_⟩,ht⟩ := format
  obtain ⟨⟨least,most,count⟩,hl⟩ := Option.isSome_iff_exists.mp ht
  simp only [Unmistaken,Fits,limits,hl,Option.get_some]
  cases type <;> cases hl <;> simp [converted,Int.bmod_def] <;> omega

/-- A negative integer is written to an unsigned register of 64 bits as a large one, and an integer
near the end of the unsigned range to a signed register as a negative one. -/
theorem written_as_given_iff (format : IntegerFormat) (n : ℤ) (hn : -2^63 ≤ n ∧ n < 2^64) :
    Kept format n ↔ Unmistaken format n := by
  rw [unmistaken_iff hn]
  exact ⟨kept_converted,kept_of_converted hn⟩

theorem negative_written_as_given : Kept swapped (-2) :=
  (written_as_given_iff swapped (-2) (by decide)).mpr ⟨by decide,by decide⟩

theorem largest_written_as_minus_one : ¬Kept swapped (2^64-1) := by
  intro h
  have hc : converted swapped (2^64-1) = -1 := by decide
  have hf : Fits swapped (converted swapped (2^64-1)) := by
    rw [hc]
    exact ⟨by decide,by decide⟩
  exact absurd (hc.symm.trans (kept_converted h hf)) (by decide)

end EMaster.ModbusCodec
