import Mathlib

/-!
# Bytes on the wire

Words travel with their high byte first, or last in a trailer. Bits are packed eight to a
byte, the first in the lowest position.
-/

set_option autoImplicit false

namespace EMaster
open List

abbrev Bytes := List UInt8

namespace Bytes

def putU16 (value : UInt16) : Bytes := [(value >>> 8).toUInt8,value.toUInt8]

def getU16 (data : Bytes) (offset : ℕ) : UInt16 :=
  (data.getD offset 0).toUInt16 <<< 8 ||| (data.getD (offset+1) 0).toUInt16

def wordOf (low high : UInt8) : UInt16 := low.toUInt16 ||| high.toUInt16 <<< 8

variable (value : UInt16)

theorem join_bytes : (value >>> 8).toUInt8.toUInt16 <<< 8 ||| value.toUInt8.toUInt16 = value := by
  have hl : value.toNat%256 < 2^8 := Nat.mod_lt _ (by decide)
  have hb := value.toNat_lt
  apply UInt16.toNat_inj.mp
  simp only [UInt16.toNat_or,UInt16.toNat_shiftLeft,UInt8.toNat_toUInt16,
    UInt16.toNat_toUInt8,UInt16.toNat_shiftRight,UInt16.reduceToNat,Nat.reduceMod,
    Nat.reducePow,Nat.shiftRight_eq_div_pow]
  rw [Nat.mod_eq_of_lt (by rw [Nat.shiftLeft_eq]; omega),
    ← Nat.shiftLeft_add_eq_or_of_lt hl, Nat.shiftLeft_eq]
  omega

theorem get_put (before after : Bytes) :
    getU16 (before++(putU16 value++after)) before.length = value := by
  have hh : (before++(putU16 value++after)).getD before.length 0 =
      (value >>> 8).toUInt8 := by
    simp [putU16]
  have hl : (before++(putU16 value++after)).getD (before.length+1) 0 = value.toUInt8 := by
    simp [putU16]
  rw [getU16,hh,hl,join_bytes]

variable (data : Bytes)

theorem word_append (after : Bytes) (offset : ℕ) (h : offset+1 < data.length) :
    getU16 (data++after) offset = getU16 data offset := by
  rw [getU16,getU16,getD_append data after 0 offset (by omega),
    getD_append data after 0 (offset+1) h]

theorem word_take {data : Bytes} {n offset : ℕ} (hn : n ≤ data.length) (h : offset+1 < n) :
    getU16 (data.take n) offset = getU16 data offset := by
  have ha := word_append (data.take n) (data.drop n) offset (by rw [length_take]; omega)
  rw [take_append_drop] at ha
  exact ha.symm

theorem word_of_halves : wordOf value.toUInt8 (value >>> 8).toUInt8 = value := by
  rw [wordOf,UInt16.or_comm,join_bytes]

theorem low_of_word (low high : UInt8) : (wordOf low high).toUInt8 = low := by
  refine UInt8.toBitVec_inj.mp (BitVec.eq_of_getLsbD_eq fun i h => ?_)
  simp [wordOf,h]

theorem high_of_word (low high : UInt8) : (wordOf low high >>> 8).toUInt8 = high := by
  refine UInt8.toBitVec_inj.mp (BitVec.eq_of_getLsbD_eq fun i h => ?_)
  simp [wordOf,h,show 8+i < 16 by omega,show i < 16 by omega]

def setBit (data : Bytes) (i : ℕ) : Bytes :=
  data.modify (i/8) (fun byte => byte ||| 1 <<< UInt8.ofNat (i%8))

def packBits (values : List Bool) : Bytes :=
  values.zipIdx.foldl (fun data v => if v.1 then setBit data v.2 else data)
    (List.replicate ((values.length+7)/8) 0)

theorem fold_set_length (marks : List (Bool×ℕ)) (data : Bytes) :
    (marks.foldl (fun data v => if v.1 then setBit data v.2 else data) data).length =
      data.length := by
  induction marks generalizing data with
  | nil => rfl
  | cons v marks ih =>
    rw [foldl_cons,ih]
    split
    · exact length_modify _ _ _
    · rfl

theorem pack_bits_length (vs : List Bool) : (packBits vs).length = (vs.length+7)/8 := by
  rw [packBits,fold_set_length,length_replicate]

def bitAt (data : Bytes) (offset i : ℕ) : Bool := (data.getD (offset+i/8) 0).toNat.testBit (i%8)

def bitsAt (data : Bytes) (offset count : ℕ) : List Bool :=
  (List.range count).map (bitAt data offset)

def wordsAt (data : Bytes) (offset count : ℕ) : List UInt16 :=
  (List.range count).map (fun i => getU16 data (offset+i*2))

theorem put_words_length (vs : List UInt16) : (vs.flatMap putU16).length = 2*vs.length := by
  induction vs with
  | nil => rfl
  | cons value vs ih =>
    rw [flatMap_cons,length_append,ih,length_cons]
    simp [putU16]
    omega

theorem words_at_put (values : List UInt16) (before after : Bytes) :
    wordsAt (before++(values.flatMap putU16++after)) before.length values.length = values := by
  induction values generalizing before with
  | nil => rfl
  | cons value values ih =>
    have hs := ih (before++putU16 value)
    have hf : before++((value::values).flatMap putU16++after) =
        before++putU16 value++(values.flatMap putU16++after) := by simp
    rw [wordsAt,length_cons,range_succ_eq_map,map_cons,map_map]
    congr 1
    · rw [flatMap_cons,append_assoc]
      exact get_put value before _
    · rw [wordsAt] at hs
      rw [hf]
      conv_rhs => rw [← hs]
      apply map_congr_left
      intro i _
      simp only [Function.comp,length_append]
      congr 1
      simp [putU16]
      omega

def putLow (value : UInt16) : Bytes := [value.toUInt8,(value >>> 8).toUInt8]

def lowWordAt (data : Bytes) (offset : ℕ) : Option UInt16 :=
  match data[offset]?, data[offset+1]? with
  | some low, some high => some (wordOf low high)
  | _, _ => none

def span (data : Bytes) (offset count : ℕ) : Option Bytes :=
  if offset+count ≤ data.length then some ((data.drop offset).take count) else none

variable (off : ℕ)

theorem low_word_inside (h : off+1 < data.length) :
    lowWordAt data off = some (wordOf (data.getD off 0) (data.getD (off+1) 0)) := by
  have hl := getElem?_eq_getElem (show off < data.length by omega)
  have hh := getElem?_eq_getElem h
  simp [lowWordAt,hl,hh]

theorem span_fits (count : ℕ) (h : off+count ≤ data.length) :
    span data off count = some ((data.drop off).take count) := if_pos h

end Bytes

end EMaster
