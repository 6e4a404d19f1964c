import EMaster.ModbusRtu

/-!
# What the checksum detects

One bit of the checksum loop can be undone, so two frames that differ in one byte have different
checksums, whatever follows that byte.
-/

set_option autoImplicit false

namespace EMaster.ModbusRtu
open Bytes List

theorem crc_bit_get (c : UInt16) (i : ℕ) : (crcBit c).toBitVec.getLsbD i =
    (c.toBitVec.getLsbD (i+1) ^^ (c.toBitVec[0] && (0xA001#16).getLsbD i)) := by
  have hb : c &&& 1 = 1 ↔ c.toBitVec[0] = true := by
    rw [← UInt16.toBitVec_inj,← BitVec.toNat_inj]
    simp [BitVec.getElem_eq_testBit_toNat]
  unfold crcBit
  split_ifs with h
  · simp [hb.mp h,Nat.add_comm]
  · simp [Bool.eq_false_iff.mpr (mt hb.mpr h),Nat.add_comm]

theorem crc_bit_injective : Function.Injective crcBit := by
  intro a b h
  have hg (i : ℕ) := congrArg (fun c : UInt16 => c.toBitVec.getLsbD i) h
  simp only [crc_bit_get] at hg
  -- the highest bit of the result is the one that was shifted out
  have h0 : a.toBitVec[0] = b.toBitVec[0] := by simpa using hg 15
  refine UInt16.toBitVec_inj.mp (BitVec.eq_of_getLsbD_eq fun i _ => ?_)
  cases i with
  | zero => simpa using h0
  | succ i => simpa [h0] using hg i

theorem crc_byte_injective (byte : UInt8) : Function.Injective (crcByte · byte) := fun _ _ h =>
  (UInt16.xor_left_inj _).mp (crc_bit_injective.iterate 8 h)

theorem crc_changed {s : UInt16} {x y : UInt8} (h : crcByte s x = crcByte s y) : x = y := by
  have := (UInt16.xor_right_inj _).mp (crc_bit_injective.iterate 8 h)
  simpa using congrArg UInt16.toUInt8 this

theorem crc_fold_injective (data : Bytes) : Function.Injective (data.foldl crcByte) := by
  induction data with
  | nil => exact fun _ _ h => h
  | cons byte data hi => exact fun _ _ h => crc_byte_injective byte (hi h)

theorem crc_set {data : Bytes} {i : ℕ} (h : i < data.length) {y : UInt8}
    (hc : modbusRtuCrc16 (data.set i y) = modbusRtuCrc16 data) : y = data[i] := by
  have hd : data = data.take i++data[i]::data.drop (i+1) := by simp
  rw [set_eq_take_append_cons_drop,if_pos h] at hc
  conv_rhs at hc => rw [hd]
  simp only [modbusRtuCrc16,foldl_append,foldl_cons] at hc
  exact crc_changed (crc_fold_injective _ hc)

theorem word_injective {a b c d : UInt8} (h : wordOf a b = wordOf c d) : a = c ∧ b = d := by
  constructor
  · rw [← low_of_word a b,h,low_of_word]
  · rw [← high_of_word a b,h,high_of_word]

theorem accepted {frame pdu : Bytes} {unit : UInt8}
    (h : parseModbusRtuFrame frame = .ok (unit,pdu)) : ∃ low high, pdu ≠ [] ∧
      frame = unit::pdu++[low,high] ∧ modbusRtuCrc16 (unit::pdu) = wordOf low high := by
  have hl : ¬frame.length < 4 := by
    intro hs
    rw [parseModbusRtuFrame,if_pos hs] at h
    cases h
  obtain ⟨low,high,hd⟩ := length_eq_two.mp
    (show (frame.drop (frame.length-2)).length = 2 by rw [length_drop]; omega)
  have hf := take_append_drop (frame.length-2) frame
  have hb : 2 ≤ (frame.take (frame.length-2)).length := by
    rw [length_take]
    omega
  rw [hd] at hf
  generalize frame.take (frame.length-2) = body at hf hb
  rw [← hf,parse_split body hb] at h
  split_ifs at h with hc
  cases body with
  | nil => cases hb
  | cons unit rest =>
    cases rest with
    | nil => exact absurd hb (Nat.not_succ_le_self 1)
    | cons x pdu =>
      cases h
      exact ⟨low,high,cons_ne_nil _ _,hf.symm,not_not.mp hc⟩

def flipBit (frame : Bytes) (i k : ℕ) : Bytes :=
  frame.set i (frame.getD i 0 ^^^ 1 <<< UInt8.ofNat k)

theorem flip_changes (b : UInt8) {k : ℕ} (h : k < 8) : b ^^^ 1 <<< UInt8.ofNat k ≠ b := by
  intro hb
  have := (UInt8.xor_right_inj b).mp (hb.trans UInt8.xor_zero.symm)
  interval_cases k <;> exact absurd this (by decide)

theorem change_rejected {body : Bytes} {low high : UInt8} (h : 2 ≤ body.length)
    (hc : modbusRtuCrc16 body = wordOf low high) {i : ℕ} (hi : i < body.length+2) {y : UInt8}
    (hy : y ≠ (body++[low,high]).getD i 0) :
    parseModbusRtuFrame ((body++[low,high]).set i y) = .error "RTU CRC16 mismatch" := by
  rcases lt_or_ge i body.length with hb | hb
  · rw [getD_append _ _ _ _ hb,getD_eq_getElem _ _ hb] at hy
    rw [set_append_left _ _ hb,parse_split _ (by rwa [length_set]),
      if_pos fun h' => hy (crc_set hb (h'.trans hc.symm))]
  · obtain rfl | rfl : i = body.length ∨ i = body.length+1 := by omega
    · have hy : y ≠ low := by simpa using hy
      have hs : (body++[low,high]).set body.length y = body++[y,high] := by simp
      rw [hs,parse_split body h,if_pos fun h' => hy (word_injective (h'.symm.trans hc)).1]
    · have hy : y ≠ high := by simpa using hy
      have hs : (body++[low,high]).set (body.length+1) y = body++[low,y] := by simp
      rw [hs,parse_split body h,if_pos fun h' => hy (word_injective (h'.symm.trans hc)).2]

theorem rtu_frame_exact :
    (∀ (unit : UInt8) (pdu : Bytes), pdu ≠ [] →
      parseModbusRtuFrame (buildModbusRtuFrame unit pdu) = .ok (unit,pdu)) ∧
    (∀ (frame : Bytes) (unit : UInt8) (pdu : Bytes), parseModbusRtuFrame frame = .ok (unit,pdu) →
      buildModbusRtuFrame unit pdu = frame ∧ ∀ i < frame.length, ∀ k < 8,
        parseModbusRtuFrame (flipBit frame i k) = .error "RTU CRC16 mismatch") := by
  refine ⟨fun unit pdu => parse_built unit,fun frame unit pdu h => ?_⟩
  obtain ⟨low,high,hp,rfl,hc⟩ := accepted h
  constructor
  · rw [buildModbusRtuFrame,trailer,hc,low_of_word,high_of_word]
  · intro i hi k hk
    have hl : 2 ≤ (unit::pdu).length := Nat.succ_le_succ (length_pos_iff.mpr hp)
    exact change_rejected hl hc (hi.trans_eq length_append) (flip_changes _ hk)

end EMaster.ModbusRtu
