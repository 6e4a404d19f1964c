import EMaster.Decimal

/-!
# Card codes of the reader

The number a reader reports becomes the text that names the card in the database.
-/

set_option autoImplicit false

namespace EMaster.ZkReader
open EMaster.Text List

structure Settings where
  cardFormat : Option Text
  reconstructParity : Bool
  deriving DecidableEq, Repr

inductive Raw where
  | nil
  | integer (n : ℤ)
  | text (value : Text)
  deriving DecidableEq, Repr

/-- How Lua reads a text as an integer; the decimal text of a number reads as that number. -/
structure ToInteger where
  read : Text → Option ℤ
  decimal : ∀ n : ℕ, n < 2^63 → read (ofNat n) = some (n : ℤ)

def ToInteger.value (lua : ToInteger) : Raw → Option ℤ
  | .nil => none
  | .integer n => some n
  | .text value => lua.read value

def toStr : Raw → Text
  | .nil => "nil"
  | .integer n => ofInt n
  | .text value => value

def countOnes (value : ℕ) : ℕ := if value = 0 then 0 else value%2+countOnes (value/2)

def trailingOddParity (data24 : ℕ) : ℕ := if countOnes (data24%2^12)%2 = 1 then 0 else 1

def hexDigit (d : ℕ) : Char := Char.ofNat (if d < 10 then 48+d else 55+d)

def hexDigits (width n : ℕ) : List ℕ :=
  Nat.digits 16 n++List.replicate (width-(Nat.digits 16 n).length) 0

def formatHex (width n : ℕ) : Text := (hexDigits width n).reverse.map hexDigit

def pairsFrom (msb : Text) : ℕ → Text
  | 0 => []
  | 1 => msb.take 2
  | i+2 => (msb.drop (i+1)).take 2++pairsFrom msb i

/-- The value is the bit pattern of a signed word: one with the top bit set is below every
number. -/
def toHexPair (value : ℕ) : Text×Text :=
  let digits := if 2^63 ≤ value ∨ value ≤ 0xFFFFFF then 6 else 8
  let msb := formatHex digits value
  (msb,pairsFrom msb (msb.length-1))

def parityBit (settings : Settings) (number : ℕ) : ℕ :=
  if settings.reconstructParity then trailingOddParity number else 0

def trueValue (settings : Settings) (number : ℕ) : ℕ := 2*number%2^64+parityBit settings number

def formatCard (lua : ToInteger) (settings : Settings) (raw : Raw) : Option Text :=
  let format := settings.cardFormat.getD "hex_msb"
  if format = "raw" then
    if raw = .nil then none else some (toStr raw)
  else
    match lua.value raw with
    | some (.ofNat number) =>
      if format = "decimal" then some (ofNat number)
      else
        let pair := toHexPair (trueValue settings number)
        if format = "hex_lsb" then some pair.2 else some pair.1
    | _ => if raw = .nil then none else some (upper (toStr raw))

/-! ## The two hexadecimal texts -/

def hexValue (c : Char) : ℕ := if c.toNat < 58 then c.toNat-48 else c.toNat-55

theorem hex_value_digit (d : ℕ) (h : d < 16) : hexValue (hexDigit d) = d := by
  interval_cases d <;> rfl

variable (width : ℕ) (settings : Settings) (v w n : ℕ)

theorem hex_digits_lt {d : ℕ} (h : d ∈ hexDigits width n) : d < 16 := by
  simp only [hexDigits,mem_append,mem_replicate] at h
  rcases h with h | h
  · exact Nat.digits_lt_base (by decide) h
  · omega

theorem format_hex_injective {v n m : ℕ} (h : formatHex w n = formatHex v m) : n = m := by
  have hr : ∀ w n, Nat.ofDigits 16 ((formatHex w n).reverse.map hexValue) = n := by
    intro w n
    have hs : (hexDigits w n).map (hexValue ∘ hexDigit) = hexDigits w n :=
      (map_congr_left (fun d hd => hex_value_digit d (hex_digits_lt w n hd))).trans (map_id _)
    rw [formatHex,← map_reverse,reverse_reverse,map_map,hs,hexDigits,
      Nat.ofDigits_append_replicate_zero,Nat.ofDigits_digits]
  rw [← hr w n,h,hr]

theorem hex_digits_eq :
    hexDigits width n =
      (List.range (max width (Nat.digits 16 n).length)).map (fun i => n/16^i%16) := by
  apply ext_getElem
  · simp [hexDigits]
    omega
  · intro i hi hj
    have hd := Nat.getD_digits n i (b := 16) (by decide)
    simp only [hexDigits,getElem_map,getElem_range,← hd]
    by_cases hlt : i < (Nat.digits 16 n).length
    · simp [hlt]
    · simp [hlt,getElem_append_right (Nat.le_of_not_lt hlt)]

def lowBytes : ℕ → ℕ → Text
  | 0, _ => []
  | k+1, v => hexDigit (v/16%16)::hexDigit (v%16)::lowBytes k (v/256)

theorem pair_digits (width count : ℕ) (hw : (if 2^63 ≤ v ∨ v ≤ 0xFFFFFF then 6 else 8) = width)
    (hc : max width (Nat.digits 16 v).length = count) :
    (toHexPair v).2 =
      pairsFrom ((List.range count).map (fun i => hexDigit (v/16^i%16))).reverse (count-1) := by
  simp only [toHexPair,hw,formatHex,hex_digits_eq,hc]
  simp [Function.comp_def]

theorem pair_narrow (h : v < 2^24) : (toHexPair v).2 = lowBytes 3 v := by
  rw [pair_digits v 6 6 (if_pos (by omega))
    (max_eq_left ((Nat.digits_length_le_iff (by decide) v).mpr (by omega)))]
  simp [range_succ,pairsFrom,lowBytes,Nat.div_div_eq_div_mul]

theorem pair_wide (hlw : 2^24 ≤ v) (hh : v < 2^33) : (toHexPair v).2 = lowBytes 4 v := by
  by_cases h : v < 2^32
  · rw [pair_digits v 8 8 (if_neg (by omega))
      (max_eq_left ((Nat.digits_length_le_iff (by decide) v).mpr (by omega)))]
    simp [range_succ,pairsFrom,lowBytes,Nat.div_div_eq_div_mul]
  · -- The ninth digit stands alone before the pairs and is left out.
    have hl : (Nat.digits 16 v).length = 9 := by
      have hle := (Nat.digits_length_le_iff (b := 16) (k := 9) (by decide) v).mpr (by omega)
      have hlt := (Nat.lt_digits_length_iff (b := 16) (k := 8) (by decide) v).mpr (by omega)
      omega
    rw [pair_digits v 8 9 (if_neg (by omega)) (by rw [hl]; rfl)]
    simp [range_succ,pairsFrom,lowBytes,Nat.div_div_eq_div_mul]

theorem low_bytes_length (k v : ℕ) : (lowBytes k v).length = 2*k := by
  induction k generalizing v with
  | zero => rfl
  | succ k ih => simp [lowBytes,ih]; omega

theorem low_bytes_iff (k v w : ℕ) : lowBytes k v = lowBytes k w ↔ v%256^k = w%256^k := by
  induction k generalizing v w with
  | zero => simp [lowBytes,Nat.mod_one]
  | succ k ih =>
    have hi : ∀ x y, hexDigit (x%16) = hexDigit (y%16) ↔ x%16 = y%16 := fun x y =>
      ⟨fun h => by rw [← hex_value_digit (x%16) (by omega),h,hex_value_digit _ (by omega)],
        fun h => by rw [h]⟩
    simp only [lowBytes,List.cons.injEq,hi,ih,Nat.pow_succ',Nat.mod_mul]
    omega

/-- The bytes tell the two values apart up to what their width leaves out. -/
theorem pair_same_iff (hv : v < 2^33) (hw : w < 2^33) :
    (toHexPair v).2 = (toHexPair w).2 ↔ v = w ∨ 2^24 ≤ v ∧ 2^24 ≤ w ∧ v%2^32 = w%2^32 := by
  by_cases hn : v < 2^24 <;> by_cases ho : w < 2^24
  · rw [pair_narrow v hn,pair_narrow w ho,low_bytes_iff]
    omega
  · rw [pair_narrow v hn,pair_wide w (by omega) hw]
    refine ⟨fun h => ?_,by omega⟩
    have hl := congrArg List.length h
    simp [low_bytes_length] at hl
  · rw [pair_wide v (by omega) hv,pair_narrow w ho]
    refine ⟨fun h => ?_,by omega⟩
    have hl := congrArg List.length h
    simp [low_bytes_length] at hl
  · rw [pair_wide v (by omega) hv,pair_wide w (by omega) hw,low_bytes_iff]
    omega

/-! ## Cards that share a code -/

/-- A reader reports a number as such or as its decimal text. -/
def Reports (raw : Raw) (number : ℕ) : Prop := raw = .integer number ∨ raw = .text (ofNat number)

def Settings.format (settings : Settings) : Text := settings.cardFormat.getD "hex_msb"

/-- The two numbers differ in the bit that the byte-reversed text has no room for. -/
def SameBytes (settings : Settings) (m n : ℕ) : Prop :=
  settings.format = "hex_lsb" ∧ 2^23 ≤ m ∧ 2^23 ≤ n ∧ m%2^31 = n%2^31

def cardCode (settings : Settings) (number : ℕ) : Text :=
  let pair := toHexPair (trueValue settings number)
  if settings.format = "raw" ∨ settings.format = "decimal" then ofNat number
  else if settings.format = "hex_lsb" then pair.2 else pair.1

theorem format_card_number (lua : ToInteger) (settings : Settings) (raw : Raw) (n : ℕ)
    (hn : n < 2^32) (h : Reports raw n) :
    formatCard lua settings raw = some (cardCode settings n) := by
  have hv : lua.value raw = some (.ofNat n) := by
    rcases h with rfl | rfl
    · rfl
    · exact lua.decimal n (by omega)
  have ht : toStr raw = ofNat n ∧ raw ≠ .nil := by
    rcases h with rfl | rfl
    · exact ⟨rfl,by simp⟩
    · exact ⟨rfl,by simp⟩
  simp only [formatCard,cardCode,Settings.format,hv,ht.1,ht.2,if_false]
  split_ifs <;> simp_all

theorem parity_bit_le : parityBit settings n ≤ 1 := by
  rw [parityBit,trailingOddParity]
  split_ifs <;> omega

theorem parity_bit_low (m n : ℕ) (h : m%2^31 = n%2^31) :
    parityBit settings m = parityBit settings n := by
  rw [parityBit,parityBit,trailingOddParity,trailingOddParity,show m%2^12 = n%2^12 by omega]

/-- Two numbers get one card code exactly if they are the same or the byte-reversed text
leaves out the only bit in which they differ. -/
theorem same_code_iff (lua : ToInteger) (settings : Settings) (a b : Raw) (m n : ℕ)
    (hm : m < 2^32) (hn : n < 2^32) (ha : Reports a m) (hb : Reports b n) :
    formatCard lua settings a = formatCard lua settings b ↔ m = n ∨ SameBytes settings m n := by
  rw [format_card_number lua settings a m hm ha,format_card_number lua settings b n hn hb,
    Option.some.injEq]
  have hpm := parity_bit_le settings m
  have hpn := parity_bit_le settings n
  have hlw := parity_bit_low settings m n
  have hvm : trueValue settings m = 2*m+parityBit settings m := by
    rw [trueValue,Nat.mod_eq_of_lt (by omega)]
  have hvn : trueValue settings n = 2*n+parityBit settings n := by
    rw [trueValue,Nat.mod_eq_of_lt (by omega)]
  simp only [cardCode,SameBytes]
  by_cases hp : settings.format = "raw" ∨ settings.format = "decimal"
  · have ho : settings.format ≠ "hex_lsb" := by
      rcases hp with h | h <;> simp [h]
    rw [if_pos hp,if_pos hp]
    refine ⟨fun h => .inl (of_nat_injective h),?_⟩
    rintro (rfl | h)
    · rfl
    · exact absurd h.1 ho
  · rw [if_neg hp,if_neg hp]
    by_cases hl : settings.format = "hex_lsb"
    · rw [if_pos hl,if_pos hl,pair_same_iff _ _ (by omega) (by omega),hvm,hvn]
      simp only [hl,true_and]
      omega
    · rw [if_neg hl,if_neg hl]
      refine ⟨fun h => .inl ?_,?_⟩
      · have hs := format_hex_injective _ h
        omega
      · rintro (rfl | h)
        · rfl
        · exact absurd h.1 hl

def decimalText : ToInteger :=
  ⟨fun text => some (digitsValue text),fun n _ => by rw [digits_value_of_nat]⟩

def reversed : Settings := ⟨some "hex_lsb",false⟩

theorem one_code_for_two :
    formatCard decimalText reversed (.text "8388608") =
      formatCard decimalText reversed (.text "2155872256") ∧
    (8388608 = 2155872256 ∨ SameBytes reversed 8388608 2155872256) := by
  have hb : SameBytes reversed 8388608 2155872256 := by
    refine ⟨rfl,?_,?_,?_⟩ <;> decide
  exact ⟨(same_code_iff decimalText reversed _ _ 8388608 2155872256 (by decide) (by decide)
    (.inr (by decide +kernel)) (.inr (by decide +kernel))).mpr (.inr hb),.inr hb⟩

theorem two_cards_one_code :
    formatCard decimalText reversed (.text "8388608".toList) = some "00000001".toList ∧
    formatCard decimalText reversed (.text "2155872256".toList) = some "00000001".toList := by
  constructor <;> decide +kernel

end EMaster.ZkReader
