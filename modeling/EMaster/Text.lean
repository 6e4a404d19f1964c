import Mathlib

/-!
# Texts

Strings of the modelled programs are lists of characters, so that the string
operations of the sources are list functions. Case conversion and the character
classes are those of the C locale.
-/

set_option autoImplicit false

namespace EMaster

abbrev Text := List Char

instance : Coe String Text := ⟨String.toList⟩

namespace Text

-- named once, so that every test whether a list has a text is the same term
instance lawful : LawfulBEq Text := inferInstance

def isSpace (c : Char) : Bool :=
  c = ' ' || c = '\t' || c = '\n' || c = '\r' || c = '\x0b' || c = '\x0c'

def trim (text : Text) : Text := ((text.dropWhile isSpace).reverse.dropWhile isSpace).reverse

def upper (text : Text) : Text := text.map Char.toUpper

def lower (text : Text) : Text := text.map Char.toLower

def ofNat (n : ℕ) : Text := (Nat.repr n).toList

def digitValue (c : Char) : ℕ := c.toNat - '0'.toNat

def digitsValue (digits : Text) : ℕ := digits.foldl (fun n c => 10*n+digitValue c) 0

def ofInt (n : ℤ) : Text := (toString n).toList

def IsLowerCase (c : Char) : Prop := 97 ≤ c.toNat ∧ c.toNat ≤ 122

theorem is_lower_case_iff (c : Char) : IsLowerCase c ↔ 'a'.val ≤ c.val ∧ c.val ≤ 'z'.val := by
  rw [UInt32.le_iff_toNat_le,UInt32.le_iff_toNat_le]
  rfl

variable {c : Char}

theorem to_upper_nat (h : IsLowerCase c) : c.toUpper.toNat+32 = c.toNat := by
  have hv : 97 ≤ c.val.toNat ∧ c.val.toNat ≤ 122 := h
  simp only [Char.toUpper,Char.toNat]
  rw [dif_pos ((is_lower_case_iff c).mp h)]
  change (c.val+_).toNat+32 = _
  have hs : ('A'.val - 'a'.val : UInt32).toNat = 4294967264 := by decide
  rw [UInt32.toNat_add,hs]
  omega

theorem to_upper_other (h : ¬IsLowerCase c) : c.toUpper = c := by
  rw [Char.toUpper,dif_neg (fun hv => h ((is_lower_case_iff c).mpr hv))]

theorem to_upper_idempotent (c : Char) : c.toUpper.toUpper = c.toUpper := by
  by_cases h : IsLowerCase c
  · have hn := to_upper_nat h
    have hr : 97 ≤ c.toNat ∧ c.toNat ≤ 122 := h
    apply to_upper_other
    rintro ⟨hl,_⟩
    omega
  · rw [to_upper_other h,to_upper_other h]

theorem is_space_nat (h : isSpace c = true) : c.toNat ≤ 32 := by
  simp only [isSpace,Bool.or_eq_true,decide_eq_true_eq] at h
  rcases h with ((((rfl | rfl) | rfl) | rfl) | rfl) | rfl <;> decide

theorem is_space_upper (c : Char) : isSpace c.toUpper = isSpace c := by
  by_cases h : IsLowerCase c
  · have hn := to_upper_nat h
    have hr : 97 ≤ c.toNat ∧ c.toNat ≤ 122 := h
    have hu : isSpace c.toUpper = false := by
      by_contra hs
      have := is_space_nat (Bool.not_eq_false _ ▸ hs)
      omega
    have hl : isSpace c = false := by
      by_contra hs
      have := is_space_nat (Bool.not_eq_false _ ▸ hs)
      omega
    rw [hu,hl]
  · rw [to_upper_other h]

theorem upper_idempotent (text : Text) : upper (upper text) = upper text := by
  rw [upper,upper,List.map_map]
  exact List.map_congr_left (fun c _ => to_upper_idempotent c)

theorem filter_upper (text : Text) :
    (upper text).filter (fun c => !isSpace c) = upper (text.filter (fun c => !isSpace c)) := by
  induction text with
  | nil => rfl
  | cons c rest ih =>
    rw [upper,List.map_cons,List.filter_cons,is_space_upper,List.filter_cons]
    split_ifs with hs
    · rw [upper,List.map_cons]
      exact congrArg _ ih
    · exact ih

end Text

end EMaster
