import EMaster.Text

/-!
# Decimal numbers in texts

Numbers are written without a sign, filled up with zeros where a width is given, and read
back by the C functions that skip blanks and stop at the first other character.
-/

set_option autoImplicit false

namespace EMaster.Text
open List

def Digits (text : Text) : Prop := ∀ c ∈ text, c.isDigit = true

def padded (width n : ℕ) : Text := List.replicate (width-(ofNat n).length) '0'++ofNat n

def signed (text : Text) : Bool×Text :=
  match text.dropWhile isSpace with
  | '-'::rest => (true,rest)
  | '+'::rest => (false,rest)
  | rest => (false,rest)

def leading (text : Text) : ℕ := digitsValue (text.takeWhile Char.isDigit)

/-- The number is held to the range of `long` and then cut to an `int`. -/
def atoi (text : Text) : ℤ :=
  let value : ℤ := if (signed text).1 then -leading (signed text).2 else leading (signed text).2
  Int.bmod (max (-2^63) (min (2^63-1) value)) (2^32)

/-- A number for an unsigned long of 64 bits; a negative one wraps around. -/
def strtoul (text : Text) : ℕ :=
  let value := min (leading (signed text).2) (2^64-1)
  if (signed text).1 then (2^64-value)%2^64 else value

def scanInt (text : Text) : Option (ℤ×Text) :=
  if (signed text).2.takeWhile Char.isDigit = [] then none
  else some (atoi text,(signed text).2.dropWhile Char.isDigit)

theorem of_nat_to_digits (n : ℕ) : ofNat n = Nat.toDigits 10 n := by simp [ofNat,Nat.repr]

theorem of_nat_digits (n : ℕ) : Digits (ofNat n) := by
  intro c hc
  rw [of_nat_to_digits] at hc
  exact Nat.isDigit_of_mem_toDigits (by decide) (by decide) hc

theorem of_nat_ne_nil (n : ℕ) : ofNat n ≠ [] := by
  rw [of_nat_to_digits]
  exact Nat.toDigits_ne_nil

theorem digits_value_of_nat (n : ℕ) : digitsValue (ofNat n) = n := by
  rw [of_nat_to_digits]
  exact Nat.ofDigitChars_ten_toDigits

theorem of_nat_injective {n m : ℕ} (h : ofNat n = ofNat m) : n = m := by
  rw [← digits_value_of_nat n,h,digits_value_of_nat]

variable (width : ℕ)

theorem padded_digits (n : ℕ) : Digits (padded width n) := by
  intro c hc
  rcases mem_append.mp hc with hz | hd
  · rw [eq_of_mem_replicate hz]
    rfl
  · exact of_nat_digits n c hd

theorem padded_ne_nil (n : ℕ) : padded width n ≠ [] := by
  simp [padded,of_nat_ne_nil]

theorem digits_value_padded (n : ℕ) : digitsValue (padded width n) = n := by
  rw [padded]
  induction width-(ofNat n).length with
  | zero => exact digits_value_of_nat n
  | succ k ih => exact ih

theorem digit_bounds (c : Char) (h : c.isDigit = true) : 48 ≤ c.toNat ∧ c.toNat ≤ 57 := by
  simp only [Char.isDigit,Bool.and_eq_true,decide_eq_true_eq] at h
  exact h

variable {c : Char}

theorem digit_not_space (h : c.isDigit = true) : isSpace c = false := by
  have hb := digit_bounds c h
  by_contra hs
  have := is_space_nat (Bool.not_eq_false _ ▸ hs)
  omega

variable {text : Text}

theorem drop_space (h : ∀ c ∈ text.head?, isSpace c = false) : text.dropWhile isSpace = text := by
  cases text with
  | nil => rfl
  | cons c rest =>
    rw [dropWhile_cons,if_neg]
    simpa using h c rfl

theorem signed_digit (rest : Text) (h : c.isDigit = true) : signed (c::rest) = (false,c::rest) := by
  have hs : (c::rest).dropWhile isSpace = c::rest := drop_space (by simpa using digit_not_space h)
  rw [signed,hs]
  split
  · rename_i heq
    cases heq
    cases h
  · rename_i heq
    cases heq
    cases h
  · rfl

section Runs
variable (digits rest : Text) (h : Digits digits) (hne : digits ≠ [])
  (hrest : ∀ c ∈ rest.head?, c.isDigit = false)

include h hrest in
theorem take_digits : (digits++rest).takeWhile Char.isDigit = digits := by
  rw [takeWhile_append_of_pos h]
  cases rest with
  | nil => simp
  | cons c rest => simp [hrest c rfl]

include h hrest in
theorem drop_digits : (digits++rest).dropWhile Char.isDigit = rest := by
  rw [dropWhile_append_of_pos h]
  cases rest with
  | nil => rfl
  | cons c rest => simp [hrest c rfl]

include h hne in
theorem signed_digits : signed (digits++rest) = (false,digits++rest) := by
  obtain ⟨c,tail,rfl⟩ := exists_cons_of_ne_nil hne
  exact signed_digit (tail++rest) (h c mem_cons_self)

include h hne hrest

theorem atoi_digits (hf : digitsValue digits < 2^31) :
    atoi (digits++rest) = digitsValue digits := by
  rw [atoi,signed_digits _ rest h hne,leading,take_digits _ rest h hrest]
  simp only [Bool.false_eq_true,if_false]
  rw [min_eq_right (by omega),max_eq_right (by omega),Int.bmod_eq_of_le (by omega) (by omega)]

theorem strtoul_digits (hf : digitsValue digits < 2^64) :
    strtoul (digits++rest) = digitsValue digits := by
  rw [strtoul,signed_digits _ rest h hne,leading,take_digits _ rest h hrest]
  exact min_eq_left (by omega)

theorem scan_digits (hf : digitsValue digits < 2^31) :
    scanInt (digits++rest) = some ((digitsValue digits : ℤ),rest) := by
  rw [scanInt,atoi_digits _ rest h hne hrest hf,signed_digits _ rest h hne,
    take_digits _ rest h hrest,drop_digits _ rest h hrest,if_neg hne]

end Runs

section Numbers
variable (n : ℕ)

theorem atoi_of_nat (h : n < 2^31) : atoi (ofNat n) = n := by
  have hr := atoi_digits _ [] (of_nat_digits n) (of_nat_ne_nil n) (by simp)
    (by rw [digits_value_of_nat]; exact h)
  rwa [append_nil,digits_value_of_nat] at hr

theorem strtoul_of_nat (h : n < 2^64) : strtoul (ofNat n) = n := by
  have hr := strtoul_digits _ [] (of_nat_digits n) (of_nat_ne_nil n) (by simp)
    (by rw [digits_value_of_nat]; exact h)
  rwa [append_nil,digits_value_of_nat] at hr

theorem scan_padded (width : ℕ) (rest : Text) (hrest : ∀ c ∈ rest.head?, c.isDigit = false)
    (h : n < 2^31) : scanInt (padded width n++rest) = some ((n : ℤ),rest) := by
  rw [scan_digits _ rest (padded_digits width n) (padded_ne_nil width n) hrest
    (by rw [digits_value_padded]; exact h),digits_value_padded]

end Numbers

end EMaster.Text
