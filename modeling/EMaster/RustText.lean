import EMaster.Decimal

/-!
# Strings of the Rust standard library

The functions on string slices as lists of characters.
-/

set_option autoImplicit false

namespace EMaster.RustText
open List

def isWhitespace (c : Char) : Bool :=
  (9 ≤ c.toNat ∧ c.toNat ≤ 13) ∨ (0x2000 ≤ c.toNat ∧ c.toNat ≤ 0x200A) ∨
    c.toNat ∈ [0x20,0x85,0xA0,0x1680,0x2028,0x2029,0x202F,0x205F,0x3000]

def trimMatches (p : Char → Bool) (text : Text) : Text :=
  ((text.dropWhile p).reverse.dropWhile p).reverse

def trim (text : Text) : Text := trimMatches isWhitespace text

def splitOnce (separator : Char) (text : Text) : Option (Text×Text) :=
  if separator ∈ text then
    some (text.takeWhile (fun c => c ≠ separator), (text.dropWhile (fun c => c ≠ separator)).tail)
  else none

/-- A text with every match of a pattern replaced, from the left and without overlaps. `skip`
characters of a match are still to be left out. -/
def replaceFrom (pattern replacement : Text) : ℕ → Text → Text
  | _,[] => []
  | skip+1,_::rest => replaceFrom pattern replacement skip rest
  | 0,c::rest =>
    if pattern <+: c::rest then
      replacement++replaceFrom pattern replacement (pattern.length-1) rest
    else c::replaceFrom pattern replacement 0 rest

def replace (pattern replacement text : Text) : Text := replaceFrom pattern replacement 0 text

def replaceChar (c : Char) (replacement text : Text) : Text :=
  text.flatMap fun d => if d = c then replacement else [d]

structure I64 where
  val : ℤ
  lower : -2^63 ≤ val
  upper : val < 2^63
  deriving DecidableEq

def I64.display (n : I64) : Text := Text.ofInt n.val

def I64.checked (n : ℤ) : Option I64 := if h : -2^63 ≤ n ∧ n < 2^63 then some ⟨n,h.1,h.2⟩ else none

def I64.ofDigits (negative : Bool) (digits : Text) : Option I64 :=
  if digits = [] ∨ digits.all Char.isDigit = false then none
  else I64.checked (if negative then -(Text.digitsValue digits : ℤ) else Text.digitsValue digits)

def I64.parse : Text → Option I64
  | '-'::rest => I64.ofDigits true rest
  | '+'::rest => I64.ofDigits false rest
  | text => I64.ofDigits false text

/-- The characters that numbers are printed with, the infinite ones and NaN too. -/
def printed (c : Char) : Bool := c.isDigit || ['-','.','i','n','f','N','a'].contains c

/-- Floating point numbers, printed without an exponent. One that is printed with a decimal point
is read back as it was. -/
structure F64 (F : Type) where
  display : F → Text
  parse : Text → Option F
  display_printed : ∀ x, ∀ c ∈ display x, printed c = true
  parse_display : ∀ x, '.' ∈ display x → parse (display x) = some x

variable (p : Char → Bool) {text : Text}

theorem drop_while_none (h : ∀ c ∈ text.head?, p c = false) : text.dropWhile p = text := by
  cases text with
  | nil => rfl
  | cons c rest => exact dropWhile_cons_of_neg (by simp [h c rfl])

theorem trim_matches_none (hf : ∀ c ∈ text.head?, p c = false)
    (hl : ∀ c ∈ text.getLast?, p c = false) : trimMatches p text = text := by
  rw [trimMatches, drop_while_none p hf,
    drop_while_none p (by rwa [List.head?_reverse]), reverse_reverse]

theorem trim_matches_ends {first last : Char} (hf : p first = true) (hl : p last = true)
    (h : ∀ c ∈ text, p c = false) : trimMatches p (first::text++[last]) = text := by
  have hh : ∀ c ∈ text.reverse.head?, p c = false := by
    intro c hc
    rw [List.head?_reverse] at hc
    exact h c (mem_of_getLast? hc)
  cases text with
  | nil => simp [trimMatches,hf,hl]
  | cons c rest =>
    have hc : p c = false := h c mem_cons_self
    have hdr : (first::(c::rest)++[last]).dropWhile p = (c::rest)++[last] := by
      rw [cons_append,dropWhile_cons_of_pos hf]
      exact drop_while_none p fun d hd => by
        cases hd
        exact hc
    rw [trimMatches,hdr,reverse_append]
    show ((last::(c::rest).reverse).dropWhile p).reverse = _
    rw [dropWhile_cons_of_pos hl,drop_while_none p hh,reverse_reverse]

variable {c : Char}

theorem count_drop_while (text : Text) (h : p c = false) :
    (text.dropWhile p).count c = text.count c := by
  induction text with
  | nil => rfl
  | cons d rest ih =>
    by_cases hd : p d = true
    · have ho : d ≠ c := fun heq => by simp [heq,h] at hd
      rw [dropWhile_cons_of_pos hd,ih,count_cons_of_ne ho]
    · rw [dropWhile_cons_of_neg hd]

theorem count_trim_matches (c : Char) (text : Text) (h : p c = false) :
    (trimMatches p text).count c = text.count c := by
  rw [trimMatches,count_reverse,count_drop_while p _ h,count_reverse,count_drop_while p _ h]

variable {p}

theorem mem_trim_matches (h : c ∈ trimMatches p text) : c ∈ text := by
  rw [trimMatches,mem_reverse] at h
  exact (dropWhile_sublist p).mem (mem_reverse.mp ((dropWhile_sublist p).mem h))

variable {separator : Char} {before : Text}

theorem split_once_append (after : Text) (h : separator ∉ before) :
    splitOnce separator (before++separator::after) = some (before,after) := by
  have hn : ∀ c ∈ before, decide (c ≠ separator) = true := fun c hc =>
    decide_eq_true fun heq => h (heq ▸ hc)
  rw [splitOnce,if_pos (by simp),takeWhile_append_of_pos hn,dropWhile_append_of_pos hn]
  simp

theorem split_once_some {after : Text} (h : splitOnce separator text = some (before,after)) :
    separator ∉ before ∧ (∀ c ∈ before, c ∈ text) ∧ ∀ c ∈ after, c ∈ text := by
  rw [splitOnce] at h
  split_ifs at h
  cases h
  refine ⟨fun hm => ?_,fun c hc => (takeWhile_sublist _).mem hc,
    fun c hc => (dropWhile_sublist _).mem (mem_of_mem_tail hc)⟩
  simpa using mem_takeWhile_imp hm

theorem mem_replace_from (pattern replacement text : Text) (skip : ℕ) (c : Char)
    (h : c ∈ replaceFrom pattern replacement skip text) : c ∈ replacement ∨ c ∈ text := by
  induction text generalizing skip with
  | nil => exact absurd h (by cases skip <;> simp [replaceFrom])
  | cons d rest ih =>
    cases skip with
    | succ skip => exact (ih skip h).imp_right (mem_cons_of_mem d)
    | zero =>
      rw [replaceFrom] at h
      split_ifs at h
      · rcases mem_append.mp h with hn | hr
        · exact .inl hn
        · exact (ih _ hr).imp_right (mem_cons_of_mem d)
      · rcases mem_cons.mp h with rfl | hr
        · exact .inr mem_cons_self
        · exact (ih _ hr).imp_right (mem_cons_of_mem d)

theorem mem_replace (pattern replacement text : Text) (c : Char)
    (h : c ∈ replace pattern replacement text) : c ∈ replacement ∨ c ∈ text :=
  mem_replace_from _ _ text 0 c h

section Pairs

variable (a b : Char) (replacement : Text)

@[simp]
theorem replace_nil : replace [a,b] replacement [] = [] := rfl

theorem replace_pair (rest : Text) :
    replace [a,b] replacement (a::b::rest) = replacement++replace [a,b] replacement rest := by
  have hm : [a,b] <+: a::b::rest := ⟨rest,rfl⟩
  rw [replace,replaceFrom,if_pos hm]
  rfl

variable {a b}

theorem replace_keep {c : Char} {rest : Text} (h : c = a → rest.head? ≠ some b) :
    replace [a,b] replacement (c::rest) = c::replace [a,b] replacement rest := by
  have hm : ¬[a,b] <+: c::rest := by
    rintro ⟨after,ha⟩
    obtain ⟨rfl,hr⟩ := cons_eq_cons.mp ha
    exact h rfl (by rw [← hr]; rfl)
  rw [replace,replaceFrom,if_neg hm]
  rfl

end Pairs

theorem mem_split (separator : Char) (text piece : Text) (h : piece ∈ text.splitOn separator) :
    separator ∉ piece := by
  induction text generalizing piece with
  | nil =>
    rw [splitOn_nil,mem_singleton] at h
    exact h ▸ not_mem_nil
  | cons c rest ih =>
    rw [splitOn_cons_eq_if_modifyHead] at h
    cases hp : rest.splitOn separator with
    | nil => exact absurd hp (splitOn_ne_nil separator rest)
    | cons first others =>
      rw [hp] at h ih
      split_ifs at h with hc
      · rcases mem_cons.mp h with rfl | hr
        · exact not_mem_nil
        · exact ih piece hr
      · rcases mem_cons.mp h with rfl | hr
        · have ho : separator ≠ c := fun heq => hc (beq_iff_eq.mpr heq.symm)
          exact not_mem_cons_of_ne_of_not_mem ho (ih first mem_cons_self)
        · exact ih piece (mem_cons_of_mem first hr)

theorem of_int_neg (n : ℕ) : Text.ofInt (Int.negSucc n) = '-'::Text.ofNat (n+1) := by
  simp [Text.ofInt,Text.ofNat,toString,Int.repr]

theorem of_digits_nat (negative : Bool) (n : ℕ) (m : I64)
    (h : m.val = if negative then -(n : ℤ) else n) :
    I64.ofDigits negative (Text.ofNat n) = some m := by
  have hd : (Text.ofNat n).all Char.isDigit = true := all_eq_true.mpr (Text.of_nat_digits n)
  rw [I64.ofDigits, if_neg (by simp [Text.of_nat_ne_nil n,hd]), Text.digits_value_of_nat,
    ← h, I64.checked, dif_pos ⟨m.lower,m.upper⟩]

theorem parse_digit (rest : Text) (h : c.isDigit = true) :
    I64.parse (c::rest) = I64.ofDigits false (c::rest) := by
  rw [I64.parse]
  · rintro _ hm
    cases hm
    exact absurd h (by decide)
  · rintro _ hp
    cases hp
    exact absurd h (by decide)

theorem display_parse (n : I64) : I64.parse n.display = some n := by
  rw [I64.display]
  cases hn : n.val with
  | negSucc m =>
    rw [of_int_neg]
    exact of_digits_nat true (m+1) n hn
  | ofNat m =>
    have hv := of_digits_nat false m n hn
    have hd := Text.of_nat_digits m
    show I64.parse (Text.ofNat m) = some n
    cases ht : Text.ofNat m with
    | nil => exact absurd ht (Text.of_nat_ne_nil m)
    | cons c rest =>
      rw [ht] at hv hd
      rw [parse_digit rest (hd c mem_cons_self),hv]

theorem display_integer {n : I64} {c : Char} (h : c ∈ n.display) : c.isDigit = true ∨ c = '-' := by
  rw [I64.display] at h
  cases hn : n.val with
  | negSucc m =>
    rw [hn,of_int_neg] at h
    rcases mem_cons.mp h with rfl | hr
    · exact .inr rfl
    · exact .inl (Text.of_nat_digits (m+1) c hr)
  | ofNat m =>
    rw [hn] at h
    exact .inl (Text.of_nat_digits m c h)

theorem printed_not_white (h : printed c = true) : isWhitespace c = false := by
  simp only [printed,Bool.or_eq_true,contains_eq_mem,decide_eq_true_eq,mem_cons,
    not_mem_nil,or_false] at h
  rcases h with hd | rfl | rfl | rfl | rfl | rfl | rfl | rfl
  · obtain ⟨hl,hh⟩ := Text.digit_bounds c hd
    simp only [isWhitespace,decide_eq_false_iff_not,mem_cons,not_mem_nil,or_false]
    omega
  all_goals decide

end EMaster.RustText
