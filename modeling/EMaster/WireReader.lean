import EMaster.Bytes

/-!
# Reading a buffer through an offset

Numbers are written with their low byte first. A reader goes through a buffer by offset,
checks the room before each field and then touches the bytes; that it touched one outside
the buffer is an outcome of its own.
-/

set_option autoImplicit false

namespace EMaster
open List
namespace Wire

def putLE : ℕ → ℕ → Bytes
  | 0, _ => []
  | width+1, value => UInt8.ofNat (value%256)::putLE width (value/256)

def valueLE : Bytes → ℕ
  | [] => 0
  | b::bytes => b.toNat+256*valueLE bytes

@[simp] theorem put_length (width value : ℕ) : (putLE width value).length = width := by
  induction width generalizing value with
  | zero => rfl
  | succ width ih => simp [putLE,ih]

theorem value_put (width value : ℕ) (h : value < 256^width) :
    valueLE (putLE width value) = value := by
  induction width generalizing value with
  | zero =>
    rw [Nat.pow_zero] at h
    simp only [putLE,valueLE]
    omega
  | succ width ih =>
    have hr : value/256 < 256^width := by
      rw [Nat.div_lt_iff_lt_mul (by decide),← Nat.pow_succ]
      exact h
    have hl : (UInt8.ofNat (value%256)).toNat = value%256 :=
      UInt8.toNat_ofNat_of_lt (by simp [UInt8.size]; omega)
    simp only [putLE,valueLE,ih _ hr,hl]
    omega

theorem put_value (bytes : Bytes) : putLE bytes.length (valueLE bytes) = bytes := by
  induction bytes with
  | nil => rfl
  | cons b bytes ih =>
    have hb := b.toNat_lt
    have hm : (b.toNat+256*valueLE bytes)%256 = b.toNat := by omega
    have hd : (b.toNat+256*valueLE bytes)/256 = valueLE bytes := by omega
    simp [putLE,valueLE,hm,hd,ih]

theorem value_lt (bytes : Bytes) : valueLE bytes < 256^bytes.length := by
  induction bytes with
  | nil => simp [valueLE]
  | cons b bytes ih =>
    have hb := b.toNat_lt
    rw [valueLE,length_cons,Nat.pow_succ]
    omega

inductive Stop (ε : Type) where
  | outside
  | refused (error : ε)
  deriving DecidableEq, Repr

section
variable {ε α β : Type}

def touch (data : Bytes) (offset : ℕ) : ℕ → Except (Stop ε) Bytes
  | 0 => .ok []
  | count+1 =>
    match data[offset]? with
    | none => .error .outside
    | some b => (touch data (offset+1) count).map (b::·)

def readBytes (data : Bytes) (offset count : ℕ) (error : ε) : Except (Stop ε) (Bytes×ℕ) :=
  if data.length < offset+count then .error (.refused error)
  else (touch data offset count).map (·,offset+count)

def readLE (width : ℕ) (data : Bytes) (offset : ℕ) (error : ε) : Except (Stop ε) (ℕ×ℕ) :=
  (readBytes data offset width error).map (fun r => (valueLE r.1,r.2))

def require (condition : Prop) [Decidable condition] (error : ε) : Except (Stop ε) Unit :=
  if condition then .ok () else .error (.refused error)

def Holds (data : Bytes) (offset : ℕ) (content : Bytes) (next : ℕ) : Prop :=
  next = offset+content.length ∧ data.take next = data.take offset++content ∧ next ≤ data.length

def Inside (result : Except (Stop ε) α) : Prop := result ≠ .error .outside

theorem bind_ok {x : Except ε α} {f : α → Except ε β} {r : β} :
    (x >>= f) = .ok r ↔ ∃ a, x = .ok a ∧ f a = .ok r := by
  cases x with
  | error stop => simp [bind,Except.bind]
  | ok a => simp [bind,Except.bind]

theorem ok_bind (a : α) (f : α → Except (Stop ε) β) : (.ok a >>= f) = f a := rfl

variable {cond : Prop}

theorem require_met [Decidable cond] (h : cond) (error : ε) :
    require cond error = .ok () := if_pos h

theorem require_failed [Decidable cond] (h : ¬cond) (error : ε)
    (f : Unit → Except (Stop ε) β) : (require cond error >>= f) = .error (.refused error) := by
  rw [require,if_neg h]
  rfl

theorem require_ok {condition : Prop} [Decidable condition] {error : ε} {u : Unit} :
    require condition error = .ok u ↔ condition := by
  by_cases h : condition <;> simp [require,h]

theorem bind_same {x : Except ε α} {f g : α → Except ε β} (h : ∀ a, x = .ok a → f a = g a) :
    (x >>= f) = (x >>= g) := by
  cases x with
  | error stop => rfl
  | ok a => exact h a rfl

theorem require_same {p q : Prop} [Decidable p] [Decidable q] {error : ε} (h : p ↔ q) :
    require p error = require q error := if_congr h rfl rfl

theorem inside_bind {x : Except (Stop ε) α} {f : α → Except (Stop ε) β} (hx : Inside x)
    (hf : ∀ a, Inside (f a)) : Inside (x >>= f) := by
  cases x with
  | error stop => exact fun h => hx (congrArg Except.error (Except.error.inj h))
  | ok a => exact hf a

theorem inside_ok (a : α) : Inside (.ok a : Except (Stop ε) α) := by simp [Inside]

theorem inside_require (cond : Prop) [Decidable cond] (error : ε) :
    Inside (require cond error) := by
  by_cases h : cond <;> simp [Inside,require,h]

theorem touch_inside (data : Bytes) (off count : ℕ) (h : off+count ≤ data.length) :
    (touch data off count : Except (Stop ε) Bytes) = .ok ((data.drop off).take count) := by
  induction count generalizing off with
  | zero => simp [touch]
  | succ count ih =>
    have hin : off < data.length := by omega
    rw [touch,getElem?_eq_getElem hin,ih (off+1) (by omega),
      drop_eq_getElem_cons hin,take_succ_cons]
    rfl

theorem inside_bytes (data : Bytes) (off count : ℕ) (error : ε) :
    Inside (readBytes data off count error) := by
  by_cases hs : data.length < off+count
  · simp [Inside,readBytes,hs]
  · rw [readBytes,if_neg hs,touch_inside data off count (by omega)]
    exact inside_ok _

theorem inside_number (width : ℕ) (data : Bytes) (off : ℕ) (error : ε) :
    Inside (readLE width data off error) := by
  have hb := inside_bytes data off width error
  rw [readLE]
  cases hr : readBytes data off width error with
  | error stop =>
    rw [hr] at hb
    exact fun h => hb (congrArg Except.error (Except.error.inj h))
  | ok r => exact inside_ok _

theorem holds_nil (data : Bytes) (offset next : ℕ) (h : offset ≤ data.length) :
    Holds data offset [] next ↔ next = offset := by
  constructor
  · exact fun hh => hh.1
  · rintro rfl
    exact ⟨rfl,by simp,h⟩

theorem holds_append (data : Bytes) (off next : ℕ) (first second : Bytes) :
    Holds data off (first++second) next ↔
      ∃ middle, Holds data off first middle ∧ Holds data middle second next := by
  constructor
  · rintro ⟨hn,ht,hle⟩
    rw [length_append] at hn
    have hl := congrArg length ht
    simp only [length_take,length_append] at hl
    have hf : data.take (off+first.length) = data.take off++first := by
      have htk := congrArg (take (off+first.length)) ht
      have ho : (data.take off++first).length = off+first.length := by
        rw [length_append,length_take]
        omega
      rw [take_take,Nat.min_eq_left (by omega),← append_assoc] at htk
      rw [htk,← ho,take_left]
    refine ⟨off+first.length,⟨rfl,hf,by omega⟩,by omega,?_,hle⟩
    rw [ht,hf,append_assoc]
  · rintro ⟨middle,h1,h2⟩
    refine ⟨?_,?_,h2.2.2⟩
    · rw [h2.1,h1.1,length_append]
      omega
    · rw [h2.2.1,h1.2.1,append_assoc]

theorem holds_whole (data content : Bytes) : Holds data 0 content data.length ↔ data = content := by
  constructor
  · rintro ⟨_,ht,_⟩
    simpa using ht
  · rintro rfl
    exact ⟨by simp,by simp,le_refl _⟩

variable {data content : Bytes} {off next : ℕ}

theorem Holds.drop (h : Holds data off content next) :
    (data.drop off).take content.length = content := by
  have ht := congrArg (List.drop off) h.2.1
  have hle : off ≤ data.length := by
    have := h.1
    have := h.2.2
    omega
  rw [h.1,drop_take,Nat.add_sub_cancel_left] at ht
  rw [ht, drop_append_of_le_length (by simp [hle])]
  simp

theorem holds_span (data : Bytes) (off count : ℕ) (h : off+count ≤ data.length) :
    ∃ content, content.length = count ∧ Holds data off content (off+count) := by
  have hl : ((data.drop off).take count).length = count := by
    rw [length_take,length_drop]
    omega
  exact ⟨_,hl,by rw [hl],take_add,h⟩

theorem read_bytes_iff (data content : Bytes) (off count next : ℕ) (error : ε) :
    readBytes data off count error = .ok (content,next) ↔
      content.length = count ∧ Holds data off content next := by
  constructor
  · intro h
    by_cases hs : data.length < off+count
    · rw [readBytes,if_pos hs] at h
      cases h
    · rw [readBytes,if_neg hs,touch_inside data off count (by omega)] at h
      simp only [Except.map,Except.ok.injEq,Prod.mk.injEq] at h
      have hl : content.length = count := by
        rw [← h.1,length_take,length_drop]
        omega
      refine ⟨hl,by omega,?_,by omega⟩
      rw [← h.2,← h.1,take_add]
  · rintro ⟨rfl,h⟩
    have hr : off+content.length ≤ data.length := h.1 ▸ h.2.2
    rw [readBytes,if_neg (by omega),touch_inside data off _ hr,h.drop,h.1]
    rfl

theorem touch_held (h : Holds data off content next) :
    (touch data off content.length : Except (Stop ε) Bytes) = .ok content := by
  rw [touch_inside data off _ (h.1 ▸ h.2.2),h.drop]

theorem read_held (h : Holds data off content next) (error : ε) :
    readLE content.length data off error = .ok (valueLE content,next) := by
  rw [readLE,(read_bytes_iff data content off _ next error).mpr ⟨rfl,h⟩]
  rfl

theorem read_number_iff (data : Bytes) (width value off next : ℕ) (error : ε) :
    readLE width data off error = .ok (value,next) ↔
      value < 256^width ∧ Holds data off (putLE width value) next := by
  constructor
  · intro h
    rw [readLE] at h
    cases hr : readBytes data off width error with
    | error stop =>
      rw [hr] at h
      cases h
    | ok r =>
      have hh := (read_bytes_iff data r.1 off width r.2 error).mp hr
      rw [hr] at h
      simp only [Except.map,Except.ok.injEq,Prod.mk.injEq] at h
      rw [← h.1,← h.2,← hh.1]
      exact ⟨value_lt r.1,by rw [put_value]; exact hh.2⟩
  · rintro ⟨hv,h⟩
    have hr := read_held h error
    rwa [put_length,value_put width value hv] at hr

/-- The readers as they are compiled: a sum of sizes keeps what a machine word holds. -/
def readBytesIn (word : ℕ) (data : Bytes) (offset count : ℕ) (error : ε) :
    Except (Stop ε) (Bytes×ℕ) :=
  if data.length < (offset+count)%word then .error (.refused error)
  else (touch data offset count).map (·,(offset+count)%word)

def readLEIn (word width : ℕ) (data : Bytes) (offset : ℕ) (error : ε) : Except (Stop ε) (ℕ×ℕ) :=
  (readBytesIn word data offset width error).map (fun r => (valueLE r.1,r.2))

theorem read_bytes_in {word count : ℕ} (h : off+count < word) (error : ε) :
    readBytesIn word data off count error = readBytes data off count error := by
  rw [readBytesIn,readBytes,Nat.mod_eq_of_lt h]

theorem read_number_in {word width : ℕ} (h : off+width < word) (error : ε) :
    readLEIn word width data off error = readLE width data off error := by
  rw [readLEIn,readLE,read_bytes_in h]

end

end Wire
end EMaster
