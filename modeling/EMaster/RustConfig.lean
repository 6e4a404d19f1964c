import EMaster.RustText
import EMaster.SortedMap

/-!
# The configuration store of the Rust crates

The values of an application are written as one flat object and read back by splitting the text
at its commas and colons.
-/

set_option autoImplicit false

namespace EMaster.RustConfig
open RustText
open List hiding replace

inductive Value (F : Type) where
  | string (text : Text)
  | number (x : F)
  | integer (n : I64)
  | boolean (b : Bool)
  deriving DecidableEq

abbrev Values (F : Type) := SortedMap Text (Value F)

/-- Why a text is not read: an error of the reader, or a slice whose end is before its start. -/
inductive Failure where
  | parse (message : Text)
  | panic
  deriving DecidableEq, Repr

def escape (value : Text) : Text :=
  replaceChar '\n' "\\n"
    (replaceChar '"' "\\\"" (replaceChar '\\' "\\\\" value))

def unescape (value : Text) : Text :=
  replace "\\\\" ['\\'] (replace "\\n" ['\n'] (replace "\\\"" ['"'] value))

section Codec

variable {F : Type} (floats : F64 F)

def encodeValue : Value F → Text
  | .string text => '"' :: escape text++['"']
  | .number x => floats.display x
  | .integer n => n.display
  | .boolean b => if b then "true" else "false"

def encodeEntry (entry : Text×Value F) : Text :=
  '"' :: escape entry.1++['"',':']++encodeValue floats entry.2

def encodeJson (values : Values F) : Text :=
  '\x7b' :: [','].intercalate (values.entries.map (encodeEntry floats))++['\x7d']

def decodeValue (raw : Text) : Except Failure (Value F) :=
  if raw.head? = some '"' ∧ raw.getLast? = some '"' then
    if raw.length < 2 then .error .panic
    else .ok (.string (unescape raw.tail.dropLast))
  else if raw = "true" ∨ raw = "false" then .ok (.boolean (raw = "true"))
  else if '.' ∈ raw then
    match floats.parse raw with
    | some x => .ok (.number x)
    | none => .error (.parse raw)
  else
    match I64.parse raw with
    | some n => .ok (.integer n)
    | none => .error (.parse raw)

def decodeKey (key : Text) : Text := trimMatches (fun c => c = '"') (trim key)

def decodeItem (item : Text) : Except Failure (Text×Value F) :=
  match splitOnce ':' item with
  | none => .error (.parse "expected key/value")
  | some (key,raw) =>
    match decodeValue floats (trim raw) with
    | .error failure => .error failure
    | .ok value => .ok (decodeKey key,value)

def decodeItems (result : Values F) : List Text → Except Failure (Values F)
  | [] => .ok result
  | item::rest =>
    match decodeItem floats item with
    | .error failure => .error failure
    | .ok (key,value) => decodeItems (result.insert key value) rest

def decodeJson (input : Text) : Except Failure (Values F) :=
  let trimmed := trim input
  if trimmed.head? ≠ some '\x7b' ∨ trimmed.getLast? ≠ some '\x7d' then
    .error (.parse "expected JSON object")
  else
    let body := trimmed.tail.dropLast
    if trim body = [] then .ok SortedMap.empty
    else decodeItems floats SortedMap.empty (body.splitOn ',')

end Codec

/-! ## Keys and texts that survive -/

def escaped (c : Char) : Text :=
  if c = '\\' then ['\\','\\'] else if c = '"' then ['\\','"'] else
    if c = '\n' then ['\\','n'] else [c]

/-- An `n` after a backslash becomes a line break. -/
def slip : Text → Text
  | '\\' :: 'n' :: rest => '\\' :: '\n' :: slip rest
  | c::rest => c::slip rest
  | [] => []

def PlainKey (key : Text) : Prop := ∀ c ∈ key, c ∉ [',',':','\\','"','\n']

/-- What the writer puts into its text so that the reader finds the same value. -/
def Survives {F : Type} (floats : F64 F) : Value F → Prop
  | .string text => ',' ∉ text ∧ ¬['\\','n'] <:+: text
  | .number x => '.' ∈ floats.display x
  | _ => True

variable (c : Char) (value : Text)

theorem escape_eq : escape value = value.flatMap escaped := by
  simp only [escape,replaceChar,flatMap_assoc]
  apply flatMap_congr
  intro c _
  rw [escaped]
  by_cases hs : c = '\\'
  · subst hs
    rfl
  · by_cases hq : c = '"'
    · subst hq
      rfl
    · by_cases hl : c = '\n'
      · subst hl
        rfl
      · simp [hs,hq,hl]

theorem escape_cons : escape (c::value) = escaped c++escape value := by
  rw [escape_eq,escape_eq,flatMap_cons]

theorem escaped_plain (hs : c ≠ '\\') (hq : c ≠ '"') (hl : c ≠ '\n') : escaped c = [c] := by
  simp [escaped,hs,hq,hl]

theorem escape_plain (h : ∀ c ∈ value, c ∉ ['\\','"','\n']) : escape value = value := by
  induction value with
  | nil => rfl
  | cons c rest ih =>
    have hc := h c mem_cons_self
    simp only [mem_cons,not_mem_nil,or_false,not_or] at hc
    rw [escape_cons,escaped_plain c hc.1 hc.2.1 hc.2.2,ih fun d hd => h d (mem_cons_of_mem c hd)]
    rfl

theorem mem_escape (hs : c ≠ '\\') (hn : c ≠ 'n') (h : c ∈ escape value) : c ∈ value := by
  rw [escape_eq] at h
  obtain ⟨d,hd,hc⟩ := mem_flatMap.mp h
  rw [escaped] at hc
  split_ifs at hc with h1 h2 h3
  · simp [hs] at hc
  · simp only [mem_cons,hs,not_mem_nil,or_false,false_or] at hc
    rwa [hc,← h2]
  · simp [hs,hn] at hc
  · rwa [mem_singleton.mp hc]

theorem count_escape :
    value.count '\\' ≤ (escape value).count '\\' ∧
      ((∃ c ∈ value, c ∈ ['\\','"','\n']) → value.count '\\' < (escape value).count '\\') := by
  induction value with
  | nil => simp
  | cons c rest ih =>
    rw [escape_cons,count_append,count_cons]
    have hc : c ∈ ['\\','"','\n'] →
        (if (c == '\\') = true then 1 else 0) < (escaped c).count '\\' := by
      intro hm
      simp only [mem_cons,not_mem_nil,or_false] at hm
      rcases hm with rfl | rfl | rfl <;> decide
    have hle : (if (c == '\\') = true then 1 else 0) ≤ (escaped c).count '\\' := by
      by_cases hm : c ∈ ['\\','"','\n']
      · exact (hc hm).le
      · have hs : c ≠ '\\' := fun heq => hm (by simp [heq])
        simp [hs]
    refine ⟨by omega,?_⟩
    rintro ⟨d,hd,hm⟩
    rcases mem_cons.mp hd with rfl | hr
    · have := hc hm
      omega
    · have := ih.2 ⟨d,hr,hm⟩
      omega

/-! ## Reading a text back -/

def unquoted (value : Text) : Text := value.flatMap fun c => if c = '"' then ['"'] else escaped c

def unbroken : Text → Text
  | '\\' :: 'n' :: rest => '\\' :: '\n' :: unbroken rest
  | c::rest => (if c = '\\' then ['\\','\\'] else [c])++unbroken rest
  | [] => []

theorem escape_head : (escape value).head? ≠ some '"' := by
  cases value with
  | nil => simp [escape_eq]
  | cons c rest =>
    rw [escape_cons,escaped]
    split_ifs with _ hq
    · simp
    · simp
    · simp
    · simp [hq]

theorem replace_quotes : replace ['\\','"'] ['"'] (escape value) = unquoted value := by
  induction value with
  | nil => rfl
  | cons c rest ih =>
    rw [escape_cons,unquoted,flatMap_cons,← unquoted]
    by_cases hq : c = '"'
    · subst hq
      exact (replace_pair '\\' '"' ['"'] _).trans (congrArg _ ih)
    · rw [if_neg hq,escaped]
      split_ifs with hs hl
      · show replace _ _ ('\\' :: '\\' :: escape rest) = _
        rw [replace_keep _ (fun _ => by simp),replace_keep _ (fun _ => escape_head rest),ih]
        rfl
      · show replace _ _ ('\\' :: 'n' :: escape rest) = _
        rw [replace_keep _ (fun _ => by simp),replace_keep _ (fun heq => by simp at heq),ih]
        rfl
      · show replace _ _ (c::escape rest) = _
        rw [replace_keep _ (fun heq => absurd heq hs),ih]
        rfl

theorem unquoted_cons (rest : Text) :
    unquoted (c::rest) = (if c = '"' then ['"'] else escaped c)++unquoted rest :=
  flatMap_cons

theorem unquoted_head (h : value.head? ≠ some 'n') : (unquoted value).head? ≠ some 'n' := by
  cases value with
  | nil => simp [unquoted]
  | cons c rest =>
    have hc : c ≠ 'n' := fun heq => h (by simp [heq])
    rw [unquoted_cons,escaped]
    split_ifs <;> simp [hc]

theorem replace_breaks : replace ['\\','n'] ['\n'] (unquoted value) = unbroken value := by
  fun_induction unbroken value with
  | case1 rest ih =>
    show replace _ _ ('\\' :: '\\' :: 'n' :: unquoted rest) = _
    rw [replace_keep _ (fun _ => by simp),replace_pair,ih]
    rfl
  | case2 c rest hnt ih =>
    rw [unquoted_cons,escaped]
    split_ifs with hq hs hs hl
    · exact absurd (hq.symm.trans hs) (by decide)
    · subst hq
      exact (replace_keep _ (by simp)).trans (congrArg _ ih)
    · have hh : rest.head? ≠ some 'n' := by
        intro hn
        obtain ⟨after,rfl⟩ := List.head?_eq_some_iff.mp hn
        exact hnt after hs rfl
      show replace _ _ ('\\' :: '\\' :: unquoted rest) = _
      rw [replace_keep _ (fun _ => by simp),replace_keep _ (fun _ => unquoted_head rest hh),ih]
      rfl
    · subst hl
      exact (replace_pair _ _ _ _).trans (congrArg _ ih)
    · exact (replace_keep _ (fun heq => absurd heq hs)).trans (congrArg _ ih)
  | case3 => rfl

theorem replace_slashes : replace ['\\','\\'] ['\\'] (unbroken value) = slip value := by
  fun_induction slip value with
  | case1 rest ih =>
    show replace _ _ ('\\' :: '\n' :: unbroken rest) = _
    rw [replace_keep _ (fun _ => by simp),replace_keep _ (by simp),ih]
  | case2 c rest hn ih =>
    rw [unbroken]
    · split_ifs with hs
      · subst hs
        exact (replace_pair _ _ _ _).trans (congrArg _ ih)
      · exact (replace_keep _ (fun heq => absurd heq hs)).trans (congrArg _ ih)
    · exact hn
  | case3 => rfl

theorem unescape_escape : unescape (escape value) = slip value := by
  show replace ['\\','\\'] ['\\'] (replace ['\\','n'] ['\n']
    (replace ['\\','"'] ['"'] (escape value))) = slip value
  rw [replace_quotes,replace_breaks,replace_slashes]

theorem slip_eq_iff : slip value = value ↔ ¬['\\','n'] <:+: value := by
  fun_induction slip value with
  | case1 rest ih => simp [infix_cons_iff]
  | case2 c rest hn ih =>
    have hh : ¬['\\','n'] <+: c::rest := by
      rintro ⟨after,ha⟩
      obtain ⟨hc,hr⟩ := cons_eq_cons.mp ha
      exact hn after hc.symm hr.symm
    rw [cons_eq_cons,ih,infix_cons_iff]
    simp [hh]
  | case3 => simp

/-! ## Reading values, keys and entries back -/

theorem trim_between {first last : Char} (text : Text) (hf : isWhitespace first = false)
    (hl : isWhitespace last = false) : trim (first::text++[last]) = first::text++[last] := by
  apply trim_matches_none
  · intro c hc
    cases hc
    exact hf
  · intro c hc
    rw [List.getLast?_concat] at hc
    cases hc
    exact hl

theorem trim_quoted (text : Text) : trim ('"' :: text++['"']) = '"' :: text++['"'] :=
  trim_between text (by decide) (by decide)

variable {α : Type}

/-- A mark that always leads to one on a larger element is on none. -/
theorem no_growth {l : List α} {marked : α → Prop} {size : α → ℕ}
    (h : ∀ a ∈ l, marked a → ∃ b ∈ l, marked b ∧ size a < size b) : ∀ a ∈ l, ¬marked a := by
  intro a ha hm
  have hl : ∀ n, ∃ b ∈ l, marked b ∧ n ≤ size b := by
    intro n
    induction n with
    | zero => exact ⟨a,ha,hm,Nat.zero_le _⟩
    | succ n ih =>
      obtain ⟨b,hb,hbm,hn⟩ := ih
      obtain ⟨c,hc,hcm,hls⟩ := h b hb hbm
      exact ⟨c,hc,hcm,by omega⟩
  obtain ⟨b,hb,_,hbg⟩ := hl ((l.map size).sum+1)
  have hle := single_le_sum (fun n _ => Nat.zero_le n) (size b) (mem_map_of_mem hb)
  omega

theorem paired_left {β : Type} {R : α → β → Prop} {l : List α} {u : List β} (h : List.Forall₂ R l u)
    {b : β} (hb : b ∈ u) : ∃ a ∈ l, R a b := by
  induction h with
  | nil => exact absurd hb not_mem_nil
  | cons hf _ ih =>
    rcases mem_cons.mp hb with rfl | hr
    · exact ⟨_,mem_cons_self,hf⟩
    · obtain ⟨a,ha,hab⟩ := ih hr
      exact ⟨a,mem_cons_of_mem _ ha,hab⟩

section Codec

variable {F : Type} (floats : F64 F)

theorem decode_printed (text : Text) (h : ∀ c ∈ text, printed c = true) :
    trim text = text ∧ decodeValue floats text =
      if '.' ∈ text then
        match floats.parse text with
        | some x => .ok (.number x)
        | none => .error (.parse text)
      else
        match I64.parse text with
        | some n => .ok (.integer n)
        | none => .error (.parse text) := by
  constructor
  · apply trim_matches_none
    · exact fun c hc => printed_not_white (h c (mem_of_head? hc))
    · exact fun c hc => printed_not_white (h c (mem_of_getLast? hc))
  · have hq : ¬(text.head? = some '"' ∧ text.getLast? = some '"') := fun he =>
      absurd (h _ (mem_of_head? he.1)) (by decide)
    have ht : text ≠ "true" := fun heq => absurd (h 't' (by simp [heq])) (by decide)
    have hf : text ≠ "false" := fun heq => absurd (h 'l' (by simp [heq])) (by decide)
    rw [decodeValue,if_neg hq,if_neg (not_or.mpr ⟨ht,hf⟩)]

theorem decode_string (text : Text) :
    decodeValue floats ('"' :: escape text++['"']) = .ok (.string (slip text)) := by
  rw [decodeValue,if_pos ⟨rfl,List.getLast?_concat⟩,if_neg (by simp),← unescape_escape]
  simp

theorem printed_integer (n : I64) (c : Char) (h : c ∈ n.display) : printed c = true := by
  rcases display_integer h with hd | rfl
  · simp [printed,hd]
  · decide

/-- A value is read back as it was just when it survives, its commas apart. -/
theorem decode_value_iff (value : Value F) :
    decodeValue floats (trim (encodeValue floats value)) = .ok value ↔
      match value with
      | .string text => ¬['\\','n'] <:+: text
      | .number x => '.' ∈ floats.display x
      | _ => True := by
  cases value with
  | string text =>
    rw [encodeValue,trim_quoted,decode_string]
    simp [slip_eq_iff]
  | number x =>
    obtain ⟨ht,hd⟩ := decode_printed _ _ (floats.display_printed x)
    rw [encodeValue,ht,hd]
    by_cases hp : '.' ∈ floats.display x
    · rw [if_pos hp,floats.parse_display x hp]
      exact iff_of_true rfl hp
    · rw [if_neg hp]
      refine iff_of_false ?_ hp
      cases I64.parse (floats.display x) <;> simp
  | integer n =>
    obtain ⟨ht,hd⟩ := decode_printed _ _ (printed_integer n)
    have hp : '.' ∉ n.display := fun hmm => by
      rcases display_integer hmm with hdg | hm
      · exact absurd hdg (by decide)
      · exact absurd hm (by decide)
    rw [encodeValue,ht,hd,if_neg hp,display_parse]
    simp
  | boolean b =>
    cases b <;> exact iff_of_true rfl trivial

theorem decode_key (key : Text) :
    (decodeKey ('"' :: escape key++['"'])).count '\\' = (escape key).count '\\' ∧
      ((∀ c ∈ key, c ∉ ['\\','"','\n']) → decodeKey ('"' :: escape key++['"']) = key) := by
  rw [decodeKey,trim_quoted]
  constructor
  · rw [count_trim_matches _ _ _ (by decide)]
    simp [count_append]
  · intro hp
    rw [escape_plain key hp]
    apply trim_matches_ends
    · rfl
    · rfl
    · intro c hc
      have hq := hp c hc
      simp only [mem_cons,not_or] at hq
      simp [hq.2.1]

variable (entry : Text×Value F) (values : Values F)

theorem decode_entry (h : ':' ∉ entry.1) :
    decodeItem floats (encodeEntry floats entry) =
      match decodeValue floats (trim (encodeValue floats entry.2)) with
      | .error failure => .error failure
      | .ok value => .ok (decodeKey ('"' :: escape entry.1++['"']),value) := by
  have hs : encodeEntry floats entry =
      ('"' :: escape entry.1++['"'])++ ':' :: encodeValue floats entry.2 := by
    simp [encodeEntry]
  have hc : ':' ∉ '"' :: escape entry.1++['"'] := by
    intro hm
    simp only [cons_append,mem_cons,mem_append,not_mem_nil,or_false] at hm
    rcases hm with hq | he | hq
    · exact absurd hq (by decide)
    · exact h (mem_escape ':' _ (by decide) (by decide) he)
    · exact absurd hq (by decide)
  rw [decodeItem,hs,split_once_append _ hc]

theorem decode_items_iff (items : List Text) (result vs : Values F) :
    decodeItems floats result items = .ok vs ↔
      ∃ decoded, List.Forall₂ (fun item entry => decodeItem floats item = .ok entry) items decoded ∧
        vs = decoded.foldl (fun m entry => m.insert entry.1 entry.2) result := by
  induction items generalizing result with
  | nil => simp [decodeItems,eq_comm]
  | cons item rest ih =>
    rw [decodeItems]
    cases hi : decodeItem floats item with
    | error failure =>
      refine iff_of_false (by simp) ?_
      rintro ⟨decoded,ha,_⟩
      cases ha with
      | cons hf _ => simp [hi] at hf
    | ok entry =>
      dsimp only
      rw [ih]
      constructor
      · rintro ⟨decoded,ha,hv⟩
        exact ⟨entry::decoded,.cons hi ha,hv⟩
      · rintro ⟨decoded,ha,hv⟩
        cases ha with
        | cons hf hr =>
          obtain rfl := Except.ok.inj (hi.symm.trans hf)
          exact ⟨_,hr,hv⟩

def Piece (entry : Text×Value F) : Prop :=
  ',' ∉ entry.1 ∧ ':' ∉ entry.1 ∧ ∀ text, entry.2 = .string text → ',' ∉ text

variable {text : Text}

theorem unescape_comma (h : ',' ∉ text) : ',' ∉ unescape text := by
  intro hm
  rcases mem_replace _ _ _ _ hm with hn | hm
  · exact absurd hn (by decide)
  rcases mem_replace _ _ _ _ hm with hn | hm
  · exact absurd hn (by decide)
  rcases mem_replace _ _ _ _ hm with hn | hm
  · exact absurd hn (by decide)
  · exact h hm

theorem decode_value_comma {raw : Text} (h : ',' ∉ raw)
    (hd : decodeValue floats raw = .ok (.string text)) : ',' ∉ text := by
  rw [decodeValue] at hd
  split_ifs at hd
  · cases hd
    refine unescape_comma fun hm => h ?_
    exact mem_of_mem_tail (mem_of_mem_dropLast hm)
  · cases hd
  · split at hd <;> cases hd
  · split at hd <;> cases hd

theorem decode_item_piece {item : Text} {entry : Text×Value F} (h : ',' ∉ item)
    (hd : decodeItem floats item = .ok entry) : Piece entry := by
  rw [decodeItem] at hd
  cases hs : splitOnce ':' item with
  | none => simp [hs] at hd
  | some parts =>
    obtain ⟨key,raw⟩ := parts
    obtain ⟨hcl,hk,hr⟩ := split_once_some hs
    rw [hs] at hd
    dsimp only at hd
    have hf : ∀ c ∈ decodeKey key, c ∈ key := fun c hc =>
      mem_trim_matches (mem_trim_matches hc)
    cases hv : decodeValue floats (trim raw) with
    | error failure => simp [hv] at hd
    | ok value =>
      rw [hv] at hd
      cases hd
      refine ⟨fun hc => h (hk _ (hf _ hc)),fun hc => hcl (hf _ hc),?_⟩
      rintro text rfl
      refine decode_value_comma _ (fun hc => h ?_) hv
      exact hr _ (mem_trim_matches hc)

theorem entry_comma (h : Piece entry) : ',' ∉ encodeEntry floats entry := by
  have he : ∀ text, ',' ∉ text → ',' ∉ escape text := fun text hn hm =>
    hn (mem_escape ',' text (by decide) (by decide) hm)
  have hv : ',' ∉ encodeValue floats entry.2 := by
    cases hen : entry.2 with
    | string text =>
      have ht := he text (h.2.2 text hen)
      simp [encodeValue,ht]
    | number x => exact fun hm => absurd (floats.display_printed x _ hm) (by decide)
    | integer n => exact fun hm => absurd (printed_integer n _ hm) (by decide)
    | boolean b => cases b <;> simp [encodeValue]
  have hk := he entry.1 h.1
  simp [encodeEntry,hk,hv]

theorem decode_encoded (hne : values.entries ≠ []) :
    decodeJson floats (encodeJson floats values) = decodeItems floats SortedMap.empty
      (([','].intercalate (values.entries.map (encodeEntry floats))).splitOn ',') := by
  have hb : trim ([','].intercalate (values.entries.map (encodeEntry floats))) ≠ [] := by
    intro hem
    have hc := count_trim_matches isWhitespace '"'
      ([','].intercalate (values.entries.map (encodeEntry floats))) (by decide)
    rw [← trim,hem] at hc
    cases he : values.entries with
    | nil => exact hne he
    | cons en rest =>
      rw [he] at hc
      cases rest <;> simp [List.intercalate,encodeEntry] at hc
  rw [decodeJson,encodeJson,trim_between _ (by decide) (by decide)]
  dsimp only
  rw [if_neg (by rw [List.getLast?_concat]; simp), cons_append, tail_cons, dropLast_concat, if_neg hb]

variable {entry}

theorem decode_entry_ok {found : Text×Value F} (hc : ':' ∉ entry.1)
    (h : decodeItem floats (encodeEntry floats entry) = .ok found) :
    found.1 = decodeKey ('"' :: escape entry.1++['"']) ∧
      decodeValue floats (trim (encodeValue floats entry.2)) = .ok found.2 := by
  rw [decode_entry _ entry hc] at h
  cases hv : decodeValue floats (trim (encodeValue floats entry.2)) with
  | error failure => simp [hv] at h
  | ok value =>
    rw [hv] at h
    cases h
    exact ⟨rfl,rfl⟩

theorem plain_decoded {key : Text} (h : PlainKey key) :
    decodeKey ('"' :: escape key++['"']) = key := by
  apply (decode_key key).2
  intro c hc hm
  exact h c hc (mem_cons_of_mem _ (mem_cons_of_mem _ hm))

/-- The keys that are read are keys of the map, so none of them has a backslash too many. -/
theorem keys_plain {keys : List Text} (hp : ∀ key ∈ keys, ',' ∉ key ∧ ':' ∉ key)
    (h : ∀ key ∈ keys, decodeKey ('"' :: escape key++['"']) ∈ keys) :
    ∀ key ∈ keys, PlainKey key := by
  have hn := no_growth fun key hk hma => by
      have hmr := (count_escape key).2 hma
      rw [← (decode_key key).1] at hmr
      have hs : '\\' ∈ decodeKey ('"' :: escape key++['"']) :=
        count_pos_iff.mp (Nat.zero_lt_of_lt hmr)
      exact ⟨_,h key hk,⟨'\\',hs,by decide⟩,hmr⟩
  intro key hk c hc hm
  rcases mem_cons.mp hm with rfl | hm
  · exact (hp key hk).1 hc
  rcases mem_cons.mp hm with rfl | hm
  · exact (hp key hk).2 hc
  · exact hn key hk ⟨c,hc,hm⟩

theorem survives_iff (h : Piece entry) :
    Survives floats entry.2 ↔
      decodeValue floats (trim (encodeValue floats entry.2)) = .ok entry.2 := by
  rw [decode_value_iff]
  cases hv : entry.2 with
  | string text => exact and_iff_right (h.2.2 text hv)
  | number x => rfl
  | integer n => rfl
  | boolean b => rfl

theorem forall_pieces (h : ∀ entry ∈ values.entries, Piece entry) (hne : values.entries ≠ []) :
    ([','].intercalate (values.entries.map (encodeEntry floats))).splitOn ',' =
      values.entries.map (encodeEntry floats) := by
  apply splitOn_intercalate
  · intro item hi
    obtain ⟨entry,he,rfl⟩ := mem_map.mp hi
    exact entry_comma _ entry (h entry he)
  · exact fun hn => hne (map_eq_nil_iff.mp hn)

theorem round_trip_survives (hne : values.entries ≠ [])
    (h : decodeJson floats (encodeJson floats values) = .ok values) :
    ∀ entry ∈ values.entries, PlainKey entry.1 ∧ Survives floats entry.2 := by
  rw [decode_encoded floats values hne,decode_items_iff] at h
  obtain ⟨decoded,ha,hv⟩ := h
  have hp : ∀ entry ∈ values.entries, Piece entry := by
    intro entry he
    have hfr := SortedMap.mem_insert_all _ _ entry (hv ▸ he)
    obtain ⟨item,hi,hd⟩ := paired_left ha (hfr.resolve_left not_mem_nil)
    exact decode_item_piece floats (mem_split ',' _ item hi) hd
  rw [forall_pieces _ _ hp hne,forall₂_map_left_iff] at ha
  have hf := ((forall₂_and_left _ _).mpr ⟨hp,ha⟩).imp fun entry found hb =>
    decode_entry_ok _ hb.1.2.1 hb.2
  have hpn : ∀ key ∈ values.keys, PlainKey key := by
    apply keys_plain
    · intro key hk
      obtain ⟨entry,he,rfl⟩ := mem_map.mp hk
      exact ⟨(hp entry he).1,(hp entry he).2.1⟩
    · intro key hk
      obtain ⟨entry,he,rfl⟩ := mem_map.mp hk
      obtain ⟨found,hm,hr⟩ := paired_left hf.flip he
      rw [← hr.1,hv,SortedMap.insert_all_keys]
      exact .inr (mem_map_of_mem hm)
  have hpl : ∀ entry ∈ values.entries, PlainKey entry.1 := fun entry he =>
    hpn entry.1 (mem_map_of_mem he)
  have hsm : values.entries.map Prod.fst = decoded.map Prod.fst := by
    rw [← forall₂_eq_eq_eq,forall₂_map_left_iff,forall₂_map_right_iff]
    refine ((forall₂_and_left _ _).mpr ⟨hpl,hf⟩).imp fun entry found hb => ?_
    exact (hb.2.1.trans (plain_decoded hb.1)).symm
  have hen : values.entries = decoded := by
    have hs := SortedMap.insert_sorted SortedMap.empty decoded (hsm ▸ values.sorted)
    rwa [← hv] at hs
  rw [← hen,forall₂_same] at hf
  exact fun entry he => ⟨hpl entry he,(survives_iff _ (hp entry he)).mpr (hf entry he).2⟩

/-- The values of an application are read back as they were written just when no key has a comma,
a colon, a backslash, a quote or a line break, no text has a comma or an `n` after a backslash,
and every number is printed with a decimal point. -/
theorem json_round_trip_iff :
    decodeJson floats (encodeJson floats values) = .ok values ↔
      ∀ entry ∈ values.entries, PlainKey entry.1 ∧ Survives floats entry.2 := by
  by_cases hne : values.entries = []
  · obtain rfl : values = SortedMap.empty := SortedMap.ext _ _ hne
    exact iff_of_true rfl fun _ hn => absurd hn not_mem_nil
  refine ⟨round_trip_survives _ _ hne,fun h => ?_⟩
  have hp : ∀ entry ∈ values.entries, Piece entry := by
    intro entry he
    obtain ⟨hpl,hs⟩ := h entry he
    refine ⟨fun hc => hpl _ hc (by decide),fun hc => hpl _ hc (by decide),?_⟩
    intro text ht
    rw [ht] at hs
    exact hs.1
  rw [decode_encoded floats values hne,decode_items_iff,forall_pieces _ _ hp hne]
  refine ⟨values.entries,?_,?_⟩
  · rw [forall₂_map_left_iff,forall₂_same]
    intro entry he
    rw [decode_entry _ entry (hp entry he).2.1,
      (survives_iff _ (hp entry he)).mp (h entry he).2,
      plain_decoded (h entry he).1]
  · apply SortedMap.ext
    exact (SortedMap.insert_sorted SortedMap.empty values.entries values.sorted).symm

end Codec

/-! ## Values that change on the way -/

inductive Ratio where
  | half
  | whole
  deriving DecidableEq

def ratios : F64 Ratio where
  display
    | .half => ['0','.','5']
    | .whole => ['1']
  parse text := if text = ['0','.','5'] then some .half else none
  display_printed x := by cases x <;> simp [printed]
  parse_display x := by cases x <;> decide

def saved (key : String) (value : Value Ratio) : Values Ratio :=
  SortedMap.empty.insert key.toList value

/-- A text with a comma is not read at all, an `n` after a backslash becomes a line break, and the
number 1.0 becomes an integer. -/
theorem saved_values_change :
    decodeJson ratios (encodeJson ratios (saved "title" (.string "a,b"))) =
        .error (.parse "\"a") ∧
      decodeJson ratios (encodeJson ratios (saved "path" (.string "C:\\new"))) =
        .ok (saved "path" (.string "C:\\\new")) ∧
      decodeJson ratios (encodeJson ratios (saved "ratio" (.number .whole))) =
        .ok (saved "ratio" (.integer ⟨1,by decide,by decide⟩)) := by
  decide +kernel

end EMaster.RustConfig
