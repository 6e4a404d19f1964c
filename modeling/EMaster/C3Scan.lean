import EMaster.C3Records

/-!
# The pairs found in a reply

The scanner never goes back. It finds what a search for the leftmost match of its pattern finds,
because a run of word characters with no pair after it holds no match either.
-/

set_option autoImplicit false

namespace EMaster.C3
open List

/-- The pattern matches where the text begins, with each part as long as possible. -/
structure Match (text key value rest : Bytes) : Prop where
  split : text = key++0x3D::(value++rest)
  key : key ≠ [] ∧ ∀ c ∈ key, wordChar c = true
  value : value ≠ [] ∧ ∀ c ∈ value, inValue c = true
  longest : ∀ c ∈ rest.head?, inValue c = false

def NoMatchBefore (n : ℕ) (text : Bytes) : Prop :=
  ∀ i < n, ∀ key value rest, ¬Match (text.drop i) key value rest

/-- The successive matches of the pattern, each the leftmost one after the match before it. -/
inductive Finds : Bytes → List (Bytes×Bytes) → Prop where
  | none {text} (h : ∀ n, NoMatchBefore n text) : Finds text []
  | next {text key value rest pairs} (n : ℕ) (leftmost : NoMatchBefore n text)
    (h : Match (text.drop n) key value rest) (hr : Finds rest pairs) :
    Finds text ((key,value)::pairs)

theorem run_unique {p : UInt8 → Bool} {a b x y : Bytes} {c d : UInt8} (ha : ∀ u ∈ a, p u = true)
    (hb : ∀ u ∈ b, p u = true) (hc : p c = false) (hd : p d = false) (h : a++c::x = b++d::y) :
    a = b ∧ c = d ∧ x = y := by
  have ht := congrArg (takeWhile p) h
  rw [takeWhile_append_of_pos ha,takeWhile_append_of_pos hb,takeWhile_cons_of_neg (by simp [hc]),
    takeWhile_cons_of_neg (by simp [hd]),append_nil,append_nil] at ht
  subst ht
  simpa using h

theorem match_inside {run after : Bytes} {c : UInt8} (hr : ∀ u ∈ run, wordChar u = true)
    (hc : wordChar c = false) {i : ℕ} (hi : i ≤ run.length) {key value rest : Bytes}
    (h : Match ((run++c::after).drop i) key value rest) :
    run ≠ [] ∧ c = 0x3D ∧ after = value++rest := by
  have hs := h.split
  rw [drop_append_of_le_length hi] at hs
  obtain ⟨hk,he,ha⟩ := run_unique (fun u hu => hr u (mem_of_mem_drop hu)) h.key.2 hc (by decide) hs
  refine ⟨?_,he,ha⟩
  rintro rfl
  exact h.key.1 (by simpa using hk.symm)

theorem Finds.skip {skipped text : Bytes} {pairs : List (Bytes×Bytes)} (h : Finds text pairs)
    (hn : NoMatchBefore skipped.length (skipped++text)) : Finds (skipped++text) pairs := by
  have hd (i : ℕ) : (skipped++text).drop (skipped.length+i) = text.drop i := by simp
  have ha {n : ℕ} (h : NoMatchBefore n text) :
      NoMatchBefore (skipped.length+n) (skipped++text) := by
    intro i hi
    by_cases hl : i < skipped.length
    · exact hn i hl
    · have := h (i-skipped.length) (by omega)
      rwa [← hd,Nat.add_sub_of_le (not_lt.mp hl)] at this
  cases h with
  | none h => exact .none fun n i hi => ha (h n) i (Nat.lt_add_left _ hi)
  | next n hl h hr => exact .next (skipped.length+n) (ha hl) (by rwa [hd]) hr

section
variable {data after : Bytes} {c : UInt8}

theorem parse_end (h : data.dropWhile wordChar = []) : parseKeyValuePairs data = [] := by
  rw [parseKeyValuePairs]
  split
  · rfl
  · simp_all

theorem parse_step (h : data.dropWhile wordChar = c::after) : parseKeyValuePairs data =
    if data.takeWhile wordChar = [] ∨ c ≠ 0x3D then parseKeyValuePairs after
    else if after.takeWhile inValue = [] then parseKeyValuePairs (after.dropWhile inValue)
    else (data.takeWhile wordChar,after.takeWhile inValue)::
      parseKeyValuePairs (after.dropWhile inValue) := by
  rw [parseKeyValuePairs]
  split
  · simp_all
  · rename_i he
    obtain ⟨rfl,rfl⟩ := cons.inj (he.symm.trans h)
    rfl

end

theorem finds_parsed (data : Bytes) : Finds data (parseKeyValuePairs data) := by
  induction hn : data.length using Nat.strong_induction_on generalizing data with
  | _ n ih =>
  subst hn
  have hw : ∀ u ∈ data.takeWhile wordChar, wordChar u = true := fun u hu => mem_takeWhile_imp hu
  have hs := takeWhile_append_dropWhile (p := wordChar) (l := data)
  cases hd : data.dropWhile wordChar with
  | nil =>
    rw [hd,append_nil] at hs
    rw [parse_end hd]
    refine .none fun _ i _ key value rest hm => ?_
    have he : (0x3D : UInt8) ∈ data.drop i := by
      rw [hm.split]
      simp
    rw [← hs] at he
    exact absurd (hw _ (mem_of_mem_drop he)) (by decide)
  | cons c after =>
    rw [hd] at hs
    rw [parse_step hd]
    have hc : wordChar c = false := by simpa [hd] using head?_dropWhile_not wordChar data
    have hl : after.length < data.length := by
      rw [← hs,length_append,length_cons]
      omega
    have hsk {pairs : List (Bytes×Bytes)} (h : Finds after pairs)
        (hn : data.takeWhile wordChar ≠ [] → c = 0x3D → after.takeWhile inValue = []) :
        Finds data pairs := by
      rw [← hs,append_cons]
      refine h.skip fun i hi key value rest hm => ?_
      rw [← append_cons] at hm
      rw [length_append] at hi
      obtain ⟨hr,he,ha⟩ := match_inside hw hc (Nat.le_of_lt_succ hi) hm
      have := hn hr he
      rw [ha,takeWhile_append_of_pos hm.value.2,append_eq_nil_iff] at this
      exact hm.value.1 this.1
    have ht := takeWhile_append_dropWhile (p := inValue) (l := after)
    have hd := drop_while_length inValue after
    split_ifs with hk hv
    · exact hsk (ih _ hl after rfl) fun hr he => absurd hk (by simp [hr,he])
    · rw [hv,nil_append] at ht
      rw [ht]
      exact hsk (ih _ hl after rfl) fun _ _ => hv
    · rw [not_or,not_not] at hk
      refine .next 0 (fun i hi => absurd hi (Nat.not_lt_zero i))
        ⟨?_,⟨hk.1,hw⟩,⟨hv,fun u hu => mem_takeWhile_imp hu⟩,?_⟩ (ih _ (hd.trans_lt hl) _ rfl)
      · rw [ht,drop_zero,← hk.2,hs]
      · intro u hu
        simpa [Option.mem_def.mp hu] using head?_dropWhile_not inValue after

theorem Match.takes {text key value rest : Bytes} (h : Match text key value rest) :
    (value++rest).takeWhile inValue = value := by
  rw [takeWhile_append_of_pos h.value.2,append_right_eq_self]
  cases rest with
  | nil => rfl
  | cons c rest => exact takeWhile_cons_of_neg (by simp [h.longest c rfl])

theorem finds_unique {text : Bytes} {pairs other : List (Bytes×Bytes)} (h : Finds text pairs)
    (h' : Finds text other) : pairs = other := by
  induction h generalizing other with
  | none h =>
    cases h' with
    | none => rfl
    | next n _ hm => exact absurd hm (h (n+1) n n.lt_succ_self _ _ _)
  | @next _ _ value _ _ n hl hm _ ih =>
    cases h' with
    | none h => exact absurd hm (h (n+1) n n.lt_succ_self _ _ _)
    | @next _ _ value' _ _ n' hl' hm' hr' =>
      obtain rfl : n = n' := le_antisymm (not_lt.mp fun h => hl n' h _ _ _ hm')
        (not_lt.mp fun h => hl' n h _ _ _ hm)
      obtain ⟨rfl,_,hv⟩ := run_unique hm.key.2 hm'.key.2 (by decide) (by decide)
        (hm.split.symm.trans hm'.split)
      obtain rfl : value = value' := by rw [← hm.takes,hv,hm'.takes]
      obtain rfl := append_cancel_left hv
      rw [ih hr']

/-- The end of the run of such bytes from `i` on. -/
def runFrom (p : UInt8 → Bool) (data : Bytes) (i : ℕ) : ℕ :=
  if h : i < data.length then if p data[i] then runFrom p data (i+1) else i else i
termination_by data.length-i

theorem run_from_eq (p : UInt8 → Bool) (data : Bytes) (i : ℕ) :
    runFrom p data i = i+((data.drop i).takeWhile p).length := by
  induction hn : data.length-i generalizing i with
  | zero =>
    rw [runFrom,dif_neg (by omega),drop_of_length_le (by omega)]
    rfl
  | succ n ih =>
    have hi : i < data.length := by omega
    rw [runFrom,dif_pos hi,drop_eq_getElem_cons hi,takeWhile_cons]
    split_ifs
    · rw [ih (i+1) (by omega),length_cons]
      omega
    · rfl

/-- The loop of the source over the positions of the buffer. A read needs a proof that its position
is inside. -/
def scan (data : Bytes) (i : ℕ) : List (Bytes×Bytes) :=
  if i < data.length then
    let k := runFrom wordChar data i
    if h : k = i ∨ data.length ≤ k then scan data (k+1)
    else if data.get ⟨k,not_le.mp (not_or.mp h).2⟩ ≠ 0x3D then scan data (k+1)
    else
      let v := runFrom inValue data (k+1)
      if v = k+1 then scan data v
      else ((data.drop i).take (k-i),(data.drop (k+1)).take (v-(k+1)))::scan data v
  else []
termination_by data.length-i
decreasing_by
  all_goals
    simp only [run_from_eq]
    omega

theorem drop_run (p : UInt8 → Bool) (l : Bytes) : l.drop (l.takeWhile p).length = l.dropWhile p := by
  conv_lhs => rw [← takeWhile_append_dropWhile (p := p) (l := l)]
  exact drop_left' (by rw [takeWhile_append_dropWhile])

theorem take_run (p : UInt8 → Bool) (l : Bytes) : l.take (l.takeWhile p).length = l.takeWhile p :=
  (prefix_iff_eq_take.mp ( takeWhile_prefix p)).symm

theorem scan_eq (data : Bytes) (i : ℕ) : scan data i = parseKeyValuePairs (data.drop i) := by
  induction hn : data.length-i using Nat.strong_induction_on generalizing i with
  | _ n ih =>
  subst hn
  rw [scan]
  split_ifs with hi
  · have hd := drop_run wordChar (data.drop i)
    rw [drop_drop] at hd
    simp only [run_from_eq]
    cases he : (data.drop i).dropWhile wordChar with
    | nil =>
      rw [he,drop_eq_nil_iff] at hd
      rw [dif_pos (.inr hd),ih _ (by omega) _ rfl,parse_end he,drop_of_length_le (by omega),
        parse_end rfl]
    | cons c after =>
      rw [he] at hd
      have hl : i+((data.drop i).takeWhile wordChar).length < data.length := by
        rw [← not_le,← drop_eq_nil_iff,hd]
        exact cons_ne_nil _ _
      obtain ⟨hc,ha⟩ := cons.inj ((drop_eq_getElem_cons hl).symm.trans hd)
      simp only [get_eq_getElem,hc,ha,Nat.add_sub_cancel_left,take_run,Nat.add_eq_left,
        length_eq_zero_iff,or_iff_left hl.not_ge,dite_eq_ite]
      rw [ih _ (by omega) _ rfl,ih _ (by omega) _ rfl,ha,← drop_drop,ha,drop_run,parse_step he]
      split_ifs <;> simp_all
  · rw [drop_of_length_le (not_lt.mp hi),parse_end rfl]

theorem pairs_exact (data : Bytes) (pairs : List (Bytes×Bytes)) :
    scan data 0 = pairs ↔ Finds data pairs := by
  rw [scan_eq,drop_zero]
  exact ⟨fun h => h ▸ finds_parsed data,finds_unique (finds_parsed data)⟩

end EMaster.C3
