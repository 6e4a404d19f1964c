import Mathlib

/-!
# Rows found by name

Rows are looked up in a list and the first match is changed, or a new row is put at the
end. A row may hold a value that was read elsewhere. It is backed if what is known of the
last reading under its name fits the row as it is now.
-/

set_option autoImplicit false

namespace EMaster.NamedRows
open List Function

variable {Row Name Origin : Type*}

def amend (sought : Row → Bool) (f : Row → Row) : List Row → List Row
  | [] => []
  | row::rows => if sought row then f row::rows else row::amend sought f rows

/-- The first row that is sought is changed; if there is none, a new row follows the
others. -/
def upsert (sought : Row → Bool) (f : Row → Row) (new : Row) : List Row → List Row
  | [] => [new]
  | row::rows => if sought row then f row::rows else row::upsert sought f new rows

def change (sought : Row → Bool) (f : Row → Row) (row : Row) : Row :=
  if sought row then f row else row

theorem change_none {sought : Row → Bool} (f : Row → Row) {rows : List Row}
    (h : ∀ row ∈ rows, sought row = false) : rows.map (change sought f) = rows := by
  conv_rhs => rw [← map_id rows]
  apply map_congr_left
  intro row hr
  simp [change,h row hr]

theorem upsert_amend (sought : Row → Bool) (f : Row → Row) (new : Row) (rows : List Row) :
    upsert sought f new rows = if rows.any sought then amend sought f rows else rows++[new] := by
  induction rows with
  | nil => rfl
  | cons row rows ih =>
    rw [upsert,amend,ih]
    by_cases hr : sought row = true
    · simp [hr]
    · simp only [hr,any_cons,Bool.false_or,if_false,Bool.false_eq_true]
      split_ifs <;> rfl

section Names
variable (name : Row → Name) (sought : Row → Bool) (f : Row → Row) (n : Name) (rows : List Row)

theorem sought_once {row : Row} {rows : List Row}
    (hs : ∀ row, sought row = true → name row = n) (hn : ((row::rows).map name).Nodup)
    (hr : sought row = true) :
    ∀ other ∈ rows, sought other = false := by
  intro other ho
  by_contra h
  rw [Bool.not_eq_false] at h
  rw [map_cons,nodup_cons] at hn
  apply hn.1
  rw [hs row hr,← hs other h]
  exact mem_map_of_mem ho

theorem amend_map (hs : ∀ row, sought row = true → name row = n)
    (hn : (rows.map name).Nodup) :
    amend sought f rows = rows.map (change sought f) := by
  induction rows with
  | nil => rfl
  | cons row rows ih =>
    rw [amend,map_cons]
    by_cases hr : sought row = true
    · rw [if_pos hr,change,if_pos hr,change_none f (sought_once name sought n hs hn hr)]
    · rw [if_neg hr,change,if_neg hr,ih (nodup_cons.mp hn).2]

theorem change_names (hf : ∀ row, sought row = true → name (f row) = name row) :
    (rows.map (change sought f)).map name = rows.map name := by
  rw [map_map]
  apply map_congr_left
  intro row _
  rw [comp,change]
  split_ifs with hs
  · exact hf row hs
  · rfl

theorem amend_nodup (hs : ∀ row, sought row = true → name row = n)
    (hf : ∀ row, sought row = true → name (f row) = name row) (hn : (rows.map name).Nodup) :
    ((amend sought f rows).map name).Nodup := by
  rw [amend_map name sought f n rows hs hn,change_names name sought f rows hf]
  exact hn

theorem upsert_nodup [DecidableEq Name] (f : Row → Row) (new : Row) (rows : List Row)
    (hf : ∀ row, name row = name new → name (f row) = name row)
    (hnd : (rows.map name).Nodup) :
    ((upsert (fun row => name row = name new) f new rows).map name).Nodup := by
  rw [upsert_amend]
  split_ifs with ha
  · exact amend_nodup name _ f (name new) rows (by simp) (by simpa using hf) hnd
  · have hnw : ∀ row ∈ rows, name row ≠ name new := by simpa using ha
    rw [map_append,nodup_append]
    refine ⟨hnd,by simp,?_⟩
    intro n hn o ho
    obtain ⟨row,hr,rfl⟩ := mem_map.mp hn
    simp only [map_cons,map_nil,mem_singleton] at ho
    rw [ho]
    exact hnw row hr

theorem upsert_present [DecidableEq Name] (f : Row → Row) {new row : Row} {rows : List Row}
    (hn : (rows.map name).Nodup) (hr : row ∈ rows) (hnm : name row = name new) :
    upsert (fun other => name other = name new) f new rows =
      rows.map (change (fun other => name other = name new) f) := by
  have ha : rows.any (fun other => decide (name other = name new)) = true :=
    any_eq_true.mpr ⟨row,hr,decide_eq_true hnm⟩
  rw [upsert_amend,if_pos ha,amend_map name _ f (name new) rows (by simp) hn]

theorem upsert_found [DecidableEq Name] (f : Row → Row) (new row : Row) (rows : List Row)
    (hnd : (rows.map name).Nodup) (hr : row ∈ rows) (hnm : name row = name new)
    (hf : ∀ row, name row = name new → name (f row) = name row) (found : Row) :
    found ∈ upsert (fun other => name other = name new) f new rows ∧ name found = name new ↔
      found = f row := by
  rw [upsert_present name f hnd hr hnm]
  constructor
  · rintro ⟨hfn,hn⟩
    obtain ⟨other,ho,rfl⟩ := mem_map.mp hfn
    by_cases hs : name other = name new
    · have hsm : other = row := inj_on_of_nodup_map hnd ho hr (hs.trans hnm.symm)
      simp [change,hsm,hnm]
    · simp [change,hs] at hn
  · rintro rfl
    refine ⟨mem_map.mpr ⟨row,hr,by simp [change,hnm]⟩,?_⟩
    rw [hf row hnm,hnm]

end Names

section Backing
variable (name : Row → Name) (valid : Row → Bool) (Fits : Row → Origin → Prop)

/-- A valid row holds what was last read under its name, and that fits the row. -/
def Backed (reads : Name → Option Origin) (rows : List Row) : Prop :=
  ∀ row ∈ rows, valid row = true → ∃ origin, reads (name row) = some origin ∧ Fits row origin

variable {name valid Fits} {reads : Name → Option Origin} {rows : List Row}

theorem backed_sub {kept : List Row} (h : Backed name valid Fits reads rows)
    (hk : ∀ row ∈ kept, row ∈ rows) : Backed name valid Fits reads kept :=
  fun row hr hv => h row (hk row hr) hv

/-- A change that makes no row valid, and after which the last reading still fits. -/
theorem backed_change {sought : Row → Bool} {f : Row → Row}
    (h : Backed name valid Fits reads rows)
    (hn : ∀ row, sought row = true → name (f row) = name row)
    (hf : ∀ row, sought row = true → valid (f row) = true →
      valid row = true ∧ ∀ origin, reads (name row) = some origin → Fits row origin →
        Fits (f row) origin) :
    Backed name valid Fits reads (rows.map (change sought f)) := by
  intro row hr hv
  obtain ⟨old,hold,rfl⟩ := mem_map.mp hr
  rw [change] at hv ⊢
  split_ifs at hv ⊢ with hs
  · obtain ⟨hw,hft⟩ := hf old hs hv
    obtain ⟨origin,ho,hol⟩ := h old hold hw
    exact ⟨origin,by rw [hn old hs]; exact ho,hft origin ho hol⟩
  · exact h old hold hv

theorem backed_upsert [DecidableEq Name] (f : Row → Row) (new : Row)
    (hn : (rows.map name).Nodup)
    (h : Backed name valid Fits reads rows)
    (hnm : ∀ row, name row = name new → name (f row) = name row)
    (hf : ∀ row, valid (f row) = true →
      valid row = true ∧ ∀ origin, Fits row origin → Fits (f row) origin)
    (hnw : valid new = false) :
    Backed name valid Fits reads (upsert (fun row => name row = name new) f new rows) := by
  rw [upsert_amend]
  split_ifs
  · rw [amend_map name _ f (name new) rows (by simp) hn]
    refine backed_change h (by simpa using hnm) ?_
    intro row _ hv
    exact ⟨(hf row hv).1,fun origin _ => (hf row hv).2 origin⟩
  · intro row hr hv
    rcases mem_append.mp hr with hold | hl
    · exact h row hold hv
    · rw [mem_singleton.mp hl,hnw] at hv
      cases hv

theorem backed_declare [DecidableEq Name] (f : Row → Row) (new : Row) (origin : Origin)
    (hnd : (rows.map name).Nodup)
    (h : Backed name valid Fits reads rows)
    (hnm : ∀ row, name row = name new → name (f row) = name row)
    (hf : ∀ row ∈ rows, Fits (f row) origin) (hnw : Fits new origin) :
    Backed name valid Fits (update reads (name new) (some origin))
      (upsert (fun row => name row = name new) f new rows) := by
  intro row hr hv
  by_cases hn : name row = name new
  · refine ⟨origin,by rw [hn,update_self],?_⟩
    by_cases hold : ∃ old ∈ rows, name old = name new
    · obtain ⟨old,hm,heq⟩ := hold
      rw [(upsert_found name f new old rows hnd hm heq hnm row).mp ⟨hr,hn⟩]
      exact hf old hm
    · push Not at hold
      rw [upsert_amend,if_neg (by simpa using hold)] at hr
      rcases mem_append.mp hr with hm | hl
      · exact absurd hn (hold row hm)
      · rw [mem_singleton.mp hl]
        exact hnw
  · rw [update_of_ne hn]
    refine h row ?_ hv
    rw [upsert_amend] at hr
    split_ifs at hr
    · rw [amend_map name _ f (name new) rows (by simp) hnd] at hr
      obtain ⟨old,hm,rfl⟩ := mem_map.mp hr
      by_cases hs : name old = name new
      · simp [change,hs,hnm old hs] at hn
      · simpa [change,hs] using hm
    · simpa [show row ≠ new from fun heq => hn (by rw [heq])] using hr

/-- After a new reading the rows are backed exactly if it fits the row of that name. -/
theorem backed_update [DecidableEq Name] (n : Name) (origin : Origin) (f : Row → Row)
    (h : Backed name valid Fits reads rows) (hnm : ∀ row, name (f row) = name row)
    (hvl : ∀ row, valid (f row) = true)
    (hf : ∀ row, Fits (f row) origin ↔ Fits row origin) :
    Backed name valid Fits (update reads n (some origin))
        (rows.map (change (fun row => name row = n) f)) ↔
      ∀ row ∈ rows, name row = n → Fits row origin := by
  constructor
  · intro hb row hr hn
    have hc : change (fun row => decide (name row = n)) f row = f row := by
      simp [change,hn]
    obtain ⟨read,hrd,hft⟩ := hb (f row) (by rw [← hc]; exact mem_map_of_mem hr) (hvl row)
    rw [hnm,hn,update_self] at hrd
    cases hrd
    exact (hf row).mp hft
  · intro hrw row hr hv
    obtain ⟨old,hold,rfl⟩ := mem_map.mp hr
    by_cases hn : name old = n
    · refine ⟨origin,?_,?_⟩
      · simp [change,hn,hnm]
      · simpa [change,hn] using (hf old).mpr (hrw old hold hn)
    · simp only [change,hn,decide_false,Bool.false_eq_true,if_false] at hv ⊢
      rw [update_of_ne hn]
      exact h old hold hv

end Backing

end EMaster.NamedRows
