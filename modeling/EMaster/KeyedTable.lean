import Mathlib

/-!
# Tables with a numeric primary key

A table is a list of rows whose keys are pairwise different and never above the
largest key handed out. Updates keep the key of the row they change; insertion
takes the next key. Row order is the order in which a scan meets the rows.
-/

set_option autoImplicit false

namespace EMaster.KeyedTable
open List

structure Table (Row : Type) (key : Row → ℕ) where
  rows : List Row
  last : ℕ
  nodup : (rows.map key).Nodup
  bounded : ∀ row ∈ rows, key row ≤ last

variable {Row : Type} {key : Row → ℕ}

def Table.one (t : Table Row key) (p : Row → Bool) : Option Row := t.rows.find? p

def Table.get (t : Table Row key) (id : ℕ) : Option Row := t.one (fun row => decide (key row = id))

def patchRow (key : Row → ℕ) (id : ℕ) (f : Row → Row) (row : Row) : Row :=
  if key row = id then f row else row

variable (t : Table Row key) (p : Row → Bool) (id : ℕ) (f : Row → Row) (row : Row)
  (hf : ∀ row, key (f row) = key row)

theorem patch_row_key (hf : ∀ row, key (f row) = key row) (row : Row) :
    key (patchRow key id f row) = key row := by
  unfold patchRow
  split_ifs with h
  · exact hf row
  · rfl

theorem map_patch_keys (hf : ∀ row, key (f row) = key row) (rows : List Row) :
    (rows.map (patchRow key id f)).map key = rows.map key := by
  rw [map_map]
  exact map_congr_left (fun row _ => patch_row_key id f hf row)

def Table.modify (t : Table Row key) (id : ℕ) (f : Row → Row)
    (hf : ∀ row, key (f row) = key row) : Table Row key where
  rows := t.rows.map (patchRow key id f)
  last := t.last
  nodup := by rw [map_patch_keys id f hf]; exact t.nodup
  bounded := by
    intro row hrow
    obtain ⟨old,hold,rfl⟩ := mem_map.mp hrow
    rw [patch_row_key id f hf]
    exact t.bounded old hold

def Table.insert (t : Table Row key) (make : ℕ → Row) (hm : ∀ id, key (make id) = id) :
    Table Row key where
  rows := t.rows++[make (t.last+1)]
  last := t.last+1
  nodup := by
    rw [map_append,nodup_append]
    refine ⟨t.nodup,by simp,?_⟩
    intro id hid other hother
    obtain ⟨row,hrow,rfl⟩ := mem_map.mp hid
    have hle := t.bounded row hrow
    simp only [map_cons,map_nil,mem_singleton,hm] at hother
    omega
  bounded := by
    intro row hrow
    rcases mem_append.mp hrow with hold | hnew
    · have := t.bounded row hold
      omega
    · rw [mem_singleton.mp hnew,hm]

def Table.retain (t : Table Row key) (keep : Row → Bool) : Table Row key where
  rows := t.rows.filter keep
  last := t.last
  nodup := t.nodup.sublist (filter_sublist.map key)
  bounded row hrow := t.bounded row (mem_of_mem_filter hrow)

theorem key_injective {other : Row} (hr : row ∈ t.rows) (ho : other ∈ t.rows)
    (hk : key row = key other) : row = other :=
  inj_on_of_nodup_map t.nodup hr ho hk

theorem one_some (h : t.one p = some row) : row ∈ t.rows ∧ p row = true :=
  ⟨mem_of_find?_eq_some h,find?_some h⟩

theorem one_none : t.one p = none ↔ ∀ row ∈ t.rows, p row = false := by
  simp [Table.one,find?_eq_none]

theorem get_some : t.get id = some row ↔ row ∈ t.rows ∧ key row = id := by
  constructor
  · intro h
    obtain ⟨hm,hk⟩ := one_some t _ row h
    exact ⟨hm,of_decide_eq_true hk⟩
  · rintro ⟨hm,hk⟩
    cases hg : t.get id with
    | none => exact absurd ((one_none t _).mp hg row hm) (by simp [hk])
    | some o =>
      obtain ⟨ho,hok⟩ := one_some t _ o hg
      rw [key_injective t o ho hm (by rw [hk]; exact of_decide_eq_true hok)]

theorem get_key (h : row ∈ t.rows) : t.get (key row) = some row := (get_some t _ row).mpr ⟨h,rfl⟩

variable {f}

theorem mem_modify (row : Row) :
    row ∈ (t.modify id f hf).rows ↔ ∃ old ∈ t.rows, patchRow key id f old = row :=
  mem_map

theorem mem_modify_other {row : Row} (h : row ∈ t.rows) (hk : key row ≠ id) :
    row ∈ (t.modify id f hf).rows :=
  (mem_modify t _ hf _).mpr ⟨row,h,by simp [patchRow,hk]⟩

theorem get_modify (o : ℕ) (f : Row → Row) (hf : ∀ row, key (f row) = key row) :
    (t.modify id f hf).get o = (t.get o).map (patchRow key id f) := by
  cases hg : t.get o with
  | none =>
    refine (one_none _ _).mpr ?_
    intro row hr
    obtain ⟨old,hold,rfl⟩ := (mem_modify t id hf row).mp hr
    rw [patch_row_key id f hf]
    exact (one_none t _).mp hg old hold
  | some old =>
    obtain ⟨hm,hk⟩ := (get_some t o old).mp hg
    refine (get_some _ o _).mpr ⟨(mem_modify t id hf _).mpr ⟨old,hm,rfl⟩,?_⟩
    rw [patch_row_key id f hf,hk]

variable {make : ℕ → Row}

theorem mem_insert (hm : ∀ id, key (make id) = id) (row : Row) :
    row ∈ (t.insert make hm).rows ↔ row ∈ t.rows ∨ row = make (t.last+1) := by
  simp [Table.insert]

theorem get_insert (hm : ∀ id, key (make id) = id) (id : ℕ) :
    (t.insert make hm).get id = if id = t.last+1 then some (make id) else t.get id := by
  unfold Table.get Table.one Table.insert
  rw [find?_append]
  split_ifs with hid
  · -- no row had the new key, so the search reaches the new row
    subst hid
    have hn : t.rows.find? (fun row => decide (key row = t.last+1)) = none := by
      rw [find?_eq_none]
      intro row hr
      have := t.bounded row hr
      simp only [decide_eq_true_eq]
      omega
    rw [hn, Option.none_or, find?_cons_of_pos (by simp [hm])]
  · rw [find?_cons_of_neg (by simp [hm,eq_comm,hid]), find?_nil, Option.or_none]

theorem get_retain (keep : Row → Bool) (id : ℕ) :
    (t.retain keep).get id = (t.get id).filter keep := by
  cases hg : t.get id with
  | none =>
    refine (one_none _ _).mpr fun row hr => ?_
    exact (one_none t _).mp hg row (mem_of_mem_filter hr)
  | some row =>
    obtain ⟨hm,hk⟩ := (get_some t id row).mp hg
    rw [Option.filter_some]
    split_ifs with hkp
    · exact (get_some _ id row).mpr ⟨mem_filter.mpr ⟨hm,hkp⟩,hk⟩
    · refine (one_none _ _).mpr fun o hot => decide_eq_false fun hky => hkp ?_
      obtain ⟨ho,hke⟩ := mem_filter.mp hot
      rw [key_injective t row hm ho (hk.trans hky.symm)]
      exact hke

variable {p row}

theorem find_patched {rows : List Row} (hk : key row ≠ id)
    (hp : ∀ r, key r = id → p (f r) = true → p r = true) (h : rows.find? p = some row) :
    (rows.map (patchRow key id f)).find? p = some row := by
  induction rows with
  | nil => exact nomatch h
  | cons r rest ih =>
    rw [map_cons]
    cases hr : p r with
    | true =>
      rw [find?_cons_of_pos hr] at h
      obtain rfl := Option.some.inj h
      rw [patchRow,if_neg hk,find?_cons_of_pos hr]
    | false =>
      have hpt : p (patchRow key id f r) = false := by
        unfold patchRow
        split_ifs with hid
        · by_contra hn
          rw [hp r hid (Bool.not_eq_false _ ▸ hn)] at hr
          exact nomatch hr
        · exact hr
      rw [find?_cons_of_neg (by simp [hr])] at h
      rw [find?_cons_of_neg (by simp [hpt])]
      exact ih h

/-- A lookup is not moved by a change of another row that does not start to
satisfy it. -/
theorem one_modify {row : Row} (h : t.one p = some row) (hk : key row ≠ id)
    (hp : ∀ r, key r = id → p (f r) = true → p r = true) :
    (t.modify id f hf).one p = some row :=
  find_patched id hk hp h

theorem one_modify_map (hp : ∀ row, p (f row) = p row) :
    (t.modify id f hf).one p = (t.one p).map (patchRow key id f) := by
  have hpt : p ∘ patchRow key id f = p := by
    funext row
    unfold Function.comp patchRow
    split_ifs
    · exact hp row
    · rfl
  unfold Table.one Table.modify
  rw [find?_map,hpt]

end EMaster.KeyedTable
