import Mathlib.Data.List.Lex
import Mathlib.Order.Basic
import Mathlib.Data.List.Sort

/-!
# Maps kept in the order of their keys

The entries of a map stand in the strict order of their keys. A key that is there already gets
the new value in its place.
-/

set_option autoImplicit false

namespace EMaster
open List

structure SortedMap (K V : Type) [LinearOrder K] where
  entries : List (K×V)
  sorted : (entries.map Prod.fst).Pairwise (· < ·)
  deriving DecidableEq

namespace SortedMap

variable {K V : Type} [LinearOrder K] (m : SortedMap K V)

@[ext]
theorem ext (n : SortedMap K V) (h : m.entries = n.entries) : m = n := by
  cases m
  cases n
  cases h
  rfl

def empty : SortedMap K V := ⟨[],List.Pairwise.nil⟩

def keys (m : SortedMap K V) : List K := m.entries.map Prod.fst

def put (key : K) (value : V) : List (K×V) → List (K×V)
  | [] => [(key,value)]
  | entry::rest =>
    if key < entry.1 then (key,value)::entry::rest
    else if entry.1 < key then entry::put key value rest
    else (key,value)::rest

variable (key : K) (value : V) (entries : List (K×V))

theorem mem_put {en : K×V} (h : en ∈ put key value entries) : en = (key,value) ∨ en ∈ entries := by
  induction entries with
  | nil => exact .inl (mem_singleton.mp h)
  | cons first rest ih =>
    rw [put] at h
    split_ifs at h
    · exact mem_cons.mp h
    · rcases mem_cons.mp h with rfl | hr
      · exact .inr mem_cons_self
      · exact (ih hr).imp_right (mem_cons_of_mem first)
    · exact (mem_cons.mp h).imp_right (mem_cons_of_mem first)

theorem mem_keys_put (o : K) (value : V) (ens : List (K×V)) :
    o ∈ (put key value ens).map Prod.fst ↔ o = key ∨ o ∈ ens.map Prod.fst := by
  induction ens with
  | nil => simp [put]
  | cons first rest ih =>
    rw [put]
    split_ifs with hl hm
    · simp
    · rw [map_cons,mem_cons,ih,map_cons,mem_cons]
      exact or_left_comm
    · rw [map_cons,map_cons,mem_cons,mem_cons,
        show key = first.1 from le_antisymm (not_lt.mp hm) (not_lt.mp hl),← or_assoc,
        or_self]

theorem put_sorted (h : (entries.map Prod.fst).Pairwise (· < ·)) :
    ((put key value entries).map Prod.fst).Pairwise (· < ·) := by
  induction entries with
  | nil => exact pairwise_singleton _ _
  | cons first rest ih =>
    rw [map_cons,pairwise_cons] at h
    rw [put]
    split_ifs with hl hm
    · rw [map_cons,map_cons,pairwise_cons,pairwise_cons]
      refine ⟨fun o ho => ?_,h⟩
      rcases mem_cons.mp ho with rfl | hr
      · exact hl
      · exact hl.trans (h.1 o hr)
    · rw [map_cons,pairwise_cons]
      refine ⟨fun o ho => ?_,ih h.2⟩
      obtain ⟨en,he,rfl⟩ := mem_map.mp ho
      rcases mem_put key value rest he with rfl | hr
      · exact hm
      · exact h.1 en.1 (mem_map_of_mem hr)
    · have hs : key = first.1 := le_antisymm (not_lt.mp hm) (not_lt.mp hl)
      rw [map_cons,pairwise_cons,hs]
      exact h

def insert (m : SortedMap K V) (key : K) (value : V) : SortedMap K V :=
  ⟨put key value m.entries,put_sorted key value m.entries m.sorted⟩

variable {key}

theorem put_last (h : ∀ other ∈ entries.map Prod.fst, other < key) :
    put key value entries = entries++[(key,value)] := by
  induction entries with
  | nil => rfl
  | cons first rest ih =>
    have hf : first.1 < key := h first.1 mem_cons_self
    rw [put,if_neg (not_lt_of_gt hf),if_pos hf,
      ih fun other ho => h other (mem_cons_of_mem _ ho)]
    rfl

theorem insert_sorted (entries : List (K×V))
    (h : ((m.entries++entries).map Prod.fst).Pairwise (· < ·)) :
    (entries.foldl (fun m entry => m.insert entry.1 entry.2) m).entries = m.entries++entries := by
  induction entries generalizing m with
  | nil => exact (append_nil m.entries).symm
  | cons entry rest ih =>
    have hl : (m.insert entry.1 entry.2).entries = m.entries++[entry] := by
      apply put_last
      intro o ho
      rw [map_append,pairwise_append] at h
      exact h.2.2 o ho entry.1 mem_cons_self
    rw [foldl_cons, ih _ (by rw [hl,append_assoc]; exact h), hl, append_assoc]
    rfl

theorem insert_all_keys (key : K) :
    key ∈ (entries.foldl (fun m entry => m.insert entry.1 entry.2) m).keys ↔
      key ∈ m.keys ∨ key ∈ entries.map Prod.fst := by
  induction entries generalizing m with
  | nil => simp
  | cons entry rest ih =>
    rw [foldl_cons,ih,map_cons,mem_cons,← or_assoc]
    apply or_congr_left
    exact (mem_keys_put entry.1 key entry.2 m.entries).trans or_comm

theorem mem_insert_all (en : K×V)
    (h : en ∈ (entries.foldl (fun m en => m.insert en.1 en.2) m).entries) :
    en ∈ m.entries ∨ en ∈ entries := by
  induction entries generalizing m with
  | nil => exact .inl h
  | cons first rest ih =>
    rcases ih (m.insert first.1 first.2) h with hb | hr
    · rcases mem_put first.1 first.2 m.entries hb with rfl | hold
      · exact .inr mem_cons_self
      · exact .inl hold
    · exact .inr (mem_cons_of_mem first hr)

end SortedMap

end EMaster
