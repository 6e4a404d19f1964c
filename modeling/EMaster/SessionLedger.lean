import EMaster.Text

/-!
# A ledger of sessions

Every session that was ever opened has an entry, and an entry that is closed says why. A user
may have a limited number of sessions: before one more is opened, all but the newest ones are
closed. This is what the sessions of the store are for, without any table.
-/

set_option autoImplicit false

namespace EMaster.SessionLedger
open List

inductive Standing where
  | live
  | revoked
  | evicted
  | expired
  | deleted
  deriving DecidableEq, Repr

structure Entry where
  token : Text
  (id userId : ℕ)
  (issuedAt expiresAt : ℤ)
  sourceIp : Text
  standing : Standing
  deriving DecidableEq, Repr

def isLive (e : Entry) : Bool := e.standing = .live

def live (ledger : List Entry) : List Entry := ledger.filter isLive

def shut (standing : Standing) (p : Entry → Bool) (e : Entry) : Entry :=
  if isLive e && p e then { e with standing := standing } else e

def close (standing : Standing) (p : Entry → Bool) (ledger : List Entry) : List Entry :=
  ledger.map (shut standing p)

/-- Newest first; of two that were opened at the same time, the one that was opened first. -/
def ahead (a b : ℤ×ℕ) : Bool := b.1 < a.1 || (b.1 = a.1 && a.2 < b.2)

def Entry.age (e : Entry) : ℤ×ℕ := (e.issuedAt,e.id)

def rank (ledger : List Entry) (e : Entry) : ℕ :=
  (live ledger).countP fun other => other.userId = e.userId && ahead other.age e.age

def evict (limit : ℤ) (userId : ℕ) (ledger : List Entry) : List Entry :=
  if 0 < limit then
    close .evicted (fun e => e.userId = userId && limit-1 ≤ rank ledger e) ledger
  else ledger

structure Usable (ledger : List Entry) (token : Text) (now : ℤ) (e : Entry) : Prop where
  opened : e ∈ ledger
  token : e.token = token
  not_revoked : e.standing ≠ .revoked
  not_evicted : e.standing ≠ .evicted
  not_expired : now < e.expiresAt

variable {standing : Standing}

theorem shut_live (p : Entry → Bool) (e : Entry) (h : standing ≠ .live) :
    isLive (shut standing p e) = (isLive e && !p e) ∧
      (isLive (shut standing p e) = true → shut standing p e = e) := by
  rw [shut]
  cases hl : isLive e <;> cases hp : p e <;> simp [isLive,h] at hl ⊢ <;> exact hl

theorem live_close (p : Entry → Bool) (ledger : List Entry) (h : standing ≠ .live) :
    live (close standing p ledger) = (live ledger).filter (fun e => !p e) := by
  induction ledger with
  | nil => rfl
  | cons e rest ih =>
    obtain ⟨hs,hsm⟩ := shut_live p e h
    rw [close,map_cons,live,filter_cons,hs]
    rw [live,filter_cons]
    cases hl : isLive e with
    | false => exact ih
    | true =>
      cases hp : p e with
      | false =>
        have heq : shut standing p e = e := hsm (by rw [hs,hl,hp]; rfl)
        simp only [Bool.true_and,Bool.not_false,if_true,filter_cons,hp,heq]
        exact congrArg (List.cons e) ih
      | true =>
        simp only [Bool.true_and,Bool.not_true,Bool.false_eq_true,if_false,if_true,filter_cons,hp]
        exact ih

variable {e : Entry}

theorem mem_close {p : Entry → Bool} {ledger : List Entry} (h : e ∈ close standing p ledger) :
    e ∈ ledger ∨ ∃ old ∈ ledger, isLive old = true ∧ p old = true ∧
      e = { old with standing := standing } := by
  obtain ⟨old,hold,rfl⟩ := mem_map.mp h
  rw [shut]
  split_ifs with hs
  · obtain ⟨hl,hp⟩ := Bool.and_eq_true_iff.mp hs
    exact .inr ⟨old,hold,hl,hp,rfl⟩
  · exact .inl hold

variable (ledger : List Entry)

theorem mem_live (e : Entry) : e ∈ live ledger ↔ e ∈ ledger ∧ e.standing = .live := by
  simp [live,isLive]

theorem live_append (h : e.standing = .live) : live (ledger++[e]) = live ledger++[e] := by
  rw [live,filter_append,live]
  simp [isLive,h]

/-! ## Ranks in a sorted list -/

theorem ahead_irrefl (a : ℤ×ℕ) : ahead a a = false := by simp [ahead]

theorem ahead_asymm {a b : ℤ×ℕ} (h : ahead a b = true) : ahead b a = false := by
  simp only [ahead,Bool.or_eq_true,Bool.and_eq_true,decide_eq_true_eq] at h
  simp only [ahead,Bool.or_eq_false_iff,Bool.and_eq_false_iff,decide_eq_false_iff_not]
  omega

variable {α : Type}

theorem mem_take_iff {age : α → ℤ×ℕ} {sorted : List α} (n : ℕ) (x : α)
    (h : sorted.Pairwise (fun a b => ahead (age a) (age b) = true)) :
    x ∈ sorted.take n ↔ x ∈ sorted ∧ sorted.countP (fun y => ahead (age y) (age x)) < n := by
  induction sorted generalizing n with
  | nil => simp
  | cons a rest ih =>
    obtain ⟨hf,hr⟩ := pairwise_cons.mp h
    have hn : (a::rest).countP (fun y => ahead (age y) (age a)) = 0 := by
      rw [countP_eq_zero]
      intro y hy
      rcases mem_cons.mp hy with rfl | hy
      · simp [ahead_irrefl]
      · simp [ahead_asymm (hf y hy)]
    cases n with
    | zero => simp
    | succ n =>
      rw [take_succ_cons,mem_cons,mem_cons]
      by_cases hxa : x = a
      · subst hxa
        rw [hn]
        simp
      · simp only [hxa,false_or]
        rw [ih n hr]
        refine and_congr_right fun hx => ?_
        rw [countP_cons,if_pos (hf x hx)]
        omega

/-- Sorting by the time alone, without moving what is equal, sorts a list of rising numbers by
age. -/
theorem pairwise_sort (age : α → ℤ×ℕ) (rows : List α)
    (h : (rows.map (fun row => (age row).2)).Pairwise (· < ·)) :
    (rows.insertionSort (fun a b => (age b).1 ≤ (age a).1)).Pairwise
      (fun a b => ahead (age a) (age b) = true) := by
  induction rows with
  | nil => exact List.Pairwise.nil
  | cons a rest ih =>
    rw [map_cons,pairwise_cons] at h
    obtain ⟨hf,hr⟩ := h
    rw [insertionSort_cons]
    have hl : ∀ b ∈ rest.insertionSort (fun a b => (age b).1 ≤ (age a).1),
        (age a).2 < (age b).2 := by
      intro b hb
      exact hf _ (mem_map_of_mem ((mem_insertionSort _).mp hb))
    have hs := ih hr
    generalize rest.insertionSort (fun a b => (age b).1 ≤ (age a).1) = tail at hl hs
    induction tail with
    | nil => exact pairwise_singleton _ _
    | cons b tail ihtail =>
      obtain ⟨hb,ht⟩ := pairwise_cons.mp hs
      have hab := hl b mem_cons_self
      rw [orderedInsert_cons]
      split_ifs with hle
      · refine pairwise_cons.mpr ⟨fun c hc => ?_,hs⟩
        have hac := hl c hc
        have hbc : (age c).1 ≤ (age b).1 := by
          rcases mem_cons.mp hc with rfl | hc
          · exact le_rfl
          · have ha := hb c hc
            simp only [ahead,Bool.or_eq_true,Bool.and_eq_true,decide_eq_true_eq] at ha
            omega
        simp only [ahead,Bool.or_eq_true,Bool.and_eq_true,decide_eq_true_eq]
        omega
      · refine pairwise_cons.mpr ⟨fun c hc => ?_,
          ihtail (fun c hc => hl c (mem_cons_of_mem b hc)) ht⟩
        rcases mem_cons.mp ((perm_orderedInsert _ a tail).mem_iff.mp hc) with rfl | hc
        · simp only [ahead,Bool.or_eq_true,decide_eq_true_eq]
          exact .inl (not_le.mp hle)
        · exact hb c hc

end EMaster.SessionLedger
