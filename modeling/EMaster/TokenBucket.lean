import Mathlib

/-!
# Token buckets

A bucket holds up to `burst` tokens and gains `rate` tokens in a unit of time. A call takes one
if there is one. However the calls are spread, a window of length `d` has at most `burst+rate*d`
calls that got a token.
-/

set_option autoImplicit false

namespace EMaster.TokenBucket
open List

structure Bucket (K : Type) where
  (tokens last : K)
  deriving DecidableEq, Repr

section Steps
variable {K : Type} [Field K] [LinearOrder K]

def fresh (burst now : K) : Bucket K := ⟨burst,now⟩

def refill (rate burst now : K) (b : Bucket K) : Bucket K :=
  ⟨min burst (b.tokens+(now-b.last)*rate),now⟩

def touched (rate burst now : K) (b : Option (Bucket K)) : Bucket K :=
  b.elim (fresh burst now) (refill rate burst now)

def take (b : Bucket K) : Bucket K×Bool :=
  if b.tokens < 1 then (b,false) else (⟨b.tokens-1,b.last⟩,true)

def answers (rate burst : K) : Option (Bucket K) → List K → List (K×Bool)
  | _, [] => []
  | b, now::times =>
    let after := take (touched rate burst now b)
    (now,after.2)::answers rate burst (some after.1) times

def within (a e : K) (call : K×Bool) : Bool := a ≤ call.1 && call.1 ≤ e && call.2

theorem answers_late (rate burst a e : K) (b : Option (Bucket K)) (times : List K)
    (h : ∀ now ∈ times, e < now) :
    (answers rate burst b times).countP (within a e) = 0 := by
  induction times generalizing b with
  | nil => rfl
  | cons now times ih =>
    have hlt : ¬now ≤ e := not_le.mpr (h now mem_cons_self)
    rw [answers,countP_cons,ih _ (fun later hl => h later (mem_cons_of_mem now hl))]
    simp [within,hlt]

end Steps

section Bound
variable {K : Type} [Field K] [LinearOrder K] [IsStrictOrderedRing K] (rate burst : K)

theorem take_cases (b : Bucket K) (h : 0 ≤ b.tokens) :
    (take b).1.last = b.last ∧ 0 ≤ (take b).1.tokens ∧
      (take b).1.tokens+((take b).2.toNat : K) = b.tokens := by
  rw [take]
  by_cases he : b.tokens < 1
  · rw [if_pos he]
    exact ⟨rfl,h,by simp⟩
  · rw [if_neg he]
    exact ⟨rfl,sub_nonneg.mpr (not_lt.mp he),by simp⟩

theorem touched_bounds (now : K) (b : Option (Bucket K)) (hr : 0 ≤ rate)
    (hbr : 0 ≤ burst) (hb : ∀ old ∈ b, 0 ≤ old.tokens ∧ old.last ≤ now) :
    (touched rate burst now b).last = now ∧ 0 ≤ (touched rate burst now b).tokens ∧
      (touched rate burst now b).tokens ≤ burst ∧
      ∀ old ∈ b, (touched rate burst now b).tokens ≤ old.tokens+(now-old.last)*rate := by
  cases b with
  | none => exact ⟨rfl,hbr,le_rfl,fun old hold => by cases hold⟩
  | some old =>
    obtain ⟨ht,hl⟩ := hb old rfl
    have hg : 0 ≤ (now-old.last)*rate := mul_nonneg (sub_nonneg.mpr hl) hr
    refine ⟨rfl,le_min hbr (add_nonneg ht hg),min_le_left _ _,?_⟩
    intro o ho
    cases ho
    exact min_le_right _ _

/-- From a bucket on, the calls until `e` take at most what it holds and gains until then. -/
theorem spent_le (a e : K) (b : Bucket K) (times : List K) (hr : 0 ≤ rate)
    (hb : 0 ≤ burst) (ht : 0 ≤ b.tokens) (hls : b.last ≤ e)
    (hsr : (b.last::times).Pairwise (· ≤ ·)) :
    ((answers rate burst (some b) times).countP (within a e) : K) ≤ b.tokens+(e-b.last)*rate := by
  induction times generalizing b with
  | nil =>
    have hg : 0 ≤ (e-b.last)*rate := mul_nonneg (sub_nonneg.mpr hls) hr
    simpa [answers] using add_nonneg ht hg
  | cons now times ih =>
    obtain ⟨hf,hrs⟩ := pairwise_cons.mp hsr
    have hnw := hf now mem_cons_self
    obtain ⟨htm,hp,_,hg⟩ := touched_bounds rate burst now (some b) hr hb
      (fun old hold => by cases hold; exact ⟨ht,hnw⟩)
    have hh := hg b rfl
    obtain ⟨hk,hlf,htk⟩ := take_cases _ hp
    rw [answers,countP_cons]
    generalize take (touched rate burst now (some b)) = after at hk hlf htk ⊢
    have hs : after.1.last = now := hk.trans htm
    by_cases hlt : now ≤ e
    · have hl := ih after.1 hlf (hs.trans_le hlt) (by rw [hs]; exact hrs)
      have hc : (if within a e (now,after.2) = true then 1 else 0) ≤ after.2.toNat := by
        rw [within]
        cases after.2 <;> simp
        split_ifs <;> simp
      calc ((_+(if within a e (now,after.2) = true then 1 else 0) : ℕ) : K)
          ≤ ((answers rate burst (some after.1) times).countP (within a e)+after.2.toNat : ℕ) :=
            Nat.cast_le.mpr (Nat.add_le_add_left hc _)
        _ ≤ after.1.tokens+(e-now)*rate+after.2.toNat := by
            rw [hs] at hl
            push_cast
            exact add_le_add_left hl _
        _ = (touched rate burst now (some b)).tokens+(e-now)*rate := by
            rw [← htk]
            ring
        _ ≤ b.tokens+(now-b.last)*rate+(e-now)*rate := add_le_add_left hh _
        _ = b.tokens+(e-b.last)*rate := by ring
    · have hn : ∀ later ∈ times, e < later := fun later hl =>
        (not_le.mp hlt).trans_le ((pairwise_cons.mp hrs).1 later hl)
      have hgn : 0 ≤ (e-b.last)*rate := mul_nonneg (sub_nonneg.mpr hls) hr
      rw [answers_late rate burst a e _ times hn]
      simpa [within,hlt] using add_nonneg ht hgn

/-- No window has more calls with a token than a full bucket and what is gained in it. -/
theorem answers_within_le (a e : K) (b : Option (Bucket K)) (times : List K) (hr : 0 ≤ rate)
    (hbr : 0 ≤ burst) (hw : a ≤ e) (hs : times.Pairwise (· ≤ ·))
    (hb : ∀ old ∈ b, 0 ≤ old.tokens ∧ ∀ now ∈ times, old.last ≤ now) :
    ((answers rate burst b times).countP (within a e) : K) ≤ burst+(e-a)*rate := by
  have hfl : 0 ≤ burst+(e-a)*rate := add_nonneg hbr (mul_nonneg (sub_nonneg.mpr hw) hr)
  induction times generalizing b with
  | nil => simpa [answers] using hfl
  | cons now times ih =>
    obtain ⟨hf,hrs⟩ := pairwise_cons.mp hs
    obtain ⟨ht,hp,hc,_⟩ := touched_bounds rate burst now b hr hbr
      (fun old hold => ⟨(hb old hold).1,(hb old hold).2 now mem_cons_self⟩)
    obtain ⟨hk,hlf,htk⟩ := take_cases _ hp
    by_cases he : now < a
    · rw [answers, countP_cons, if_neg (by simp [within,not_le.mpr he]), add_zero]
      refine ih (some (take (touched rate burst now b)).1) hrs fun old hold => ?_
      cases hold
      exact ⟨hlf,fun later hl => (hk.trans ht).trans_le (hf later hl)⟩
    · by_cases hlt : now ≤ e
      · -- the bucket at the first call of the window is at most full
        have hst : 0 ≤ (touched rate burst now b).tokens ∧
            (touched rate burst now b).last ≤ e := ⟨hp,ht.trans_le hlt⟩
        have hsa : answers rate burst b (now::times) =
            answers rate burst (some (touched rate burst now b)) (now::times) := by
          have ha : touched rate burst now (some (touched rate burst now b)) =
              touched rate burst now b := by
            have hsm : ∀ c : Bucket K, c.last = now → ⟨c.tokens,now⟩ = c := by
              rintro c rfl
              rfl
            show refill rate burst now (touched rate burst now b) = _
            rw [refill,ht,sub_self,zero_mul,add_zero,min_eq_right hc]
            exact hsm _ ht
          rw [answers,answers,ha]
        rw [hsa]
        have hsp := spent_le rate burst a e _ _ hr
          hbr hst.1 hst.2 (by
            rw [ht]
            exact pairwise_cons.mpr ⟨fun later hl => by
              rcases mem_cons.mp hl with rfl | hl
              · exact le_rfl
              · exact hf later hl,hs⟩)
        refine hsp.trans ?_
        rw [ht]
        exact add_le_add hc (mul_le_mul_of_nonneg_right (sub_le_sub_left (not_lt.mp he) e) hr)
      · rw [answers_late rate burst a e b _ (fun later hl => by
          rcases mem_cons.mp hl with rfl | hl
          · exact not_le.mp hlt
          · exact (not_le.mp hlt).trans_le (hf later hl))]
        simpa using hfl

end Bound

end EMaster.TokenBucket
