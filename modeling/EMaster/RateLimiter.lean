import EMaster.Runs
import EMaster.TokenBucket

/-!
# The rate limiter

A map of token buckets with one bucket for each key. The map is bounded: when it is full, idle
buckets are dropped and then, if need be, the one that was used least recently. Counts of tokens
and times are rational numbers.
-/

set_option autoImplicit false

namespace EMaster.RateLimiter
open Runs TokenBucket AList
open List hiding take

def kIdleEviction : ℚ := 600

structure Limiter (Key : Type) where
  (perSecond burst : ℚ)
  maxKeys : ℕ
  buckets : AList (fun _ : Key => Bucket ℚ)

def make (Key : Type) (perSecond burst : ℚ) (maxKeys : ℕ) : Limiter Key where
  perSecond := if 0 < perSecond then perSecond else 1
  burst := if 0 < burst then burst else 1
  maxKeys := if 0 < maxKeys then maxKeys else 1024
  buckets := ∅

theorem make_settings (Key : Type) (perSecond burst : ℚ) (maxKeys : ℕ) :
    0 < (make Key perSecond burst maxKeys).perSecond ∧
      0 < (make Key perSecond burst maxKeys).burst ∧
      0 < (make Key perSecond burst maxKeys).maxKeys := by
  rw [make]
  refine ⟨?_,?_,?_⟩ <;> dsimp only <;> split_ifs <;> first | assumption | norm_num

variable {Key : Type}

def sweepUnlocked (now : ℚ) (buckets : AList (fun _ : Key => Bucket ℚ)) :
    AList (fun _ : Key => Bucket ℚ) where
  entries := buckets.entries.filter (fun entry => ¬kIdleEviction < now-entry.2.last)
  nodupKeys := List.NodupKeys.sublist filter_sublist buckets.nodupKeys

def older (a b : Sigma fun _ : Key => Bucket ℚ) : Sigma fun _ : Key => Bucket ℚ :=
  if b.2.last < a.2.last then b else a

theorem sweep_length (now : ℚ) (buckets : AList (fun _ : Key => Bucket ℚ)) :
    (sweepUnlocked now buckets).keys.length ≤ buckets.keys.length := by
  simp only [AList.keys,List.keys,length_map]
  exact filter_sublist.length_le

theorem older_mem (entries : List (Sigma fun _ : Key => Bucket ℚ))
    (en : Sigma fun _ : Key => Bucket ℚ) : entries.foldl older en ∈ en::entries := by
  induction entries generalizing en with
  | nil => exact mem_cons_self
  | cons o rest ih =>
    rw [foldl_cons]
    rcases mem_cons.mp (ih (older en o)) with hs | hm
    · rw [hs,older]
      split_ifs
      · exact mem_cons_of_mem _ mem_cons_self
      · exact mem_cons_self
    · exact mem_cons_of_mem _ (mem_cons_of_mem _ hm)

variable [DecidableEq Key]

def evictOldest (buckets : AList (fun _ : Key => Bucket ℚ)) : AList (fun _ : Key => Bucket ℚ) :=
  match buckets.entries with
  | [] => buckets
  | entry::rest => buckets.erase (rest.foldl older entry).1

def makeRoom (l : Limiter Key) (now : ℚ) : AList (fun _ : Key => Bucket ℚ) :=
  if l.maxKeys ≤ l.buckets.keys.length then
    let swept := sweepUnlocked now l.buckets
    if l.maxKeys ≤ swept.keys.length then evictOldest swept else swept
  else l.buckets

def touchUnlocked (l : Limiter Key) (now : ℚ) (key : Key) : Limiter Key×Bucket ℚ :=
  match l.buckets.lookup key with
  | none =>
    ({ l with buckets := (makeRoom l now).insert key (fresh l.burst now) },fresh l.burst now)
  | some bucket =>
    ({ l with buckets := l.buckets.insert key (refill l.perSecond l.burst now bucket) },
      refill l.perSecond l.burst now bucket)

def allow (l : Limiter Key) (now : ℚ) (key : Key) : Limiter Key×Bool :=
  let touched := touchUnlocked l now key
  if touched.2.tokens < 1 then (touched.1,false)
  else
    ({ touched.1 with
        buckets := touched.1.buckets.insert key ⟨touched.2.tokens-1,touched.2.last⟩ },true)

def step (l : Limiter Key) (call : Key×ℚ) : Limiter Key := (allow l call.2 call.1).1

def answered (l : Limiter Key) : List (Key×ℚ) → List (Key×ℚ×Bool)
  | [] => []
  | call::calls => (call.1,call.2,(allow l call.2 call.1).2)::answered (step l call) calls

def answersOf (l : Limiter Key) (calls : List (Key×ℚ)) (key : Key) : List (ℚ×Bool) :=
  ((answered l calls).filter (fun call => call.1 = key)).map Prod.snd

def timesOf (calls : List (Key×ℚ)) (key : Key) : List ℚ :=
  (calls.filter (fun call => call.1 = key)).map Prod.snd

/-! ## How many buckets there are -/

theorem evict_length (buckets : AList (fun _ : Key => Bucket ℚ)) :
    (evictOldest buckets).keys.length = buckets.keys.length-1 := by
  rw [evictOldest]
  cases he : buckets.entries with
  | nil =>
    have hk : buckets.keys = [] := by rw [AList.keys,he]; rfl
    simp [hk]
  | cons en rest =>
    have hm : (rest.foldl older en).1 ∈ buckets.keys := by
      rw [AList.keys,he]
      exact mem_map_of_mem (older_mem rest en)
    show (buckets.erase _).keys.length = _
    rw [keys_erase,length_erase_of_mem hm]

variable (used : Finset Key) (l : Limiter Key) (now : ℚ)

theorem make_room_length (hp : 0 < l.maxKeys) (h : l.buckets.keys.length ≤ l.maxKeys) :
    (makeRoom l now).keys.length < l.maxKeys := by
  have hsw := sweep_length now l.buckets
  rw [makeRoom]
  dsimp only
  split_ifs with hf hs
  · rw [evict_length]
    omega
  · exact not_le.mp hs
  · exact not_le.mp hf

theorem insert_length (buckets : AList (fun _ : Key => Bucket ℚ)) (key : Key) (b : Bucket ℚ) :
    (buckets.insert key b).keys.length =
      if key ∈ buckets.keys then buckets.keys.length else buckets.keys.length+1 := by
  rw [keys_insert,length_cons]
  split_ifs with hm
  · rw [length_erase_of_mem hm]
    have := length_pos_of_mem hm
    omega
  · rw [erase_of_not_mem hm]

variable (call : Key×ℚ) (calls : List (Key×ℚ)) (key : Key)

theorem touch_bounded (hp : 0 < l.maxKeys) (h : l.buckets.keys.length ≤ l.maxKeys) :
    (touchUnlocked l now key).1.buckets.keys.length ≤ l.maxKeys ∧
      key ∈ (touchUnlocked l now key).1.buckets.keys := by
  rw [touchUnlocked]
  cases hl : l.buckets.lookup key with
  | none =>
    have hr := make_room_length l now hp h
    refine ⟨?_,by simp⟩
    show ((makeRoom l now).insert key _).keys.length ≤ _
    rw [insert_length]
    split_ifs <;> omega
  | some bucket =>
    have hm : key ∈ l.buckets.keys := mem_keys.mp (lookup_isSome.mp (by rw [hl]; rfl))
    refine ⟨?_,by simp⟩
    show (l.buckets.insert key _).keys.length ≤ _
    rw [insert_length,if_pos hm]
    exact h

theorem touch_settings :
    (touchUnlocked l now key).1.perSecond = l.perSecond ∧
      (touchUnlocked l now key).1.burst = l.burst ∧
      (touchUnlocked l now key).1.maxKeys = l.maxKeys := by
  rw [touchUnlocked]
  cases l.buckets.lookup key <;> exact ⟨rfl,rfl,rfl⟩

theorem step_settings :
    (step l call).perSecond = l.perSecond ∧ (step l call).burst = l.burst ∧
      (step l call).maxKeys = l.maxKeys := by
  have ht := touch_settings l call.2 call.1
  rw [step,allow]
  dsimp only
  split_ifs <;> exact ht

theorem step_bounded (hp : 0 < l.maxKeys) (h : l.buckets.keys.length ≤ l.maxKeys) :
    (step l call).buckets.keys.length ≤ l.maxKeys := by
  obtain ⟨hl,hm⟩ := touch_bounded l _ _ hp h
  rw [step,allow]
  dsimp only
  split_ifs
  · exact hl
  · dsimp only
    rw [insert_length,if_pos hm]
    exact hl

theorem run_bounded (hp : 0 < l.maxKeys) (h : l.buckets.keys.length ≤ l.maxKeys) :
    (run step l calls).buckets.keys.length ≤ l.maxKeys := by
  induction calls generalizing l with
  | nil => exact h
  | cons call calls ih =>
    obtain ⟨_,_,hm⟩ := step_settings l call
    have hs := step_bounded l call hp h
    have hr := ih (step l call) (by rw [hm]; exact hp) (by rw [hm]; exact hs)
    rw [hm] at hr
    exact hr

/-! ## Each key by itself -/

/-- The keys that have a bucket or get one fit into the map. -/
structure InUse (used : Finset Key) (l : Limiter Key) : Prop where
  keys : ∀ key ∈ l.buckets.keys, key ∈ used
  room : used.card < l.maxKeys

theorem in_use_room (h : InUse used l) : makeRoom l now = l.buckets := by
  have hl : l.buckets.keys.length ≤ used.card := by
    have hn : l.buckets.keys.Nodup := l.buckets.keys_nodup
    rw [← toFinset_card_of_nodup hn]
    exact Finset.card_le_card fun key hk => h.keys key (mem_toFinset.mp hk)
  have hr := h.room
  rw [makeRoom,if_neg (by omega)]

theorem allow_in_use (h : InUse used l) :
    (allow l now key).1.buckets.lookup key =
        some (take (touched l.perSecond l.burst now (l.buckets.lookup key))).1 ∧
      (allow l now key).2 = (take (touched l.perSecond l.burst now (l.buckets.lookup key))).2 ∧
      (∀ other ≠ key, (allow l now key).1.buckets.lookup other = l.buckets.lookup other) ∧
      ∀ other ∈ (allow l now key).1.buckets.keys, other = key ∨ other ∈ l.buckets.keys := by
  have ht : (touchUnlocked l now key).1.buckets =
      l.buckets.insert key (touched l.perSecond l.burst now (l.buckets.lookup key)) ∧
      (touchUnlocked l now key).2 = touched l.perSecond l.burst now (l.buckets.lookup key) := by
    rw [touchUnlocked]
    cases l.buckets.lookup key with
    | none => exact ⟨by rw [in_use_room used l now h]; rfl,rfl⟩
    | some bucket => exact ⟨rfl,rfl⟩
  have hi : ∀ b : Bucket ℚ, ∀ other ∈ (l.buckets.insert key b).keys,
      other = key ∨ other ∈ l.buckets.keys := by
    intro b other ho
    rw [keys_insert] at ho
    exact (mem_cons.mp ho).imp id mem_of_mem_erase
  rw [allow]
  dsimp only
  rw [ht.2,take]
  split_ifs
  · dsimp only
    rw [ht.1]
    exact ⟨lookup_insert _,rfl,fun other ho => lookup_insert_ne ho,hi _⟩
  · dsimp only
    rw [ht.1,insert_insert]
    exact ⟨lookup_insert _,rfl,fun other ho => lookup_insert_ne ho,hi _⟩

theorem step_in_use (h : InUse used l) (hc : call.1 ∈ used) : InUse used (step l call) := by
  obtain ⟨_,_,_,hk⟩ := allow_in_use used l _ _ h
  refine ⟨fun key hky => ?_,(step_settings l call).2.2 ▸ h.room⟩
  rcases hk key hky with rfl | hold
  · exact hc
  · exact h.keys key hold

theorem answers_of_eq (h : InUse used l) (hc : ∀ call ∈ calls, call.1 ∈ used) :
    answersOf l calls key =
      answers l.perSecond l.burst (l.buckets.lookup key) (timesOf calls key) := by
  induction calls generalizing l with
  | nil => rfl
  | cons call calls ih =>
    obtain ⟨hl,ha,ho,_⟩ := allow_in_use used l _ _ h
    have hr := ih (step l call) (step_in_use used l call h (hc call mem_cons_self))
      (fun o hm => hc o (mem_cons_of_mem call hm))
    obtain ⟨hrt,hb,_⟩ := step_settings l call
    rw [hrt,hb] at hr
    rw [answersOf] at hr
    rw [answersOf,answered,timesOf,filter_cons,filter_cons]
    by_cases hk : call.1 = key
    · subst hk
      simp only [decide_true,if_true,map_cons]
      rw [hr,answers,ha]
      congr 2
    · simp only [hk,decide_false,Bool.false_eq_true,if_false]
      rw [hr,step,ho key (Ne.symm hk)]
      rfl

theorem times_filter :
    timesOf (calls.filter (fun call => call.1 = key)) key = timesOf calls key := by
  rw [timesOf,filter_filter,timesOf]
  simp

/-- For calls at times that do not decrease and fewer keys than the map may hold: no window has
more calls of a key let through than a full bucket and what it gains, the answers of a key are
those it would get without the other keys, and the map is never too large. -/
theorem allow_bounds (perSecond burst : ℚ) (maxKeys : ℕ) (calls : List (Key×ℚ))
    (hsorted : (calls.map Prod.snd).Pairwise (· ≤ ·))
    (hkeys : (calls.map Prod.fst).toFinset.card < (make Key perSecond burst maxKeys).maxKeys) :
    let l := make Key perSecond burst maxKeys
    (∀ key a d, 0 ≤ d →
        ((answersOf l calls key).countP (within a (a+d)) : ℚ) ≤ l.burst+l.perSecond*d) ∧
      (∀ key, answersOf l calls key = answersOf l (calls.filter (fun call => call.1 = key)) key) ∧
      ∀ past rest, calls = past++rest → (run step l past).buckets.keys.length ≤ l.maxKeys := by
  intro l
  obtain ⟨hr,hb,hp⟩ := make_settings Key perSecond burst maxKeys
  have hu : InUse (calls.map Prod.fst).toFinset l := ⟨fun key hk => absurd hk not_mem_nil,hkeys⟩
  have hcl : ∀ call ∈ calls, call.1 ∈ (calls.map Prod.fst).toFinset := fun call hc =>
    mem_toFinset.mpr (mem_map_of_mem hc)
  have ho := fun key => answers_of_eq (calls.map Prod.fst).toFinset l calls key hu hcl
  refine ⟨fun key a d hd => ?_,fun key => ?_,fun past rest _ => ?_⟩
  · have he : l.buckets.lookup key = none := AList.lookup_empty key
    rw [ho key,he]
    have hbn := answers_within_le l.perSecond l.burst a (a+d) none (timesOf calls key) hr.le
      hb.le (by linarith) (hsorted.sublist (filter_sublist.map _))
      (fun old hold => by cases hold)
    calc _ ≤ l.burst+(a+d-a)*l.perSecond := hbn
      _ = l.burst+l.perSecond*d := by ring
  · rw [ho key,answers_of_eq (calls.map Prod.fst).toFinset l _ key hu
      (fun call hc => hcl call (mem_of_mem_filter hc)),times_filter]
  · exact run_bounded l past hp (Nat.zero_le _)

def mixedCalls : List (ℕ×ℚ) := [(1,0),(2,0),(1,1/2),(1,1),(2,3)]

/-- Two keys with one token in a second. -/
theorem allow_bounds_mixed :
    let l := make ℕ 1 1 3
    answersOf l mixedCalls 1 = [(0,true),(1/2,false),(1,true)] ∧
      ((answersOf l mixedCalls 1).countP (within 0 (0+1)) : ℚ) ≤ l.burst+l.perSecond*1 := by
  intro l
  have hb := allow_bounds 1 1 3 mixedCalls (by simp [mixedCalls]; norm_num) (by decide)
  exact ⟨by decide +kernel,hb.1 1 0 1 (by norm_num)⟩

end EMaster.RateLimiter
