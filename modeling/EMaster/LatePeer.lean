import EMaster.Transport

/-!
# A peer that answers late

The peer of a connection answers every request once and in order, but its bytes may take any
time. Each byte on its way carries the number of the request that it answers. While a
driver waits, some bytes come in, or none does and its time is up.
-/

set_option autoImplicit false

namespace EMaster.LatePeer
open Bytes Program Transport List Prod

/-- A connection: the bytes not yet read, how many of them have come in, the number of the
next request, the requests answered by the bytes read since the last one, how many bytes were
still to be read when that one was sent, how many come in during each wait, and the
connections to come, some of them refused. -/
structure Line where
  isOpen : Bool
  coming : List (UInt8×ℕ)
  (arrived asked : ℕ)
  taken : List ℕ
  owed : ℕ
  waits : List ℕ
  next : List (Option (List ℕ))

namespace Line

variable (l : Line)

def consume (n : ℕ) : Line :=
  { l with
    coming := l.coming.drop n
    arrived := l.arrived-n
    taken := l.taken++(l.coming.take n).map Prod.snd }

def openLink : Status×Line :=
  if l.isOpen then (HSF_ERR_ALREADY_OPEN,l)
  else match l.next with
    | some waits::next =>
      (HSF_OK,{ l with isOpen := true,coming := [],arrived := 0,waits := waits,next := next })
    | none::next => ( HSF_ERR_IO,{ l with next := next })
    | [] => ( HSF_ERR_IO,l)

def close : Line := { l with isOpen := false, coming := [], arrived := 0 }

def read (cap : ℕ) : (Status×Bytes)×Line :=
  if l.isOpen = false then ((HSF_ERR_NOT_OPEN,[]),l)
  else if l.arrived = 0 then ((HSF_AGAIN,[]),l)
  else ((HSF_OK,(l.coming.take (min cap l.arrived)).map Prod.fst),l.consume (min cap l.arrived))

def wait (events : UInt32) (_ : ℤ) : (Status×UInt32)×Line :=
  if l.arrived = 0 ∧ events = HSF_IO_READ then
    match l.waits with
    | [] => ((HSF_ERR_TIMEOUT,0),l)
    | n::waits =>
      if min n l.coming.length = 0 then ((HSF_ERR_TIMEOUT,0),{ l with waits := waits })
      else ((HSF_OK,events),{ l with waits := waits,arrived := min n l.coming.length })
  else ((HSF_OK,events),l)

def sent (reply : Bytes) : Line :=
  { l with
    coming := l.coming++reply.map (fun b => (b,l.asked))
    asked := l.asked+1
    taken := []
    owed := l.coming.length }

def write (reply : ℕ → Bytes → Bytes) (l : Line) (data : Bytes) : (Status×ℕ)×Line :=
  if l.isOpen = false then ((HSF_ERR_NOT_OPEN,0),l)
  else ((HSF_OK,data.length),l.sent (reply l.asked data))

def vtable (reply : ℕ → Bytes → Bytes) : VTable Line where
  isOpen := some isOpen
  openLink := some openLink
  close := some close
  read := read
  write := write reply
  wait := wait

def Fits : Prop := l.arrived ≤ l.coming.length

end Line

/-- What has been read, how much of what has come in is left, and the waits to come. -/
structure Got where
  ok : Bool
  (count arrived : ℕ)
  waits : List ℕ

def Got.status (g : Got) : Status := if g.ok then HSF_OK else HSF_ERR_TIMEOUT

/-- Reading `n` bytes when `arrived` of the `total` bytes on their way have come in: the others
come during the waits, or one of these ends before anything has come. What has come is read
in any case. -/
def gather : List ℕ → ℕ → ℕ → ℕ → Got
  | [],n,arrived,_ => if n ≤ arrived then ⟨true,n,arrived-n,[]⟩ else ⟨false,arrived,0,[]⟩
  | k::ks,n,arrived,total =>
    if n ≤ arrived then ⟨true,n,arrived-n,k::ks⟩
    else if min k (total-arrived) = 0 then ⟨false,arrived,0,ks⟩
    else
      let rest := gather ks (n-arrived) (min k (total-arrived)) (total-arrived)
      { rest with count := arrived+rest.count }

def brings : List ℕ → ℕ → Bool
  | _,0 => true
  | [],_+1 => false
  | k::ks,n+1 => decide (k ≠ 0) && brings ks (n+1-k)

section Gathering
variable (ws : List ℕ) (n arrived total : ℕ)

theorem gather_facts (h : arrived ≤ total) :
    ((gather ws n arrived total).ok = true → (gather ws n arrived total).count = n) ∧
      ((gather ws n arrived total).ok = false → (gather ws n arrived total).count < n ∧
        (gather ws n arrived total).arrived = 0) ∧
      (gather ws n arrived total).count+(gather ws n arrived total).arrived ≤ total := by
  induction ws generalizing n arrived total with
  | nil =>
    by_cases hn : n ≤ arrived
    · simp only [gather,if_pos hn]
      exact ⟨fun _ => trivial,fun hf => by simp at hf,by omega⟩
    · simp only [gather,if_neg hn]
      exact ⟨fun ht => by simp at ht,fun _ => ⟨by omega,trivial⟩,by omega⟩
  | cons k ks ih =>
    by_cases hn : n ≤ arrived
    · simp only [gather,if_pos hn]
      exact ⟨fun _ => trivial,fun hf => by simp at hf,by omega⟩
    · by_cases hk : min k (total-arrived) = 0
      · simp only [gather,if_neg hn,if_pos hk]
        exact ⟨fun ht => by simp at ht,fun _ => ⟨by omega,trivial⟩,by omega⟩
      · obtain ⟨hok,hl,hs⟩ := ih (n-arrived) (min k (total-arrived)) (total-arrived)
          (Nat.min_le_right _ _)
        simp only [gather,if_neg hn,if_neg hk]
        refine ⟨fun ht => ?_,fun hf => ?_,by omega⟩
        · have := hok ht
          omega
        · obtain ⟨hc,hz⟩ := hl hf
          exact ⟨by omega,hz⟩

theorem gather_add (p : ℕ) (h : arrived ≤ total) :
    gather ws (n+p) arrived total =
      let first := gather ws n arrived total
      if first.ok then
        let rest := gather first.waits p first.arrived (total-first.count)
        { rest with count := first.count+rest.count }
      else first := by
  induction ws generalizing n arrived total with
  | nil =>
    by_cases hn : n ≤ arrived
    · by_cases hp : p ≤ arrived-n
      · simp [gather,hn,hp,show n+p ≤ arrived by omega]
        omega
      · simp [gather,hn,hp,show ¬n+p ≤ arrived by omega]
    · simp [gather,hn,show ¬n+p ≤ arrived by omega]
  | cons k ks ih =>
    by_cases hn : n ≤ arrived
    · by_cases hp : p ≤ arrived-n
      · simp [gather,hn,hp,show n+p ≤ arrived by omega]
        omega
      · have ht : total-n-(arrived-n) = total-arrived := by omega
        have hr : n+p-arrived = p-(arrived-n) := by omega
        by_cases hk : min k (total-arrived) = 0
        · simp only [gather,if_pos hn,if_neg hp,if_neg (show ¬n+p ≤ arrived by omega),ht,
            if_pos hk,if_true]
          congr 1
          omega
        · simp only [gather,if_pos hn,if_neg hp,if_neg (show ¬n+p ≤ arrived by omega),ht,
            if_neg hk,if_true,hr]
          congr 1
          omega
    · by_cases hk : min k (total-arrived) = 0
      · simp [gather,hn,hk,show ¬n+p ≤ arrived by omega]
      · have hm := ih (n-arrived) (min k (total-arrived)) (total-arrived) (Nat.min_le_right _ _)
        simp only [gather,if_neg hn,if_neg hk,if_neg (show ¬n+p ≤ arrived by omega)]
        rw [show n+p-arrived = n-arrived+p by omega,hm]
        by_cases hok : (gather ks (n-arrived) (min k (total-arrived)) (total-arrived)).ok = true
        · simp [hok,Nat.add_assoc,Nat.sub_sub]
        · simp [hok]

theorem gather_enough (h : n ≤ arrived) : gather ws n arrived total = ⟨true,n,arrived-n,ws⟩ := by
  cases ws <;> simp [gather,h]

theorem gather_shift (h : arrived < n) :
    gather ws n arrived total =
      { gather ws (n-arrived) 0 (total-arrived) with
        count := arrived+(gather ws (n-arrived) 0 (total-arrived)).count } := by
  have hn : ¬n ≤ arrived := by omega
  have hr : ¬n-arrived ≤ 0 := by omega
  cases ws with
  | nil => simp [gather,hn,hr]
  | cons k ks =>
    by_cases hk : min k (total-arrived) = 0
    · simp [gather,hn,hr,hk]
    · simp [gather,hn,hr,hk]

theorem gather_ok (h : arrived ≤ total) (hn : n ≤ total) :
    (gather ws n arrived total).ok = brings ws (n-arrived) := by
  induction ws generalizing n arrived total with
  | nil =>
    by_cases ha : n ≤ arrived
    · simp [gather,ha,brings]
    · obtain ⟨m,hm⟩ : ∃ m, n-arrived = m+1 := ⟨n-arrived-1,by omega⟩
      simp [gather,ha,hm,brings]
  | cons k ks ih =>
    by_cases ha : n ≤ arrived
    · simp [gather,ha,brings]
    · obtain ⟨m,hm⟩ : ∃ m, n-arrived = m+1 := ⟨n-arrived-1,by omega⟩
      by_cases hk : k = 0
      · simp [gather,ha,hm,brings,hk]
      · have hmn : min k (total-arrived) ≠ 0 := by omega
        have hr := ih (n-arrived) (min k (total-arrived)) (total-arrived)
          (Nat.min_le_right _ _) (by omega)
        rw [hm] at hr
        simp only [gather,if_neg ha,if_neg hmn,hr,hm,brings,hk,ne_eq,
          not_false_eq_true,decide_true,Bool.true_and]
        congr 1
        omega

end Gathering

def Line.gathered (l : Line) (n : ℕ) : Got := gather l.waits n l.arrived l.coming.length

def Line.after (l : Line) (g : Got) : Line :=
  { l with
    coming := l.coming.drop g.count
    arrived := g.arrived
    taken := l.taken++(l.coming.take g.count).map Prod.snd
    waits := g.waits }

section Reading
variable {Buffer D : Type} (reply : ℕ → Bytes → Bytes) (timeoutMs : ℤ) (b : Buffer)
  (base length fuel : ℕ) (data : Bytes) (d : D) (l : Line) (touched : List (Access Buffer))

def nextAccess : Access Buffer := ⟨b,base+data.length,length-data.length⟩

variable {st : Status} {l' : Line}

theorem read_pass (hm : data.length < length) {more : Bytes}
    (hr : l.read (length-data.length) = ((st,more),l')) :
    readExact (Line.vtable reply) timeoutMs b base length (fuel+1) data ⟨d,l,touched⟩ =
      (if st = HSF_AGAIN then do
        let st ← awaitIo (Line.vtable reply) timeoutMs HSF_IO_READ
        if st < 0 then pure (st,data)
        else readExact (Line.vtable reply) timeoutMs b base length fuel data
      else if st < 0 then pure (st,data)
      else if more.take (length-data.length) = [] then pure (HSF_ERR_CLOSED,data)
      else readExact (Line.vtable reply) timeoutMs b base length fuel
        (data++more.take (length-data.length)) : Prog (World Buffer D Line) (Status×Bytes))
        ⟨d,l',nextAccess b base length data::touched⟩ := by
  have hv : (Line.vtable reply).read l (length-data.length) = ((st,more),l') := hr
  rw [readExact,if_neg (by omega)]
  simp only [bind_apply,touch,Program.modify,readSome,call,hv]
  rfl

theorem await_pass {ready : UInt32} (hw : l.wait HSF_IO_READ timeoutMs = ((st,ready),l')) :
    awaitIo (Line.vtable reply) timeoutMs HSF_IO_READ (⟨d,l,touched⟩ : World Buffer D Line) =
      (some (if st < 0 then st
        else if ready &&& HSF_IO_CLOSED ≠ 0 then HSF_ERR_CLOSED
        else if ready &&& HSF_IO_ERROR ≠ 0 then HSF_ERR_IO
        else if ready &&& HSF_IO_READ ≠ 0 then HSF_OK else HSF_ERR_TIMEOUT),⟨d,l',touched⟩) := by
  have hv : (Line.vtable reply).wait l HSF_IO_READ timeoutMs = ((st,ready),l') := hw
  simp only [awaitIo,bind_apply,call,hv]
  rfl

theorem read_some (ho : l.isOpen = true) (hf : l.Fits) (hm : data.length < length)
    (hs : 0 < l.arrived) :
    readExact (Line.vtable reply) timeoutMs b base length (fuel+1) data ⟨d,l,touched⟩ =
      readExact (Line.vtable reply) timeoutMs b base length fuel
        (data++(l.coming.take (min (length-data.length) l.arrived)).map fst)
        ⟨d,l.consume (min (length-data.length) l.arrived),nextAccess b base length data::touched⟩ := by
  have hr : l.read (length-data.length) =
      ((HSF_OK,(l.coming.take (min (length-data.length) l.arrived)).map fst),
        l.consume (min (length-data.length) l.arrived)) := by
    rw [Line.read, if_neg (by simp [ho]), if_neg (by omega)]
  have ht : ((l.coming.take (min (length-data.length) l.arrived)).map fst).length =
      min (length-data.length) l.arrived := by
    unfold Line.Fits at hf
    rw [length_map,length_take]
    omega
  have ha := take_of_length_le (ht.trans_le (Nat.min_le_left _ _))
  rw [read_pass reply _ b base _ fuel data d l _ hm hr,ha,
    if_neg (by decide),if_neg (by decide),if_neg]
  intro hn
  rw [hn,length_nil] at ht
  omega

theorem read_idle (ho : l.isOpen = true) (hn : l.arrived = 0) (count : ℕ) :
    l.read count = ((HSF_AGAIN,[]),l) := by
  rw [Line.read, if_neg (by simp [ho]), if_pos hn]

theorem read_ready (ho : l.isOpen = true) (hm : data.length < length)
    (hn : l.arrived = 0) {k : ℕ} {ks : List ℕ} (hw : l.waits = k::ks)
    (hc : min k l.coming.length ≠ 0) :
    readExact (Line.vtable reply) timeoutMs b base length (fuel+1) data ⟨d,l,touched⟩ =
      readExact (Line.vtable reply) timeoutMs b base length fuel data
        ⟨d,{ l with waits := ks, arrived := min k l.coming.length },
          nextAccess b base length data::touched⟩ := by
  have hwt : l.wait HSF_IO_READ timeoutMs =
      ((HSF_OK,HSF_IO_READ),{ l with waits := ks,arrived := min k l.coming.length }) := by
    rw [Line.wait,if_pos ⟨hn,rfl⟩,hw]
    exact if_neg hc
  rw [read_pass reply _ b base _ fuel data d l _ hm (read_idle l ho hn _),
    if_pos rfl,
    bind_returned (await_pass reply _ d l _ hwt)]
  rfl

theorem read_late (ho : l.isOpen = true) (hm : data.length < length)
    (hn : l.arrived = 0) (hl : ∀ k ks, l.waits = k::ks → min k l.coming.length = 0) :
    readExact (Line.vtable reply) timeoutMs b base length (fuel+1) data ⟨d,l,touched⟩ =
      (some (HSF_ERR_TIMEOUT,data),⟨d,{ l with waits := l.waits.tail },
        nextAccess b base length data::touched⟩) := by
  have hw : l.wait HSF_IO_READ timeoutMs =
      ((HSF_ERR_TIMEOUT,0),{ l with waits := l.waits.tail }) := by
    rw [Line.wait,if_pos ⟨hn,rfl⟩]
    rcases l with ⟨isOpen,coming,arrived,asked,taken,owed,_ | ⟨k,ks⟩,next⟩
    · rfl
    · exact if_pos (hl k ks rfl)
  rw [read_pass reply _ b base _ fuel data d l _ hm (read_idle l ho hn _),
    if_pos rfl,
    bind_returned (await_pass reply _ d l _ hw)]
  rfl

def ReadEnds : Prop :=
  ∃ touched', readExact (Line.vtable reply) timeoutMs b base length fuel data ⟨d,l,touched⟩ =
    (some ((l.gathered (length-data.length)).status,
        data++(l.coming.take (l.gathered (length-data.length)).count).map Prod.fst),
      ⟨d,l.after (l.gathered (length-data.length)),touched'⟩)

theorem read_done (h : length ≤ data.length) :
    ReadEnds reply timeoutMs b base length (fuel+1) data d l touched := by
  refine ⟨touched,?_⟩
  have hn : length-data.length = 0 := by omega
  rw [readExact,if_pos h,Line.gathered,hn,gather_enough _ _ _ _ (Nat.zero_le _)]
  simp [pure_apply,Line.after,Got.status]

theorem read_all (ho : l.isOpen = true) (hf : l.Fits) (hm : data.length < length)
    (ha : length-data.length ≤ l.arrived) :
    ReadEnds reply timeoutMs b base length (fuel+2) data d l touched := by
  have hc : min (length-data.length) l.arrived = length-data.length := Nat.min_eq_left ha
  have hl : ((l.coming.take (length-data.length)).map fst).length =
      length-data.length := by
    unfold Line.Fits at hf
    rw [length_map,length_take]
    omega
  unfold ReadEnds
  rw [read_some reply _ b base _ _ data d l _ ho hf hm
    (by omega), hc, readExact, if_pos (by rw [length_append,hl]; omega),
    Line.gathered, gather_enough _ _ _ _ ha]
  exact ⟨_,rfl⟩

theorem read_part (ho : l.isOpen = true) (hf : l.Fits) (hs : 0 < l.arrived)
    (hp : l.arrived < length-data.length)
    (h : ReadEnds reply timeoutMs b base length fuel
      (data++(l.coming.take l.arrived).map fst) d (l.consume l.arrived)
      (nextAccess b base length data::touched)) :
    ReadEnds reply timeoutMs b base length (fuel+1) data d l touched := by
  have hc : min (length-data.length) l.arrived = l.arrived := Nat.min_eq_right hp.le
  have hl : ((l.coming.take l.arrived).map fst).length = l.arrived := by
    unfold Line.Fits at hf
    rw [length_map,length_take]
    omega
  have hr : length-(data++(l.coming.take l.arrived).map fst).length =
      length-data.length-l.arrived := by
    rw [length_append,hl]
    omega
  obtain ⟨touched',hrd⟩ := h
  refine ⟨touched',?_⟩
  rw [read_some reply _ b base _ fuel data d l _ ho hf (by omega) hs,hc,hrd,hr]
  have hg := gather_shift l.waits (length-data.length) l.arrived l.coming.length hp
  rw [show l.gathered (length-data.length) = _ from hg]
  simp [Line.gathered,Line.after,Line.consume,Got.status,take_add,drop_drop]

theorem read_wait (ho : l.isOpen = true) (hmr : data.length < length)
    (hn : l.arrived = 0) {k : ℕ} {ks : List ℕ} (hw : l.waits = k::ks)
    (hc : min k l.coming.length ≠ 0)
    (h : ReadEnds reply timeoutMs b base length fuel data d
      { l with waits := ks, arrived := min k l.coming.length }
      (nextAccess b base length data::touched)) :
    ReadEnds reply timeoutMs b base length (fuel+1) data d l touched := by
  obtain ⟨touched',hr⟩ := h
  refine ⟨touched',?_⟩
  have hm : ¬length-data.length ≤ 0 := by omega
  have hg : l.gathered (length-data.length) =
      Line.gathered { l with waits := ks, arrived := min k l.coming.length }
        (length-data.length) := by
    simp [Line.gathered,hw,hn,gather,hm,hc]
  rw [read_ready reply _ b base _ fuel data d l _ ho hmr hn hw hc,hr,hg]
  rfl

theorem read_nothing (ho : l.isOpen = true) (hmr : data.length < length)
    (hn : l.arrived = 0) (hl : ∀ k ks, l.waits = k::ks → min k l.coming.length = 0) :
    ReadEnds reply timeoutMs b base length (fuel+1) data d l touched := by
  have hm : ¬length-data.length ≤ 0 := by omega
  have hg : l.gathered (length-data.length) = ⟨false,0,0,l.waits.tail⟩ := by
    cases hw : l.waits with
    | nil => simp [Line.gathered,hw,hn,gather,hm]
    | cons k ks =>
      simp [Line.gathered,hw,hn,gather,hm,hl k ks hw]
  rw [ReadEnds,read_late reply _ b base _ fuel data d l _ ho hmr hn hl,hg]
  exact ⟨nextAccess b base length data::touched,by simp [Got.status,Line.after,hn]⟩

theorem read_exact_from (ho : l.isOpen = true) (hf : l.Fits)
    (hfl : 2*(length-data.length)+1+(if l.arrived = 0 then 1 else 0) ≤ fuel)
    (hw : ∀ l' data' touched' fuel', l'.isOpen = true → l'.Fits → l'.arrived = 0 →
      l'.waits = l.waits → data'.length < length → 2*(length-data'.length)+1 ≤ fuel' →
      ReadEnds reply timeoutMs b base length (fuel'+1) data' d l' touched') :
    ReadEnds reply timeoutMs b base length fuel data d l touched := by
  by_cases hd : length ≤ data.length
  · obtain ⟨fuel,rfl⟩ : ∃ m, fuel = m+1 := ⟨fuel-1,by omega⟩
    exact read_done reply _ b base _ fuel data d l _ hd
  by_cases hn : l.arrived = 0
  · rw [if_pos hn] at hfl
    obtain ⟨fuel,rfl⟩ : ∃ m, fuel = m+1 := ⟨fuel-1,by omega⟩
    exact hw l data touched fuel ho hf hn rfl (by omega) (by omega)
  obtain ⟨fuel,rfl⟩ : ∃ m, fuel = m+2 := ⟨fuel-2,by omega⟩
  by_cases ha : length-data.length ≤ l.arrived
  · exact read_all reply _ b base _ fuel data d l _ ho hf (by omega) ha
  · refine read_part reply _ b base _ _ data d l _ ho hf (by omega) (by omega) ?_
    have hl : (data++(l.coming.take l.arrived).map fst).length =
        data.length+l.arrived := by
      unfold Line.Fits at hf
      rw [length_append,length_map,length_take]
      omega
    rw [if_neg hn] at hfl
    refine hw _ _ _ _ ho ?_ (Nat.sub_self _) rfl (by omega) (by omega)
    simp [Line.Fits,Line.consume]

/-- Over such a connection a driver reads what comes in, and it does come to an end. -/
theorem read_exact_line (hop : l.isOpen = true) (hf : l.Fits)
    (hfl : 2*(length-data.length)+1+(if l.arrived = 0 then 1 else 0) ≤ fuel) :
    ReadEnds reply timeoutMs b base length fuel data d l touched := by
  generalize hws : l.waits = ws
  induction ws generalizing l data fuel touched with
  | nil =>
    refine read_exact_from reply _ b base _ fuel data d l _ hop hf hfl ?_
    intro l' data' touched' fuel' ho _ hn hw hm _
    refine read_nothing reply _ b base _ fuel' data' d l' _ ho hm hn ?_
    intro k ks hc
    rw [hw,hws] at hc
    cases hc
  | cons k ks ih =>
    refine read_exact_from reply _ b base _ fuel data d l _ hop hf hfl ?_
    intro l' data' touched' fuel' ho _ hn hw hm hl
    rw [hws] at hw
    by_cases hcm : min k l'.coming.length = 0
    · refine read_nothing reply _ b base _ fuel' data' d l' _ ho hm hn ?_
      intro k' ks' hc
      rw [hw] at hc
      cases hc
      exact hcm
    · refine read_wait reply _ b base _ fuel' data' d l' _ ho hm hn hw hcm ?_
      refine ih fuel' data' _ _ ho (Nat.min_le_right _ _) ?_ rfl
      rw [if_neg hcm]
      exact hl

end Reading

namespace Line

section Parts
variable (l : Line) (n p : ℕ) (h : l.Fits)
include h

theorem after_fits : (l.after (l.gathered n)).Fits := by
  have hs := (gather_facts l.waits n _ _ h).2.2
  simp only [Fits,after,gathered,length_drop]
  omega

theorem gathered_ok (hn : n ≤ l.coming.length) : (l.gathered n).ok = brings l.waits (n-l.arrived) :=
  gather_ok _ n _ _ h hn

theorem gathered_then (hok : (l.gathered n).ok = true) :
    (l.gathered (n+p)).ok = ((l.after (l.gathered n)).gathered p).ok ∧
      l.after (l.gathered (n+p)) =
        (l.after (l.gathered n)).after ((l.after (l.gathered n)).gathered p) := by
  have ha := gather_add l.waits n _ _ p h
  have hs : (l.after (l.gathered n)).gathered p = gather (l.gathered n).waits p
      (l.gathered n).arrived (l.coming.length-(l.gathered n).count) := by
    simp [gathered,after]
  rw [show gather l.waits n l.arrived l.coming.length = l.gathered n from rfl,if_pos hok,
    ← hs] at ha
  rw [show l.gathered (n+p) = _ from ha]
  simp [after,take_add,drop_drop]

theorem gathered_late (hl : (l.gathered n).ok = false) : l.gathered (n+p) = l.gathered n := by
  have ha := gather_add l.waits n _ _ p h
  rw [show gather l.waits n l.arrived l.coming.length = l.gathered n from rfl,
    if_neg (by simp [hl])] at ha
  exact ha

end Parts

def Settled (l : Line) : Prop := l.coming = [] ∧ l.arrived = 0

theorem Settled.fits {l : Line} (h : l.Settled) : l.Fits := by
  simp [Fits,h.2]

theorem sent_fits {l : Line} (reply : Bytes) (h : l.Fits) : (l.sent reply).Fits := by
  unfold Fits at h ⊢
  simp only [sent,length_append]
  omega

theorem sent_length (l : Line) (reply : Bytes) (h : l.Settled) :
    (l.sent reply).coming.length = reply.length := by
  simp [sent,h.1]

theorem read_reply {l : Line} (reply : Bytes) (h : l.Settled) :
    ((l.sent reply).after ((l.sent reply).gathered reply.length)).Settled ↔
      brings l.waits reply.length = true := by
  have hf := sent_fits reply h.fits
  have hl := sent_length l reply h
  have hok := gathered_ok _ _ hf hl.ge
  have hn : (l.sent reply).arrived = 0 := h.2
  obtain ⟨ha,hlt,hsm⟩ := gather_facts _ _ _ _ hf
  rw [hn,Nat.sub_zero,show (l.sent reply).waits = l.waits from rfl] at hok
  rw [← hok]
  constructor
  · intro hs
    by_contra hnt
    obtain ⟨hc,_⟩ := hlt (by simpa [gathered] using hnt)
    have hd := congrArg List.length hs.1
    simp only [after,gathered,length_drop,length_nil] at hd
    omega
  · intro hr
    have hc := ha hr
    refine ⟨?_,?_⟩
    · simp only [after,gathered,hc]
      exact drop_of_length_le hl.le
    · simp only [after,gathered]
      omega

end Line

/-- Something was read since the last request, and all of it answers this request. -/
def Line.Own (l : Line) : Prop := l.taken ≠ [] ∧ ∀ n ∈ l.taken, n+1 = l.asked

instance decidableOwn (l : Line) : Decidable l.Own := by
  unfold Line.Own
  infer_instance

def Line.AtBoundary (l : Line) : Prop := l.isOpen = false ∨ l.Settled

instance decidableAtBoundary (l : Line) : Decidable l.AtBoundary := by
  unfold Line.AtBoundary Line.Settled
  infer_instance

def Line.start (next : List (Option (List ℕ))) : Line := ⟨false,[],0,0,[],0,[],next⟩

section Calls
variable {Buffer D : Type} (reply : ℕ → Bytes → Bytes) (d : D) (l : Line)

theorem read_line (ms : ℤ) (b : Buffer) (base length fuel : ℕ) (ho : l.isOpen = true)
    (hf : l.Fits) (hfl : 2*length+2 ≤ fuel) :
    Goes (readExact (Line.vtable reply) ms b base length fuel []) d l
      ((l.gathered length).status,(l.coming.take (l.gathered length).count).map fst) d
      (l.after (l.gathered length)) := by
  intro hit
  have hr := read_exact_line reply ms b base _ fuel [] d l hit ho hf
    (by rw [length_nil,Nat.sub_zero]; split_ifs <;> omega)
  simpa only [ReadEnds,length_nil,Nat.sub_zero,nil_append] using hr

theorem write_line (ms : ℤ) (b : Buffer) (data : Bytes) (fuel : ℕ)
    (ho : l.isOpen = true) (hd : data ≠ []) :
    Goes (writeAll (Line.vtable reply) ms b data (fuel+2) 0) d l HSF_OK d
      (l.sent (reply l.asked data)) := by
  intro hit
  have hl := length_pos_iff.mpr hd
  have hw : (Line.vtable reply).write l data =
      ((HSF_OK,data.length),l.sent (reply l.asked data)) := if_neg (by simp [ho])
  refine ⟨⟨b,0,data.length⟩::hit,?_⟩
  rw [writeAll,if_neg (by omega)]
  simp only [bind_apply,touch,Program.modify,writeSome,call,drop_zero,hw,Nat.min_self,Nat.zero_add]
  rw [if_neg (by decide),if_neg (by decide),if_neg (by omega),writeAll,if_pos le_rfl]
  rfl

def Line.ensured (l : Line) : Status×Line := if l.isOpen then (HSF_OK,l) else l.openLink

theorem ensure_open_line :
    Goes (ensureTransportOpen (Line.vtable reply) true : Prog (World Buffer D Line) Status) d l
      l.ensured.1 d l.ensured.2 := by
  refine fun hit => ⟨hit,?_⟩
  by_cases ho : l.isOpen = true
  · simp [ensureTransportOpen,bind_apply,linkOpen,ask,Line.vtable,Line.ensured,ho,pure_apply]
  · have hs : l.openLink.1 ≠ HSF_ERR_ALREADY_OPEN := by
      rw [Line.openLink,if_neg ho]
      split <;> simp
    simp [ensureTransportOpen,bind_apply,linkOpen,ask,Line.vtable,Line.ensured,ho,
      pure_apply,call,hs]

/-- Either there is a connection afterwards, at a boundary if the one before was, or there is
none. -/
theorem Line.ensured_cases (l : Line) (h : l.AtBoundary) :
    l.ensured.2.asked = l.asked ∧
      (l.ensured.1 = HSF_OK ∧ l.ensured.2.isOpen = true ∧ l.ensured.2.Settled ∨
        l.ensured.1 < 0 ∧ l.ensured.2.isOpen = false) := by
  by_cases ho : l.isOpen = true
  · have hs : l.Settled := h.resolve_left (by simp [ho])
    rw [ensured,if_pos ho]
    exact ⟨rfl,.inl ⟨rfl,ho,hs⟩⟩
  · rw [ensured,if_neg ho,openLink,if_neg ho]
    rcases l.next with _ | ⟨_ | waits,next⟩
    · exact ⟨rfl,.inr ⟨show HSF_ERR_IO < 0 by decide,by simpa using ho⟩⟩
    · exact ⟨rfl,.inr ⟨show HSF_ERR_IO < 0 by decide,by simpa using ho⟩⟩
    · exact ⟨rfl,.inl ⟨rfl,rfl,rfl,rfl⟩⟩

theorem close_line :
    Goes (closeLink (Line.vtable reply) : Prog (World Buffer D Line) Unit) d l () d l.close :=
  fun hit => ⟨hit,rfl⟩

end Calls

end EMaster.LatePeer
