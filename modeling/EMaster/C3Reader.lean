import EMaster.C3Session

/-!
# Frames out of the stream of the panel

Each call reads pieces until a frame is whole or its time is up. What it has not taken stays for
the next call, in the client or in the socket.
-/

set_option autoImplicit false

namespace EMaster.C3
open Framing Runs List

structure Reader where
  carry : Bytes := []
  waiting : List Bytes := []
  frames : List Bytes := []

def Piece (piece : Bytes) : Prop := 1 ≤ piece.length ∧ piece.length ≤ 4096

namespace Reader

def read (s : Reader) (pieces : List Bytes) : Read := readOneFrame s.carry (s.waiting++pieces)

/-- A call during which these pieces come in. -/
def call (s : Reader) (pieces : List Bytes) : Reader :=
  ⟨(s.read pieces).carry,(s.read pieces).unread,s.frames++(s.read pieces).reply.toList⟩

def left (s : Reader) : Bytes := s.carry++s.waiting.flatten

structure Bounded (s : Reader) : Prop where
  carry : s.carry.length ≤ 65542+4096
  waiting : ∀ piece ∈ s.waiting, Piece piece

end Reader

/-- A call reads only while there is no whole frame, so at most 65542 bytes are carried then. -/
theorem read_bounded {carry : Bytes} {chunks : List Bytes} (h : carry.length ≤ 65542+4096)
    (hp : ∀ piece ∈ chunks, Piece piece) :
    (readOneFrame carry chunks).ended ≠ .overflow ∧
      ((readOneFrame carry chunks).reply.getD []++(readOneFrame carry chunks).carry).length ≤
        65542+4096 ∧ ∀ piece ∈ (readOneFrame carry chunks).unread, Piece piece := by
  induction chunks generalizing carry with
  | nil =>
    rw [readOneFrame.eq_def]
    split_ifs
    · simpa [Read.reply] using h
    · simpa [Read.reply] using h
  | cons chunk chunks ih =>
    rw [readOneFrame]
    split_ifs with hs ho
    · exact ⟨by simp,by simpa [Read.reply] using h,hp⟩
    all_goals
      have hc := (hp chunk mem_cons_self).2
      have hw := (Bytes.wordOf (carry.getD 3 0) (carry.getD 4 0)).toNat_lt
      rw [frameSize,lengthField] at hs
      have hb : (carry++chunk).length ≤ 65542+4096 := by
        rw [length_append]
        split_ifs at hs <;> omega
    · omega
    · exact ih hb fun piece hm => hp piece (mem_cons_of_mem _ hm)

section
variable {s : Reader} {pieces : List Bytes} {more : Bytes}

theorem bounded_call (h : s.Bounded) (hp : ∀ piece ∈ pieces, Piece piece) :
    (s.call pieces).Bounded := by
  obtain ⟨_,hl,hu⟩ := read_bounded h.carry (forall_mem_append.mpr ⟨h.waiting,hp⟩)
  rw [length_append] at hl
  exact ⟨le_of_add_le_right hl,hu⟩

theorem call_effect (h : s.Bounded) (hp : ∀ piece ∈ pieces, Piece piece) {f rest : Bytes}
    (hf : IsFrame panelFrames f) (hs : s.left++pieces.flatten++more = f++rest) :
    if f.length ≤ (s.left++pieces.flatten).length then
      (s.call pieces).frames = s.frames++[f] ∧ (s.call pieces).left++more = rest
    else (s.call pieces).frames = s.frames ∧ (s.call pieces).left++more = f++rest := by
  have hl : s.left++pieces.flatten = s.carry++(s.waiting++pieces).flatten := by
    simp [Reader.left]
  rw [hl] at hs ⊢
  have hr := read_stream _ hf (fun c hc => (forall_mem_append.mpr ⟨h.waiting,hp⟩ c hc).2) ⟨more,hs⟩
  split_ifs at hr ⊢ 
  · obtain ⟨r,unread,hr,he⟩ := hr
    rw [Reader.call,Reader.read,hr]
    rw [he,append_assoc] at hs
    exact ⟨rfl,append_cancel_left hs⟩
  · rw [Reader.call,Reader.read,hr]
    exact ⟨append_nil _,by rw [← hs]; simp [Reader.left]⟩

theorem call_none (h : s.Bounded) (hp : ∀ piece ∈ pieces, Piece piece)
    (hs : s.left++pieces.flatten = []) :
    (s.call pieces).frames = s.frames ∧ (s.call pieces).left = [] := by
  rw [Reader.left,append_assoc,← flatten_append] at hs
  obtain ⟨hc,hw⟩ := append_eq_nil_iff.mp hs
  have hn : s.waiting++pieces = [] := eq_nil_iff_forall_not_mem.mpr fun piece hm => by
    have hl := (forall_mem_append.mpr ⟨h.waiting,hp⟩ piece hm).1
    rw [flatten_eq_nil_iff.mp hw piece hm] at hl
    cases hl
  rw [Reader.call,Reader.read,hc,hn]
  exact ⟨append_nil _,rfl⟩

/-- What was returned and what is still to come are all frames that were sent. -/
def Reader.Keeps (fs : List Bytes) (more : Bytes) (s : Reader) : Prop :=
  s.Bounded ∧ ∃ rest, s.frames++rest = fs ∧ s.left++more = rest.flatten

variable {fs : List Bytes} (hf : ∀ f ∈ fs, IsFrame panelFrames f)
include hf

theorem keeps_call (hp : ∀ piece ∈ pieces, Piece piece) (h : s.Keeps fs (pieces.flatten++more)) :
    (s.call pieces).Keeps fs more := by
  obtain ⟨hb,rest,hr,hl⟩ := h
  refine ⟨bounded_call hb hp,?_⟩
  rw [← append_assoc] at hl
  cases rest with
  | nil =>
    obtain ⟨hs,rfl⟩ := append_eq_nil_iff.mp hl
    obtain ⟨he,hn⟩ := call_none hb hp hs
    exact ⟨[],he ▸ hr,by rw [hn]; rfl⟩
  | cons f rest =>
    have he := call_effect hb hp (hf f (hr ▸ by simp)) hl
    split_ifs at he
    · exact ⟨rest,by rw [he.1,append_assoc]; exact hr,he.2⟩
    · exact ⟨f::rest,he.1 ▸ hr,he.2⟩

theorem keeps_run {calls : List (List Bytes)} (hp : ∀ piece ∈ calls.flatten, Piece piece)
    (h : s.Keeps fs (calls.flatten.flatten++more)) : (run Reader.call s calls).Keeps fs more := by
  induction calls generalizing s with
  | nil => exact h
  | cons pieces calls ih =>
    obtain ⟨hp,ha⟩ := forall_mem_append.mp hp
    refine ih ha (keeps_call hf hp ?_)
    simpa using h

/-- Once everything has come in, each call returns a frame until there is none left. -/
theorem idle_run (n : ℕ) {rest : List Bytes} (hn : rest.length ≤ n) (hb : s.Bounded)
    (hr : s.frames++rest = fs) (hl : s.left = rest.flatten) :
    (run Reader.call s (replicate n [])).frames = fs := by
  induction n generalizing s rest with
  | zero =>
    obtain rfl := length_eq_zero_iff.mp (Nat.le_zero.mp hn)
    exact (append_nil _).symm.trans hr
  | succ n ih =>
    have hp : ∀ piece ∈ ([] : List Bytes), Piece piece := by simp
    cases rest with
    | nil =>
      obtain ⟨he,hs⟩ := call_none hb hp (by simpa using hl)
      exact @ih _ [] (Nat.zero_le n) (bounded_call hb hp) (he ▸ hr) hs
    | cons f rest =>
      have hs : s.left++([] : List Bytes).flatten++[] = f++rest.flatten := by simpa using hl
      have he := call_effect hb hp (hf f (hr ▸ by simp)) hs
      rw [if_pos (by simp [hl])] at he
      exact ih (Nat.le_of_succ_le_succ hn) (bounded_call hb hp)
        (by rw [he.1,append_assoc]; exact hr) (by simpa using he.2)

end

theorem bounded_run {calls : List (List Bytes)} (hp : ∀ piece ∈ calls.flatten, Piece piece) :
    (run Reader.call {} calls).Bounded :=
  run_invariant _ (fun _ ps => ∀ piece ∈ ps, Piece piece) _ (fun _ _ h hp => bounded_call h hp) _ _
    ⟨by simp,by simp⟩ (meets_of_forall _ _ _ _ fun ps hm _ piece h =>
      hp piece (mem_flatten.mpr ⟨ps,hm,h⟩))

/-- However the frames of the panel come in, and wherever a call gives up in between, the calls
return these frames and nothing else. Of any bytes at all, what a call holds before it cuts off its
frame stays far below the bound at which it would be discarded. -/
theorem frames_reassembled :
    (∀ fs : List Bytes, (∀ f ∈ fs, IsFrame panelFrames f) → ∀ calls : List (List Bytes),
      (∀ piece ∈ calls.flatten, Piece piece) → calls.flatten.flatten = fs.flatten →
        (∀ n, (run Reader.call {} (calls.take n)).frames <+: fs) ∧
        ∀ n ≥ fs.length, (run Reader.call {} (calls++replicate n [])).frames = fs) ∧
    ∀ (calls : List (List Bytes)) (pieces : List Bytes),
      (∀ piece ∈ (calls++[pieces]).flatten, Piece piece) →
        let r := (run Reader.call {} calls).read pieces
        r.ended ≠ .overflow ∧ (r.reply.getD []++r.carry).length ≤ 65542+4096 := by
  constructor
  · intro fs hf calls hp hs
    have hk (ps qs : List (List Bytes)) (h : ps++qs = calls) :
        (run Reader.call {} ps).Keeps fs qs.flatten.flatten := by
      subst h
      refine keeps_run hf (fun piece hm => hp piece (by simp [hm])) ⟨⟨by simp,by simp⟩,fs,rfl,?_⟩
      simpa [Reader.left] using hs
    constructor
    · intro n
      obtain ⟨_,rest,hr,_⟩ := hk _ _ (take_append_drop n calls)
      exact ⟨rest,hr⟩
    · intro n hn
      obtain ⟨hb,rest,hr,hl⟩ := hk _ [] (append_nil calls)
      rw [run_append]
      refine idle_run hf n (le_trans ?_ hn) hb hr (by simpa using hl)
      rw [← hr,length_append]
      exact Nat.le_add_left _ _
  · intro calls pieces hp
    rw [flatten_append,forall_mem_append] at hp
    have hb := bounded_run hp.1
    obtain ⟨ho,hl,_⟩ := read_bounded hb.carry (forall_mem_append.mpr ⟨hb.waiting,by simpa using hp.2⟩)
    exact ⟨ho,hl⟩

def firstReply : Bytes := encodeFrame kReplyOk 1 0 [7] true
def secondReply : Bytes := encodeFrame kReplyError 1 1 [] true

/-- A call gives up in the first frame, and the second comes in with the end of it. -/
theorem split_frames_reassembled :
    (run Reader.call {} ([[firstReply.take 3],[firstReply.drop 3++secondReply.take 4],
        [secondReply.drop 4]]++replicate 2 [])).frames = [firstReply,secondReply] := by
  refine (frames_reassembled.1 [firstReply,secondReply] ?_ [[firstReply.take 3],
    [firstReply.drop 3++secondReply.take 4],[secondReply.drop 4]] ?_ ?_).2 2 le_rfl
  · intro f hf
    obtain rfl | rfl := by simpa using hf
    · exact encoded_framed _ _ _ (by decide)
    · exact encoded_framed _ _ _ (by decide)
  · unfold Piece
    decide +kernel
  · decide +kernel

end EMaster.C3
