import Mathlib

/-!
# Frames cut out of a stream

A receiver collects the pieces of a stream in a buffer and cuts off the first frame as
soon as it is complete. How long the frame is, is predicted from the bytes seen so far. A
prediction that further bytes do not change, and that the bytes of the frame suffice for,
makes the frames that are cut independent of how the stream came in pieces.
-/

set_option autoImplicit false

namespace EMaster.Framing
open List

structure Predictor (α : Type*) where
  size : List α → ℕ
  settled : ∀ a b, 0 < size a → size (a++b) = size a
  own : ∀ a, 0 < size a → size a ≤ a.length → size (a.take (size a)) = size a

variable {α : Type*} (p : Predictor α)

def IsFrame (f : List α) : Prop := p.size f = f.length ∧ f ≠ []

/-- One pass of the receiver: the frame it cuts off, if any, and the buffer after it. -/
def feed (buffer piece : List α) : Option (List α)×List α :=
  let bytes := buffer++piece
  if 0 < p.size bytes ∧ p.size bytes ≤ bytes.length then
    (some (bytes.take (p.size bytes)),bytes.drop (p.size bytes))
  else (none,bytes)

def taken (buffer : List α) : List (List α) → List (List α)
  | [] => []
  | piece::pieces =>
    (feed p buffer piece).1.toList++taken (feed p buffer piece).2 pieces

def left (buffer : List α) : List (List α) → List α
  | [] => buffer
  | piece::pieces => left (feed p buffer piece).2 pieces

def first (buffer : List α) : List (List α) → Option (List α)
  | [] => none
  | piece::pieces =>
    match feed p buffer piece with
    | (some frame,_) => some frame
    | (none,rest) => first rest pieces

variable {p} {f : List α} (buf : List α) {fs : List (List α)}

theorem frame_pos (hf : IsFrame p f) : 0 < p.size f := by
  rw [hf.1]
  exact length_pos_iff.mpr hf.2

theorem size_of_frame (hf : IsFrame p f) (rest : List α) : p.size (f++rest) = f.length := by
  rw [p.settled f rest (frame_pos hf),hf.1]

variable {rest : List α}

theorem frame_unique {g : List α} {rest' : List α} (hf : IsFrame p f) (hg : IsFrame p g)
    (h : f++rest = g++rest') : f = g ∧ rest = rest' := by
  have hl : f.length = g.length := by
    rw [← size_of_frame hf rest,h,size_of_frame hg]
  exact append_inj h hl

variable {piece : List α}

theorem feed_frame {buf : List α} (hf : IsFrame p f) (h : buf++piece = f++rest) :
    feed p buf piece = (some f,rest) := by
  have hs := size_of_frame hf rest
  have hp := length_pos_iff.mpr hf.2
  simp only [feed]
  rw [h, if_pos ⟨by omega,by rw [hs,length_append]; omega⟩, hs]
  simp

theorem whole_framed {a : List α} (hp : 0 < p.size a) (hf : p.size a ≤ a.length) :
    IsFrame p (a.take (p.size a)) := by
  have hl : (a.take (p.size a)).length = p.size a := by
    rw [length_take]
    omega
  refine ⟨by rw [p.own a hp hf,hl],?_⟩
  rw [← length_pos_iff,hl]
  exact hp

theorem feed_waits {buf : List α} (h : ∀ f rest, IsFrame p f → buf++piece ≠ f++rest) :
    feed p buf piece = (none,buf++piece) := by
  simp only [feed]
  rw [if_neg]
  rintro ⟨hp,hf⟩
  exact h _ _ (whole_framed hp hf) (take_append_drop (p.size (buf++piece)) (buf++piece)).symm

/-- A pass cuts off the frame the bytes begin with, and nothing if they begin with none. -/
theorem feed_cases (piece : List α) :
    (∃ f rest, IsFrame p f ∧ buf++piece = f++rest ∧ feed p buf piece = (some f,rest)) ∨
    (∀ f rest, IsFrame p f → buf++piece ≠ f++rest) ∧ feed p buf piece = (none,buf++piece) := by
  by_cases h : ∃ f rest, IsFrame p f ∧ buf++piece = f++rest
  · obtain ⟨f,rest,hf,hb⟩ := h
    exact .inl ⟨f,rest,hf,hb,feed_frame hf hb⟩
  · have hn : ∀ f rest, IsFrame p f → buf++piece ≠ f++rest := fun f rest hf hb => h ⟨f,rest,hf,hb⟩
    exact .inr ⟨hn,feed_waits hn⟩

theorem feed_part {part more : List α} (hf : IsFrame p f) (h : f = part++more) (hm : more ≠ []) :
    feed p [] part = (none,part) := by
  apply feed_waits
  intro g rest hg hp
  have hs : f++[] = g++(rest++more) := by
    rw [append_nil,h,← append_assoc,← hp,nil_append]
  obtain ⟨_,he⟩ := frame_unique hf hg hs
  exact hm (append_eq_nil_iff.mp he.symm).2

theorem taken_append (ps qs : List (List α)) :
    taken p buf (ps++qs) = taken p buf ps++taken p (left p buf ps) qs := by
  induction ps generalizing buf with
  | nil => rfl
  | cons piece ps ih => rw [cons_append,taken,taken,left,ih,append_assoc]

theorem left_append (ps qs : List (List α)) : left p buf (ps++qs) = left p (left p buf ps) qs := by
  induction ps generalizing buf with
  | nil => rfl
  | cons piece ps ih => exact ih _

variable (pieces : List (List α))

/-- Nothing is lost: the frames cut off and the buffer make up what came in. -/
theorem taken_flatten :
    buf++pieces.flatten = (taken p buf pieces).flatten++left p buf pieces ∧
      ∀ f ∈ taken p buf pieces, IsFrame p f := by
  induction pieces generalizing buf with
  | nil => simp [taken,left]
  | cons piece pieces ih =>
    rw [taken,left,flatten_cons,← append_assoc]
    obtain ⟨f,rest,hf,hb,hfd⟩ | ⟨_,hfd⟩ := feed_cases (p := p) buf piece
    · obtain ⟨hfl,ha⟩ := ih rest
      rw [hfd,hb,append_assoc,hfl]
      exact ⟨by simp,by simpa [hf] using ha⟩
    · obtain ⟨hfl,ha⟩ := ih (buf++piece)
      rw [hfd,hfl]
      exact ⟨by simp,by simpa using ha⟩

theorem frames_of_flatten {gs fs : List (List α)} (hg : ∀ g ∈ gs, IsFrame p g)
    (hf : ∀ f ∈ fs, IsFrame p f) (h : gs.flatten++rest = fs.flatten) :
    gs = fs.take gs.length ∧ rest = (fs.drop gs.length).flatten := by
  induction gs generalizing fs with
  | nil => simpa using h
  | cons g gs ih =>
    have hfr := hg g mem_cons_self
    cases fs with
    | nil =>
      simp only [flatten_cons,flatten_nil,append_eq_nil_iff] at h
      exact absurd h.1.1 hfr.2
    | cons f fs =>
      rw [flatten_cons,flatten_cons,append_assoc] at h
      obtain ⟨rfl,hr⟩ := frame_unique hfr (hf f mem_cons_self) h
      obtain ⟨ht,hd⟩ := ih (fun x hx => hg x (mem_cons_of_mem g hx))
        (fun x hx => hf x (mem_cons_of_mem g hx)) hr
      rw [length_cons,take_succ_cons,drop_succ_cons,← ht,← hd]
      exact ⟨rfl,rfl⟩

/-- Of a stream of frames, however it is cut, the first ones are taken and the others are
what is left with the pieces to come. -/
theorem taken_of_frames (hf : ∀ f ∈ fs, IsFrame p f) (buf : List α) (ps qs : List (List α))
    (h : buf++(ps++qs).flatten = fs.flatten) :
    ∃ k, taken p buf ps = fs.take k ∧ left p buf ps++qs.flatten = (fs.drop k).flatten := by
  obtain ⟨hfl,ha⟩ := taken_flatten (p := p) buf ps
  have hs : (taken p buf ps).flatten++(left p buf ps++qs.flatten) = fs.flatten := by
    rw [← h,flatten_append,← append_assoc buf,hfl,append_assoc]
  exact ⟨_,frames_of_flatten ha hf hs⟩

theorem feed_nil : feed p [] [] = (none,[]) := by
  apply feed_waits
  intro f rest hf hn
  exact hf.2 (append_eq_nil_iff.mp hn.symm).1

theorem idle_taken (hf : ∀ f ∈ fs, IsFrame p f) (n : ℕ) (hn : fs.length ≤ n) :
    taken p fs.flatten (List.replicate n []) = fs ∧ left p fs.flatten (List.replicate n []) = [] := by
  induction n generalizing fs with
  | zero =>
    obtain rfl := length_eq_zero_iff.mp (Nat.le_zero.mp hn)
    exact ⟨rfl,rfl⟩
  | succ n ih =>
    rw [replicate_succ,taken,left]
    cases fs with
    | nil =>
      rw [flatten_nil,feed_nil]
      exact @ih [] (by simp) (Nat.zero_le n)
    | cons f fs =>
      have hfr : (f::fs).flatten++[] = f++fs.flatten := by simp
      rw [feed_frame (hf f mem_cons_self) hfr]
      obtain ⟨ht,hl⟩ := ih (fun g hg => hf g (mem_cons_of_mem f hg)) (Nat.le_of_succ_le_succ hn)
      exact ⟨by rw [ht]; rfl,hl⟩

/-- All frames are taken, each once and in order, and the buffer runs empty. -/
theorem all_taken (hf : ∀ f ∈ fs, IsFrame p f) (pieces : List (List α))
    (h : pieces.flatten = fs.flatten) (n : ℕ) (hn : fs.length ≤ n) :
    taken p [] (pieces++List.replicate n []) = fs ∧
      left p [] (pieces++List.replicate n []) = [] := by
  obtain ⟨k,ht,hl⟩ := taken_of_frames hf [] pieces [] (by simpa using h)
  rw [flatten_nil,append_nil] at hl
  have hlt : ∀ f ∈ fs.drop k, IsFrame p f := fun f hm => hf f (mem_of_mem_drop hm)
  obtain ⟨hr,he⟩ := idle_taken hlt n (by rw [length_drop]; omega)
  rw [taken_append,left_append,ht,hl,hr,he]
  exact ⟨take_append_drop k fs,rfl⟩

theorem whole_taken (hf : ∀ f ∈ fs, IsFrame p f) : taken p [] fs = fs ∧ left p [] fs = [] := by
  induction fs with
  | nil => exact ⟨rfl,rfl⟩
  | cons f fs ih =>
    have hfr : []++f = f++[] := by simp
    obtain ⟨ht,hl⟩ := ih (fun g hg => hf g (mem_cons_of_mem f hg))
    rw [taken,left,feed_frame (hf f mem_cons_self) hfr,ht,hl]
    exact ⟨rfl,rfl⟩

theorem waits_short (hf : ∀ f ∈ fs, IsFrame p f) {buf : List α} {ps : List (List α)}
    {qs : List (List α)} (h : buf++(ps++piece::qs).flatten = fs.flatten)
    (hw : (feed p (left p buf ps) piece).1 = none) :
    left p buf ps++piece = [] ∨ ∃ f ∈ fs, (left p buf ps++piece).length < f.length := by
  obtain ⟨k,_,hl⟩ := taken_of_frames hf buf ps (piece::qs) h
  rw [flatten_cons,← append_assoc] at hl
  cases hd : fs.drop k with
  | nil =>
    rw [hd,flatten_nil] at hl
    exact .inl (append_eq_nil_iff.mp hl).1
  | cons f rest =>
    have hm : f ∈ fs := mem_of_mem_drop (hd ▸ mem_cons_self)
    rw [hd,flatten_cons] at hl
    refine .inr ⟨f,hm,?_⟩
    by_contra hln
    obtain ⟨more,hmr⟩ := prefix_of_prefix_length_le (prefix_append f rest.flatten)
      (hl ▸ prefix_append _ qs.flatten) (not_lt.mp hln)
    rw [feed_frame (hf f hm) hmr.symm] at hw
    cases hw

theorem empty_taken (h : pieces.flatten = []) : taken p [] pieces = [] ∧ left p [] pieces = [] := by
  induction pieces with
  | nil => exact ⟨rfl,rfl⟩
  | cons piece pieces ih =>
    rw [flatten_cons,append_eq_nil_iff] at h
    rw [taken,left,h.1,feed_nil]
    exact ih h.2

/-- A frame that arrives after a part of it was waited for is taken once it is whole. -/
theorem frame_taken (hf : IsFrame p f) (buf : List α) (pieces : List (List α))
    (h : buf++pieces.flatten = f) (hs : buf ≠ f) :
    taken p buf pieces = [f] ∧ left p buf pieces = [] := by
  induction pieces generalizing buf with
  | nil => exact absurd (by simpa using h) hs
  | cons piece pieces ih =>
    rw [taken,left]
    obtain ⟨g,rest,hg,hb,hfd⟩ | ⟨hn,hfd⟩ := feed_cases (p := p) buf piece
    · have hsp : g++(rest++pieces.flatten) = f++[] := by
        rw [← append_assoc,← hb,append_nil,← h,flatten_cons,append_assoc]
      obtain ⟨rfl,he⟩ := frame_unique hg hf hsp
      rw [append_eq_nil_iff] at he
      obtain ⟨ht,hl⟩ := empty_taken (p := p) pieces he.2
      rw [hfd,he.1,ht,hl]
      exact ⟨rfl,rfl⟩
    · rw [hfd]
      apply ih (buf++piece)
      · rw [← h,flatten_cons,append_assoc]
      · intro hw
        exact hn f [] hf (by rw [hw,append_nil])

theorem first_taken : first p buf pieces = (taken p buf pieces).head? := by
  induction pieces generalizing buf with
  | nil => rfl
  | cons piece pieces ih =>
    rw [first,taken]
    obtain ⟨f,rest,_,_,hf⟩ | ⟨_,hf⟩ := feed_cases (p := p) buf piece
    · rw [hf]
      rfl
    · rw [hf]
      exact ih (buf++piece)

end EMaster.Framing
