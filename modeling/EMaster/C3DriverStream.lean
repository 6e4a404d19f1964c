import EMaster.C3Driver
import EMaster.LatePeer
import EMaster.Runs

/-!
# Late replies to the native C3 driver

The replies of a C3 panel do not name the request that they answer. After a command has timed
out for the second time the driver keeps the connection, and the late reply is the first one
that is read after the next request.
-/

set_option autoImplicit false

namespace EMaster.C3Driver
open Bytes Program Transport LatePeer List
open C3 (crc16 kFrameStart kFrameEnd kReplyOk kReplyError)

/-- What a panel answers to one request. -/
structure Answer where
  accepted : Bool
  payload : Bytes
  sized : payload.length ≤ 4088

def Answer.code (a : Answer) : UInt8 := if a.accepted then kReplyOk else kReplyError

section
variable (answers : ℕ → Answer)

/-- The panel's answer to the n-th request of a history. -/
def reply (n : ℕ) (_ : Bytes) : Bytes := frameBytes (answers n).code (answers n).payload

abbrev panel : VTable Line := Line.vtable (reply answers)

def replyLength (n : ℕ) : ℕ := (answers n).payload.length+8

def patience : ℕ := 8192

section Frames
variable (a : Answer)

theorem payload_length_frame : payloadLength (frameBytes a.code a.payload) = a.payload.length := by
  have hs := a.sized
  have hw : wordOf ((frameBytes a.code a.payload).getD 3 0) ((frameBytes a.code a.payload).getD 4 0) =
      .ofNat a.payload.length := by
    simp only [frameBytes,putLow,cons_append,nil_append,getD_cons_succ,getD_cons_zero]
    exact word_of_halves _
  rw [payloadLength,hw, UInt16.toNat_ofNat_of_lt' (by simp [UInt16.size]; omega)]

/-- The driver takes a panel's frame for what it is. -/
theorem frame_accepted :
    frameRefused (frameBytes a.code a.payload) a.payload.length = false ∧
      (frameBytes a.code a.payload).getD 2 0 = a.code := by
  have hc : (frameBytes a.code a.payload).getD 2 0 = a.code := by
    simp [frameBytes]
  refine ⟨?_,hc⟩
  set checked := C3.kProtocolVersion::a.code::putLow (.ofNat a.payload.length)++a.payload with hk
  have hf : frameBytes a.code a.payload =
      kFrameStart::(checked++(putLow (crc16 checked)++[kFrameEnd])) := by
    simp [frameBytes,hk]
  have hl : checked.length = 4+a.payload.length := by
    simp [hk,putLow]
    omega
  have ht (k : ℕ) : (frameBytes a.code a.payload).getD (5+a.payload.length+k) 0 =
      (putLow (crc16 checked)++[kFrameEnd]).getD k 0 := by
    rw [hf,show 5+a.payload.length+k = (checked.length+k)+1 by omega,getD_cons_succ,
      getD_append_right _ _ _ _ (by omega),Nat.add_sub_cancel_left]
  have hcode : a.code = kReplyOk ∨ a.code = kReplyError := by
    unfold Answer.code
    split_ifs <;> simp
  have hw := word_of_halves (crc16 checked)
  have h0 := ht 0
  have h1 := ht 1
  have h2 := ht 2
  rw [show 5+a.payload.length+0 = 5+a.payload.length by omega] at h0
  rw [show 5+a.payload.length+1 = 6+a.payload.length by omega] at h1
  rw [show 5+a.payload.length+2 = a.payload.length+7 by omega] at h2
  unfold frameRefused
  rw [h0,h1,h2,hc]
  have hd : ((frameBytes a.code a.payload).drop 1).take (4+a.payload.length) = checked := by
    rw [hf,drop_succ_cons,drop_zero,← hl,take_left]
  rw [hd]
  have hs : (frameBytes a.code a.payload).getD 0 0 = kFrameStart := by
    rw [hf]
    rfl
  rw [hs]
  simp only [putLow,cons_append,nil_append,getD_cons_succ,getD_cons_zero,hw]
  rcases hcode with h | h <;> simp [h]

end Frames

/-- What an attempt on a connection without other replies comes to. -/
def outcome (l : Line) : Status :=
  if brings l.waits (replyLength answers l.asked) = false then HSF_ERR_TIMEOUT
  else if (answers l.asked).accepted then HSF_OK else HSF_ERR_PROTOCOL

/-- A request is sent, and what comes in of its reply is read. -/
def attempted (l : Line) : Line :=
  (l.sent (reply answers l.asked [])).after
    ((l.sent (reply answers l.asked [])).gathered (replyLength answers l.asked))

/-- The waits that a reply of this length leaves. -/
def left (waits : List ℕ) (length : ℕ) : List ℕ := (gather waits length 0 length).waits

theorem reply_length (n : ℕ) : (reply answers n []).length = replyLength answers n :=
  frame_bytes_length _ _

section Once
variable (d : Driver) {l : Line} (hs : l.Settled)
include hs

theorem gathered_brings : ((l.sent (reply answers l.asked [])).gathered
    (replyLength answers l.asked)).ok = brings l.waits (replyLength answers l.asked) := by
  have hok := Line.gathered_ok _ (reply answers l.asked []).length
    (Line.sent_fits (reply answers l.asked []) hs.fits) (Line.sent_length l _ hs).ge
  rw [show (l.sent (reply answers l.asked [])).arrived = 0 from hs.2,Nat.sub_zero,
    reply_length] at hok
  exact hok

theorem attempted_facts (h : brings l.waits (replyLength answers l.asked) = true) :
    (attempted answers l).Settled ∧ (attempted answers l).Own ∧
      (attempted answers l).waits = left l.waits (replyLength answers l.asked) := by
  have hr := Line.read_reply (reply answers l.asked []) hs
  rw [reply_length] at hr
  have hc : (l.sent (reply answers l.asked [])).coming =
      (reply answers l.asked []).map (fun b => (b,l.asked)) := by
    simp [Line.sent,hs.1]
  have hct : ((l.sent (reply answers l.asked [])).gathered (replyLength answers l.asked)).count =
      replyLength answers l.asked :=
    (gather_facts _ _ _ _ (Line.sent_fits _ hs.fits)).1 ((gathered_brings answers hs).trans h)
  have ht : (attempted answers l).taken = (reply answers l.asked []).map (fun _ => l.asked) := by
    simp only [attempted,Line.after,hct,hc]
    rw [take_of_length_le (by rw [length_map,reply_length]),map_map]
    rfl
  refine ⟨hr.mpr h,⟨?_,?_⟩,?_⟩
  · intro hn
    have hl := congrArg length (ht.symm.trans hn)
    rw [length_map,reply_length,replyLength] at hl
    simp at hl
  · intro n hn
    rw [ht] at hn
    obtain ⟨_,_,rfl⟩ := mem_map.mp hn
    rfl
  · simp only [attempted,Line.after,Line.gathered,left]
    rw [Line.sent_length l _ hs,reply_length,
      show (l.sent (reply answers l.asked [])).arrived = 0 from hs.2]
    rfl

variable (ho : l.isOpen = true) {fuel : ℕ} (hfuel : patience ≤ fuel)
include ho hfuel

theorem read_frame_line : ∃ frame, Goes (readFrame (panel answers) fuel) d
    (l.sent (reply answers l.asked [])) (outcome answers l) { d with frame := frame }
    (attempted answers l) := by
  set a := answers l.asked with ha
  set s := l.sent (reply answers l.asked []) with hsn
  have hsz := a.sized
  have hf : s.Fits := Line.sent_fits _ hs.fits
  have hb : (s.gathered (5+(a.payload.length+3))).ok =
      brings l.waits (replyLength answers l.asked) := by
    rw [show 5+(a.payload.length+3) = replyLength answers l.asked by rw [replyLength,← ha]; omega]
    exact gathered_brings answers hs
  have hat : attempted answers l = s.after (s.gathered (5+(a.payload.length+3))) := by
    rw [attempted,show 5+(a.payload.length+3) = replyLength answers l.asked by
      rw [replyLength,← ha]; omega]
  have hc : s.coming.map Prod.fst = frameBytes a.code a.payload := by
    simp [hsn,Line.sent,hs.1,Function.comp_def,reply,ha]
  have hh := read_line (reply answers) d s d.timeoutMs Buffer.frame 0 5 fuel ho hf
    (le_trans (by decide) hfuel)
  by_cases hok : (s.gathered 5).ok = true
  · have hct : (s.gathered 5).count = 5 := (gather_facts _ _ _ _ hf).1 hok
    obtain ⟨hth,haf⟩ := Line.gathered_then s 5 (a.payload.length+3) hf hok
    have hr := read_line (reply answers) d (s.after (s.gathered 5)) d.timeoutMs Buffer.frame 5
      (a.payload.length+3) fuel ho (Line.after_fits s 5 hf) (by unfold patience at hfuel; omega)
    have hn : payloadLength ((s.coming.take 5).map Prod.fst) = a.payload.length := by
      rw [← payload_length_frame a,← hc,← take_append_drop 5 s.coming,map_append,
        payload_length_append _ (by simp [hsn,Line.sent,hs.1,reply_length,replyLength]),
        take_append_drop]
    rw [Got.status,hok,if_pos rfl,hct] at hh
    have hfit : ¬C3_MAX_FRAME < 5+a.payload.length+3 := by
      unfold C3_MAX_FRAME
      omega
    rw [hth] at hb
    by_cases hal : ((s.after (s.gathered 5)).gathered (a.payload.length+3)).ok = true
    · have hcr := (gather_facts _ _ _ _ (Line.after_fits s 5 hf)).1 hal
      have hfr : (s.coming.take 5).map Prod.fst++((s.after (s.gathered 5)).coming.take
          (a.payload.length+3)).map Prod.fst = frameBytes a.code a.payload := by
        rw [← map_append,← hc]
        simp only [Line.after,hct]
        rw [← take_add,take_of_length_le]
        simp [hsn,Line.sent,hs.1,reply_length,replyLength,← ha]
        omega
      rw [Got.status,hal,if_pos rfl,show ((s.after (s.gathered 5)).gathered
        (a.payload.length+3)).count = a.payload.length+3 from hcr] at hr
      obtain ⟨hacc,hcd⟩ := frame_accepted a
      refine ⟨frameBytes a.code a.payload,Goes.get.bind (hh.bind ?_)⟩
      dsimp only
      rw [if_neg (by decide)]
      refine (Goes.touch _).bind ?_
      simp only [hn]
      rw [if_neg hfit]
      refine hr.bind ?_
      dsimp only
      rw [if_neg (by decide),hfr,hacc,hcd]
      have ho : outcome answers l = if a.code = kReplyError then HSF_ERR_PROTOCOL else HSF_OK := by
        rw [outcome,← hb,hal,← ha,Answer.code]
        cases a.accepted <;> rfl
      rw [hat,haf,ho]
      exact (Goes.touch _).bind ((Goes.set _).bind (Goes.pure _))
    · rw [Bool.not_eq_true] at hal
      have ho : outcome answers l = HSF_ERR_TIMEOUT := by
        rw [outcome,← hb,hal,if_pos rfl]
      refine ⟨d.frame,Goes.get.bind (hh.bind ?_)⟩
      dsimp only
      rw [if_neg (by decide)]
      refine (Goes.touch _).bind ?_
      simp only [hn]
      rw [if_neg hfit,hat,haf,ho]
      refine hr.bind ?_
      simp only [Got.status,hal]
      exact Goes.pure _
  · rw [Bool.not_eq_true] at hok
    have hlt : s.gathered (5+(a.payload.length+3)) = s.gathered 5 := Line.gathered_late s 5 _ hf hok
    have ho : outcome answers l = HSF_ERR_TIMEOUT := by
      rw [outcome,← hb,hlt,hok,if_pos rfl]
    refine ⟨d.frame,Goes.get.bind (hh.bind ?_)⟩
    rw [hat,hlt,ho]
    simp only [Got.status,hok]
    exact Goes.pure _

variable (cmd : UInt8) (src : Buffer)

theorem exchange_once_line (payload : Bytes) (hp : payload.length+8 ≤ 256) :
    ∃ frame, Goes (exchangeOnce (panel answers) fuel cmd src payload) d l (outcome answers l)
      { d with frame := frame } (attempted answers l) := by
  obtain ⟨frame,hr⟩ := read_frame_line answers d hs ho hfuel
  obtain ⟨f,rfl⟩ : ∃ f, fuel = f+2 := ⟨fuel-2,by unfold patience at hfuel; omega⟩
  have hw := write_line (reply answers) d l d.timeoutMs Buffer.request (frameBytes cmd payload) f
    ho (by simp [frameBytes])
  refine ⟨frame,Goes.get.bind ?_⟩
  rw [if_neg (by omega)]
  refine (Goes.touch _).bind (hw.bind ?_)
  rw [if_neg (by decide)]
  exact hr

end Once

/-- On every connection to come, if the reply to the first request comes in time then so does the
reply to the second one. -/
def Prompt (next : List (Option (List ℕ))) : Prop :=
  ∀ waits, some waits ∈ next → ∀ n, brings waits (replyLength answers n) = true →
    brings (left waits (replyLength answers n)) (replyLength answers (n+1)) = true

structure Sound (d : Driver) (l : Line) : Prop where
  attached : l.isOpen = true → d.attached = true
  boundary : l.AtBoundary
  prompt : Prompt answers l.next

/-- The reply to the last request was read. -/
structure Replied (l l' : Line) : Prop where
  asked : l.asked < l'.asked
  own : l'.Own
  isOpen : l'.isOpen = true

theorem ensured_next (l : Line) :
    (∀ link ∈ l.ensured.2.next, link ∈ l.next) ∧
      (l.isOpen = false → l.ensured.1 = HSF_OK → some l.ensured.2.waits ∈ l.next) := by
  unfold Line.ensured Line.openLink
  split_ifs with ho
  · exact ⟨fun _ h => h,fun hc => by simp [ho] at hc⟩
  · split
    · rename_i hn
      rw [hn]
      exact ⟨fun _ h => mem_cons_of_mem _ h,fun _ _ => mem_cons_self⟩
    · rename_i hn
      rw [hn]
      exact ⟨fun _ h => mem_cons_of_mem _ h,
        fun _ h => absurd h (show HSF_ERR_IO ≠ HSF_OK by decide)⟩
    · exact ⟨fun _ h => h,fun _ h => absurd h (show HSF_ERR_IO ≠ HSF_OK by decide)⟩

theorem Prompt.mono {next next' : List (Option (List ℕ))} (h : Prompt answers next)
    (hn : ∀ link ∈ next', link ∈ next) : Prompt answers next' :=
  fun waits hw => h waits (hn _ hw)

theorem outcome_in_time {l : Line} (h : brings l.waits (replyLength answers l.asked) = true) :
    outcome answers l = (if (answers l.asked).accepted then HSF_OK else HSF_ERR_PROTOCOL) ∧
      reconnectable (outcome answers l) = false := by
  rw [outcome,if_neg (by simp [h])]
  exact ⟨rfl,by split_ifs <;> decide⟩

theorem outcome_late {l : Line} (h : brings l.waits (replyLength answers l.asked) = false) :
    outcome answers l = HSF_ERR_TIMEOUT := by
  rw [outcome,if_pos h]

section Exchanges
variable {fuel : ℕ} (hfuel : patience ≤ fuel) {d : Driver} {l : Line}
include hfuel

/-- An exchange on an open connection at a boundary: its reply comes in time and is read, or its
time is up. A request that is too long is not sent. -/
theorem once_cases (cmd : UInt8) (src : Buffer) (payload : Bytes) (ho : l.isOpen = true)
    (hs : l.Settled) :
    ∃ st d' l', Goes (exchangeOnce (panel answers) fuel cmd src payload) d l st d' l' ∧
      d'.attached = d.attached ∧ l'.isOpen = true ∧ l'.next = l.next ∧ l.asked ≤ l'.asked ∧
      (reconnectable st = false → l'.Settled) ∧
      (brings l.waits (replyLength answers l.asked) = true → reconnectable st = false) ∧
      (0 ≤ st → brings l.waits (replyLength answers l.asked) = true ∧ Replied l l' ∧
        l'.waits = left l.waits (replyLength answers l.asked) ∧ l'.asked = l.asked+1) := by
  by_cases hp : payload.length+8 ≤ 256
  · obtain ⟨frame,hg⟩ := exchange_once_line answers d hs ho hfuel cmd src payload hp
    refine ⟨_,_,_,hg,rfl,ho,rfl,Nat.le_succ _,?_⟩
    cases hb : brings l.waits (replyLength answers l.asked) with
    | true =>
      obtain ⟨hst,how,hw⟩ := attempted_facts answers hs hb
      have hr := (outcome_in_time answers hb).2
      exact ⟨fun _ => hst,fun _ => hr,fun _ => ⟨rfl,⟨Nat.lt_succ_self _,how,ho⟩,hw,rfl⟩⟩
    | false =>
      rw [outcome_late answers hb]
      exact ⟨fun h => absurd h (by decide),fun h => (by cases h),fun h => absurd h (by decide)⟩
  · refine ⟨HSF_ERR_INVALID_ARG,d,l,Goes.get.bind ?_,rfl,ho,rfl,le_rfl,fun _ => hs,
      fun _ => by decide,fun h => absurd h (by decide)⟩
    rw [if_pos (.inr (by omega))]
    exact Goes.pure _

theorem attempt_line (h : Sound answers d l) :
    ∃ st d' l', Goes (attempt (panel answers) fuel) d l st d' l' ∧
      d'.attached = d.attached ∧ (l'.isOpen = true → d.attached = true) ∧
      Prompt answers l'.next ∧ l.asked ≤ l'.asked ∧
      (reconnectable st = false → l'.AtBoundary) ∧
      (0 ≤ st → Replied l l' ∧
        (l.isOpen = false → brings l'.waits (replyLength answers l'.asked) = true)) := by
  cases ha : d.attached with
  | false =>
    refine ⟨HSF_ERR_NOT_OPEN,d,l,Goes.get.bind ?_,ha,fun ho => ha ▸ h.attached ho,h.prompt,le_rfl,
      fun _ => h.boundary,fun hn => absurd hn (by decide)⟩
    rw [ha]
    exact (Goes.pure _).bind (Goes.pure _)
  | true =>
    have he := @ensure_open_line Buffer Driver (reply answers) d l
    obtain ⟨hnx,hfr⟩ := ensured_next l
    obtain ⟨has,⟨hok,ho,hst⟩ | ⟨hf,hc⟩⟩ := Line.ensured_cases l h.boundary
    · obtain ⟨st,d',l',hg,hat,hop,hn,hak,hbd,_,hrp⟩ := once_cases answers hfuel
        C3_CONNECT_SESSIONLESS .password (cstring d.password) ho hst (d := d)
      refine ⟨st,d',l',Goes.get.bind ?_,hat.trans ha,fun _ => rfl,?_,?_,fun hr => .inr (hbd hr),?_⟩
      · rw [ha]
        refine he.bind ?_
        rw [if_pos hok]
        exact (Goes.touch _).bind hg
      · rw [hn]
        exact h.prompt.mono answers hnx
      · omega
      · intro hz
        obtain ⟨hb,⟨hl,how,hio⟩,hw,hn1⟩ := hrp hz
        refine ⟨⟨by omega,how,hio⟩,fun hcl => ?_⟩
        rw [hw,hn1]
        exact h.prompt _ (hfr hcl hok) _ hb
    · refine ⟨l.ensured.1,d,l.ensured.2,Goes.get.bind ?_,ha,fun _ => rfl,
        h.prompt.mono answers hnx,has.ge,fun _ => .inl hc,fun hz => absurd hf (not_lt.mpr hz)⟩
      rw [ha]
      refine he.bind ?_
      rw [if_neg (by intro hz; rw [hz] at hf; exact absurd hf (by decide))]
      exact Goes.pure _

omit hfuel in
theorem close_attached_line (h : l.isOpen = true → d.attached = true) :
    ∃ l', Goes (closeAttached (panel answers) d.attached : Io Line Unit) d l () d l' ∧
      l'.isOpen = false ∧ l'.next = l.next ∧ l'.asked = l.asked := by
  cases ha : d.attached with
  | true => exact ⟨l.close,close_line (reply answers) d l,rfl,rfl,rfl⟩
  | false => exact ⟨l,Goes.pure (),by simpa [ha] using h,rfl,rfl⟩

omit hfuel in
/-- After a disconnect there is no connection. -/
theorem disconnect_line (h : l.isOpen = true → d.attached = true) :
    ∃ d' l', Goes (disconnectTransport (panel answers)) d l () d' l' ∧
      d'.attached = d.attached ∧ l'.isOpen = false ∧ l'.next = l.next ∧ l'.asked = l.asked := by
  obtain ⟨l',hc,hr⟩ := close_attached_line answers h
  exact ⟨_,l',Goes.get.bind (hc.bind (Goes.set _)),rfl,hr⟩

omit hfuel in
theorem reconnectable_failed {st : Status} (h : reconnectable st = true) : st < 0 := by
  simp only [reconnectable,Bool.or_eq_true,decide_eq_true_eq] at h
  rcases h with ((rfl | rfl) | rfl) | rfl <;> decide

omit hfuel in
/-- Where a connect has failed there is no connection, or one at a boundary. -/
theorem dropped_line (st : Status) (ha : l.isOpen = true → d.attached = true)
    (hp : Prompt answers l.next) (hb : reconnectable st = false → l.AtBoundary) :
    ∃ d' l', Goes (do
        setConnected (st = HSF_OK)
        dropFailed (panel answers) st
        pure st) d l st d' l' ∧
      d'.attached = d.attached ∧ Sound answers d' l' ∧ l'.asked = l.asked ∧ (0 ≤ st → l' = l) := by
  cases hr : reconnectable st with
  | true =>
    have hn := reconnectable_failed hr
    obtain ⟨d',l',hg,hat,hc,hx,hk⟩ := disconnect_line answers
      (d := { d with status := { d.status with connected := decide (st = HSF_OK) } }) ha
    have hdr : dropFailed (panel answers) st = disconnectTransport (panel answers) :=
      if_pos ⟨hn,hr⟩
    rw [← hdr] at hg
    refine ⟨d',l',(Goes.set _).bind (hg.bind (Goes.pure _)),hat,⟨fun ho => ?_,.inl hc,hx ▸ hp⟩,hk,
      fun hz => absurd hn (not_lt.mpr hz)⟩
    rw [hc] at ho
    cases ho
  | false =>
    have hdr : dropFailed (panel answers) st = pure () := if_neg (by simp [hr])
    rw [hdr]
    exact ⟨_,l,(Goes.set _).bind ((Goes.pure _).bind (Goes.pure _)),rfl,⟨ha,hb hr,hp⟩,rfl,
      fun _ => rfl⟩

theorem connect_line (h : Sound answers d l) :
    ∃ st d' l', Goes (connectSessionless (panel answers) fuel) d l st d' l' ∧
      d'.attached = d.attached ∧ Sound answers d' l' ∧ l.asked ≤ l'.asked ∧
      (0 ≤ st → Replied l l' ∧
        (l.isOpen = false → brings l'.waits (replyLength answers l'.asked) = true)) := by
  obtain ⟨st,d₁,l₁,hg,ha,hat,hp,hk,hb,hz⟩ := attempt_line answers hfuel h
  cases hr : reconnectable st with
  | false =>
    obtain ⟨d',l',hd,had,hsd,hkd,hsm⟩ := dropped_line answers st (fun ho => ha.trans (hat ho)) hp hb
    refine ⟨st,d',l',hg.bind (Goes.bind ?_ hd),had.trans ha,hsd,hkd ▸ hk,fun h0 => ?_⟩
    · rw [secondAttempt,if_neg (by simp [hr])]
      exact Goes.pure _
    · rw [hsm h0]
      exact hz h0
  | true =>
    obtain ⟨d₂,l₂,hg₂,ha₂,hc₂,hx₂,hk₂⟩ := disconnect_line answers (fun ho => ha.trans (hat ho))
    have hs₂ : Sound answers d₂ l₂ := ⟨fun ho => by simp [hc₂] at ho,.inl hc₂,hx₂ ▸ hp⟩
    obtain ⟨st',d₃,l₃,hg₃,ha₃,hat₃,hp₃,hk₃,hb₃,hz₃⟩ := attempt_line answers hfuel hs₂
    obtain ⟨d',l',hd,had,hsd,hkd,hsm⟩ :=
      dropped_line answers st' (fun ho => ha₃.trans (hat₃ ho)) hp₃ hb₃
    refine ⟨st',d',l',hg.bind (Goes.bind ?_ hd),by rw [had,ha₃,ha₂,ha],hsd,by omega,fun h0 => ?_⟩
    · rw [secondAttempt,if_pos hr]
      exact hg₂.bind hg₃
    · obtain ⟨⟨hl,how,hio⟩,hn⟩ := hz₃ h0
      rw [hsm h0]
      exact ⟨⟨by omega,how,hio⟩,fun _ => hn hc₂⟩

variable (cmd : UInt8) (src : Buffer) (payload : Bytes)

theorem command_line (h : Sound answers d l) (ho : l.isOpen = true) :
    ∃ st d' l', Goes (commandTwice (panel answers) fuel cmd src payload) d l st d' l' ∧
      Sound answers d' l' ∧ l.asked ≤ l'.asked ∧ (0 ≤ st → Replied l l') := by
  have hs : l.Settled := h.boundary.resolve_left (by simp [ho])
  obtain ⟨st,d₁,l₁,hg,ha,hop,hx,hk,hb,_,hz⟩ :=
    once_cases answers hfuel cmd src payload ho hs (d := d)
  cases hr : reconnectable st with
  | false =>
    refine ⟨st,d₁,l₁,hg.bind ?_,⟨fun _ => ha.trans (h.attached ho),.inr (hb hr),hx ▸ h.prompt⟩,hk,
      fun h0 => (hz h0).2.1⟩
    rw [if_pos hr]
    exact Goes.pure _
  | true =>
    obtain ⟨d₂,l₂,hg₂,ha₂,hc₂,hx₂,hk₂⟩ :=
      disconnect_line answers (fun _ => ha.trans (h.attached ho)) (l := l₁)
    have hs₂ : Sound answers d₂ l₂ :=
      ⟨fun hop => by simp [hc₂] at hop,.inl hc₂,hx₂ ▸ hx ▸ h.prompt⟩
    obtain ⟨st',d₃,l₃,hg₃,_,hs₃,hk₃,hz₃⟩ := connect_line answers hfuel hs₂
    by_cases hn : st' < 0
    · refine ⟨st',d₃,l₃,hg.bind ?_,hs₃,by omega,fun h0 => absurd hn (not_lt.mpr h0)⟩
      rw [if_neg (by simp [hr])]
      refine hg₂.bind (hg₃.bind ?_)
      rw [if_pos hn]
      exact Goes.pure _
    · -- the connection is new, and the reply after the one to its CONNECT comes in time
      obtain ⟨⟨hl₃,_,ho₃⟩,hin⟩ := hz₃ (not_lt.mp hn)
      have hst : l₃.Settled := hs₃.boundary.resolve_left (by simp [ho₃])
      obtain ⟨st'',d₄,l₄,hg₄,ha₄,ho₄,hx₄,hk₄,hb₄,hi₄,hz₄⟩ :=
        once_cases answers hfuel cmd src payload ho₃ hst (d := d₃)
      have hnr := hi₄ (hin hc₂)
      refine ⟨st'',d₄,l₄,hg.bind ?_,⟨fun _ => ha₄.trans (hs₃.attached ho₃),.inr (hb₄ hnr),
        hx₄ ▸ hs₃.prompt⟩,by omega,fun h0 => ?_⟩
      · rw [if_neg (by simp [hr])]
        refine hg₂.bind (hg₃.bind ?_)
        rw [if_neg hn]
        exact hg₄
      · obtain ⟨_,⟨hl,how,hio⟩,_⟩ := hz₄ h0
        exact ⟨by omega,how,hio⟩

theorem exchange_line (h : Sound answers d l) :
    ∃ st d' l', Goes (exchange (panel answers) fuel cmd src payload) d l st d' l' ∧
      Sound answers d' l' ∧ l.asked ≤ l'.asked ∧ (0 ≤ st → Replied l l') := by
  have ho : Goes (linkOpen (panel answers) : Io Line Bool) d l l.isOpen d l := fun hit => ⟨hit,rfl⟩
  by_cases hc : d.status.connected = true ∧ l.isOpen = true
  · obtain ⟨st,d',l',hg,hr⟩ := command_line answers hfuel cmd src payload h hc.2
    refine ⟨st,d',l',Goes.get.bind (ho.bind ?_),hr⟩
    rw [if_pos hc]
    exact hg
  · obtain ⟨st,d₁,l₁,hg,_,hs,hk,hz⟩ := connect_line answers hfuel h
    by_cases hn : st < 0
    · refine ⟨st,d₁,l₁,Goes.get.bind (ho.bind ?_),hs,hk,fun h0 => absurd hn (not_lt.mpr h0)⟩
      rw [if_neg hc]
      refine hg.bind ?_
      rw [if_pos hn]
      exact Goes.pure _
    · have hop := (hz (not_lt.mp hn)).1.isOpen
      obtain ⟨st',d',l',hg',hs',hk',hz'⟩ := command_line answers hfuel cmd src payload hs hop
      refine ⟨st',d',l',Goes.get.bind (ho.bind ?_),hs',by omega,fun h0 => ?_⟩
      · rw [if_neg hc]
        refine hg.bind ?_
        rw [if_neg hn]
        exact hg'
      · obtain ⟨hl,how,hio⟩ := hz' h0
        exact ⟨by omega,how,hio⟩

end Exchanges

/-- From a sound state the program returns in a sound one. If the reply to the last request since
`l₀` was read before it, as far as `pre` says, then it was after it, as far as `good` says. -/
def Ends {α : Type} (pre : Prop) (good : α → Prop) (m : Io Line α) : Prop :=
  ∀ d l₀ l, Sound answers d l → l₀.asked ≤ l.asked → (pre → Replied l₀ l) →
    ∃ a d' l', Goes m d l a d' l' ∧ Sound answers d' l' ∧ l₀.asked ≤ l'.asked ∧
      (good a → Replied l₀ l')

section Rules
variable {answers} {α β : Type} {pre : Prop} {good : α → Prop} {m : Io Line α}

theorem Ends.bind {f : α → Io Line β} {final : β → Prop} (hm : Ends answers pre good m)
    (hf : ∀ a, Ends answers (good a) final (f a)) : Ends answers pre final (m >>= f) := by
  intro d l₀ l hs hk hp
  obtain ⟨a,d',l',hg,hs',hk',hp'⟩ := hm d l₀ l hs hk hp
  obtain ⟨b,d'',l'',hg',hr⟩ := hf a d' l₀ l' hs' hk' hp'
  exact ⟨b,d'',l'',hg.bind hg',hr⟩

theorem Ends.weaken {pre' : Prop} {good' : α → Prop} (hm : Ends answers pre good m) (hp : pre → pre')
    (hg : ∀ a, good' a → good a) : Ends answers pre' good' m := by
  intro d l₀ l hs hk hr
  obtain ⟨a,d',l',hgo,hs',hk',hr'⟩ := hm d l₀ l hs hk (fun hx => hr (hp hx))
  exact ⟨a,d',l',hgo,hs',hk',fun hx => hr' (hg a hx)⟩

theorem Ends.pure (a : α) (h : good a → pre) : Ends answers pre good (pure a : Io Line α) :=
  fun d _ l hs hk hr => ⟨a,d,l,Goes.pure a,hs,hk,fun hx => hr (h hx)⟩

theorem Ends.ite {c : Prop} [Decidable c] {m' : Io Line α} (hm : c → Ends answers pre good m)
    (hm' : ¬c → Ends answers pre good m') : Ends answers pre good (if c then m else m') := by
  split_ifs with hc
  · exact hm hc
  · exact hm' hc

theorem Ends.touch (accesses : List (Access Buffer)) :
    Ends answers pre (fun _ => pre) (touch accesses : Io Line Unit) :=
  fun d _ l hs hk hr => ⟨(),d,l,Goes.touch _,hs,hk,hr⟩

theorem Ends.get : Ends answers pre (fun _ => pre) (getDriver : Io Line Driver) :=
  fun d _ l hs hk hr => ⟨d,d,l,Goes.get,hs,hk,hr⟩

theorem Ends.set (f : Driver → Driver) (h : ∀ d, d.attached = true → (f d).attached = true) :
    Ends answers pre (fun _ => pre) (setDriver f : Io Line Unit) :=
  fun d _ l hs hk hr => ⟨(),f d,l,Goes.set f,
    ⟨fun ho => h d (hs.attached ho),hs.boundary,hs.prompt⟩,hk,hr⟩

theorem Ends.failed {st : Status} (h : st < 0) :
    Ends answers pre (fun st => 0 ≤ st) (Pure.pure st : Io Line Status) :=
  Ends.pure st (fun h0 => absurd h (not_lt.mpr h0))

end Rules

section Operations
variable {pre : Prop}

theorem set_connected_ends (connected : Bool) :
    Ends answers pre (fun _ => pre) (setConnected connected : Io Line Unit) :=
  Ends.set _ (by intro _ h; exact h)

theorem set_error_ends (msg : String) :
    Ends answers pre (fun _ => pre) (setError msg : Io Line Unit) :=
  (Ends.touch _).bind (fun _ => Ends.set _ (by intro _ h; exact h))

theorem finish_ends (count : Status → DriverStatus → DriverStatus) (st : Status) :
    Ends answers pre (fun _ => pre) (finish count st : Io Line Unit) :=
  (Ends.set _ (by intro _ h; exact h)).bind (fun _ => set_error_ends answers _)

theorem set_input_ends (input : ℕ) (eventType : ℤ) :
    Ends answers pre (fun _ => pre) (setInput input eventType : Io Line Unit) :=
  (Ends.touch _).bind (fun _ => Ends.set _ (by intro _ h; exact h))

theorem note_text_ends (text : Bytes) :
    Ends answers pre (fun _ => pre) (noteText text : Io Line Unit) := by
  refine (Ends.touch _).bind (fun _ => ?_)
  split
  · exact (Ends.touch _).bind (fun _ => Ends.ite (fun _ => set_input_ends answers _ _)
      (fun _ => Ends.pure () id))
  · exact Ends.pure () id

theorem note_records_ends (buf : Bytes) (length recs : ℕ) :
    Ends answers pre (fun _ => pre) (noteRecords buf length recs : Io Line Unit) := by
  induction recs with
  | zero => exact Ends.pure () id
  | succ recs ih =>
    have hr : Ends answers pre (fun _ => pre)
        (noteRecord buf (length-16*(recs+1)) : Io Line Unit) :=
      (Ends.touch _).bind (fun _ => Ends.ite (fun _ => set_input_ends answers _ _)
        (fun _ => Ends.pure () id))
    exact hr.bind (fun _ => ih)

theorem keep_value_ends : Ends answers pre (fun _ => pre) (keepValue : Io Line Status) := by
  refine Ends.get.bind (fun self => Ends.ite (fun _ => Ends.pure _ id) (fun _ => ?_))
  refine (Ends.touch _).bind (fun _ => (Ends.set _ (by intro _ h; exact h)).bind (fun _ => ?_))
  refine Ends.ite (fun _ => Ends.ite (fun _ => Ends.pure _ id) (fun _ => ?_)) (fun _ => ?_)
  · exact (Ends.touch _).bind (fun _ => (note_text_ends answers _).bind (fun _ => Ends.pure _ id))
  · exact (note_records_ends answers _ _ _).bind (fun _ => Ends.pure _ id)

theorem read_value_ends (addr : DeviceAddress) :
    Ends answers pre (fun _ => pre) (readValue addr : Io Line (Status×Value)) := by
  refine Ends.get.bind (fun self => Ends.ite (fun _ => Ends.pure _ id) (fun _ => ?_))
  refine Ends.ite (fun _ => Ends.ite (fun _ => Ends.pure _ id) (fun _ => ?_))
    (fun _ => Ends.pure _ id)
  exact (Ends.touch _).bind (fun _ => Ends.pure _ id)

variable {fuel : ℕ} (hfuel : patience ≤ fuel)
include hfuel

theorem connect_ends :
    Ends answers pre (fun st => 0 ≤ st) (connectSessionless (panel answers) fuel) := by
  intro d l₀ l hs hk _
  obtain ⟨st,d',l',hg,_,hs',hk',hz⟩ := connect_line answers hfuel hs
  refine ⟨st,d',l',hg,hs',hk.trans hk',fun h0 => ?_⟩
  obtain ⟨hl,how,hio⟩ := (hz h0).1
  exact ⟨by omega,how,hio⟩

theorem exchange_ends (cmd : UInt8) (src : Buffer) (payload : Bytes) :
    Ends answers pre (fun st => 0 ≤ st) (exchange (panel answers) fuel cmd src payload) := by
  intro d l₀ l hs hk _
  obtain ⟨st,d',l',hg,hs',hk',hz⟩ := exchange_line answers hfuel cmd src payload hs
  refine ⟨st,d',l',hg,hs',hk.trans hk',fun h0 => ?_⟩
  obtain ⟨hl,how,hio⟩ := hz h0
  exact ⟨by omega,how,hio⟩

theorem read_rtlog_ends :
    Ends answers pre (fun st => 0 ≤ st) (readRtlog (panel answers) fuel) := by
  have hk (st : Status) (hs : ¬st < 0) : Ends answers (0 ≤ st) (fun st => 0 ≤ st)
      (keepValue : Io Line Status) :=
    (keep_value_ends answers).weaken id (fun _ _ => not_lt.mp hs)
  refine Ends.get.bind (fun self => (exchange_ends answers hfuel _ _ _).bind (fun st => ?_))
  refine Ends.ite (fun hs => Ends.failed hs) (fun hs => ?_)
  refine (Ends.touch _).bind (fun _ => Ends.get.bind (fun self => ?_))
  refine Ends.ite (fun _ => ?_) (fun _ => hk st hs)
  refine (Ends.set _ (by intro _ h; exact h)).bind (fun _ => (Ends.touch _).bind (fun _ => ?_))
  refine Ends.ite (fun _ => (Ends.set _ (by intro _ h; exact h)).bind (fun _ => hk st hs)) (fun _ => ?_)
  refine (exchange_ends answers hfuel _ _ _).bind (fun st => ?_)
  exact Ends.ite (fun hs => Ends.failed hs) (fun hs => (Ends.touch _).bind (fun _ => hk st hs))

/-- What counts is the last command. -/
theorem pulse_output_ends (number : ℤ) (auxiliary : Bool) (durationMs : ℕ) :
    Ends answers pre (fun r => 0 ≤ r.2)
      (pulseOutput (panel answers) fuel number auxiliary durationMs) := by
  refine Ends.ite (fun _ => Ends.pure _ (fun h => absurd h (by decide))) (fun _ => ?_)
  refine (exchange_ends answers hfuel _ _ _).bind (fun st => ?_)
  refine Ends.ite (fun _ => Ends.pure _ id) (fun _ => Ends.ite (fun _ => ?_) (fun _ => ?_))
  · exact (exchange_ends answers hfuel _ _ _).bind (fun st => Ends.pure _ id)
  · exact (exchange_ends answers hfuel _ _ _).bind (fun zeroDuration =>
      (exchange_ends answers hfuel _ _ _).bind (fun cancelLatch => Ends.pure _ id))

theorem driver_read_ends (addr : DeviceAddress) :
    Ends answers pre (fun r => addr.a1 ≠ 0 ∧ 0 ≤ r.1)
      (driverRead (panel answers) fuel addr) := by
  have hl : Ends answers pre (fun r => 0 ≤ r.1) (readLogged (panel answers) fuel addr) := by
    refine (read_rtlog_ends answers hfuel).bind (fun st => Ends.ite (fun hs => ?_) (fun _ => ?_))
    · exact (read_value_ends answers addr).weaken id (fun _ _ => hs.ge)
    · exact Ends.pure _ id
  refine Ends.get.bind (fun self => Ends.ite
    (fun _ => Ends.pure _ (fun h => absurd h.2 (by decide)))
    (fun _ => Ends.ite (fun hz => Ends.pure _ (fun h => absurd hz h.1)) (fun _ => ?_)))
  refine hl.bind ?_
  rintro ⟨st,value⟩
  exact (finish_ends answers _ _).bind (fun _ => Ends.pure _ And.right)

theorem driver_write_ends (addr : DeviceAddress) (value : Value) :
    Ends answers pre (fun r => 0 ≤ r.2) (driverWrite (panel answers) fuel addr value) := by
  refine Ends.get.bind (fun self => Ends.ite
    (fun _ => Ends.pure _ (fun h => absurd h (by decide))) (fun _ => ?_))
  cases duration value with
  | none => exact Ends.pure _ (fun h => absurd h (by decide))
  | some durationMs =>
    refine Ends.ite (fun _ => Ends.pure _ (fun h => absurd h (by decide))) (fun _ => ?_)
    refine (pulse_output_ends answers hfuel _ _ _).bind ?_
    rintro ⟨st,last⟩
    exact (finish_ends answers _ _).bind (fun _ => Ends.pure _ id)

theorem driver_health_ends :
    Ends answers pre (fun st => 0 ≤ st) (driverHealth (panel answers) fuel) := by
  refine Ends.get.bind (fun self => Ends.ite (fun _ => Ends.failed (by decide)) (fun _ => ?_))
  refine (connect_ends answers hfuel).bind (fun st => ?_)
  exact (finish_ends answers _ _).bind (fun _ => Ends.pure _ id)

/-- The calls that return OK on a reply. -/
def asking : Call → Bool
  | .read address => address.a1 ≠ 0
  | .write _ _ => true
  | .health => true
  | _ => false

theorem perform_ends (call : Call) :
    Ends answers False (fun r => asking call = true ∧ 0 ≤ r.2)
      (perform (panel answers) fuel call) := by
  have hs (r : Status×Status) (call : Call) (h : asking call = false) {pre : Prop} :
      Ends answers pre (fun r => asking call = true ∧ 0 ≤ r.2)
        (pure r : Io Line (Status×Status)) :=
    Ends.pure r (fun ha => by simp [h] at ha)
  cases call with
  | initialized cfg =>
    have hi : Ends answers False (fun _ => False) (driverInitialize cfg : Io Line Status) := by
      refine (Ends.set _ (by intro _ _; rfl)).bind (fun _ => Ends.ite (fun _ => Ends.pure _ id) (fun _ => ?_))
      exact (Ends.touch _).bind (fun _ => (Ends.set _ (by intro _ h; exact h)).bind (fun _ => Ends.pure _ id))
    exact hi.bind (fun st => hs _ _ rfl)
  | start =>
    have hst : Ends answers False (fun _ => False) (driverStart (panel answers) fuel) := by
      refine (Ends.set _ (by intro _ h; exact h)).bind (fun _ =>
        (connect_ends answers hfuel).bind (fun st => ?_))
      exact (set_connected_ends answers _).bind (fun _ => (set_error_ends answers _).bind
        (fun _ => Ends.pure _ False.elim))
    exact hst.bind (fun st => hs _ _ rfl)
  | stop =>
    have hst : Ends answers False (fun _ => False) (driverStop (panel answers)) := by
      intro d l₀ l hs hk _
      obtain ⟨l',hg,hc,hn,hq⟩ := close_attached_line answers hs.attached
      exact ⟨HSF_OK,_,l',Goes.get.bind (hg.bind ((Goes.set _).bind (Goes.pure _))),
        ⟨fun ho => by simp [hc] at ho,.inl hc,hn ▸ hs.prompt⟩,by omega,False.elim⟩
    exact hst.bind (fun st => hs _ _ rfl)
  | read addr =>
    refine (driver_read_ends answers hfuel addr).bind ?_
    rintro ⟨st,value⟩
    exact Ends.pure _ (fun h => ⟨by simpa [asking] using h.1,h.2⟩)
  | write addr value =>
    exact (driver_write_ends answers hfuel addr value).weaken id (fun _ h => h.2)
  | health =>
    exact (driver_health_ends answers hfuel).bind (fun st => Ends.pure _ And.right)

end Operations

/-- The next so many replies of a connection with these waits, from the n-th on, come in time. -/
def onTime : ℕ → List ℕ → ℕ → Bool
  | 0, _, _ => true
  | k+1, waits, n =>
    brings waits (replyLength answers n) && onTime k (left waits (replyLength answers n)) (n+1)

section Door
variable {fuel : ℕ} (hfuel : patience ≤ fuel) {d : Driver} {l : Line}
include hfuel

/-- A command on a connection that is up, with its reply in time. -/
theorem command_in_time (hb : brings l.waits (replyLength answers l.asked) = true)
    (ho : l.isOpen = true) (hs : l.Settled) (op n kind ms : UInt8) :
    ∃ frame, Goes (commandTwice (panel answers) fuel C3_CONTROL .control [op,n,kind,ms,0]) d l
      (outcome answers l) { d with frame := frame } (attempted answers l) := by
  obtain ⟨frame,hg⟩ := exchange_once_line answers d hs ho hfuel C3_CONTROL .control
    [op,n,kind,ms,0] (by simp)
  refine ⟨frame,hg.bind ?_⟩
  rw [if_pos (outcome_in_time answers hb).2]
  exact Goes.pure _

theorem control_in_time (hb : brings l.waits (replyLength answers l.asked) = true)
    (hc : d.status.connected = true) (ho : l.isOpen = true) (hs : l.Settled)
    (op n kind ms : UInt8) :
    ∃ frame, Goes (control (panel answers) fuel op n kind ms) d l (outcome answers l)
      { d with frame := frame } (attempted answers l) := by
  obtain ⟨frame,hg⟩ := command_in_time answers hfuel hb ho hs op n kind ms (d := d)
  have hl : Goes (linkOpen (panel answers) : Io Line Bool) d l l.isOpen d l := fun hit => ⟨hit,rfl⟩
  refine ⟨frame,Goes.get.bind (hl.bind ?_)⟩
  rw [if_pos ⟨hc,ho⟩]
  exact hg

/-- The connection is made, or the panel refuses it. -/
theorem connect_in_time (h : Sound answers d l) (hok : l.ensured.1 = HSF_OK)
    (hb : brings l.ensured.2.waits (replyLength answers l.asked) = true) :
    ∃ st d₁ l₁, Goes (connectSessionless (panel answers) fuel) d l st d₁ l₁ ∧
      (0 ≤ st → d₁.status.connected = true ∧ l₁ = attempted answers l.ensured.2) := by
  cases ha : d.attached with
  | false =>
    obtain ⟨st,d₁,l₁,hg,hat,hs,_,hz⟩ := connect_line answers hfuel h
    refine ⟨st,d₁,l₁,hg,fun h0 => ?_⟩
    have ho := hat.symm.trans (hs.attached (hz h0).1.isOpen)
    rw [ha] at ho
    cases ho
  | true =>
    obtain ⟨has,⟨_,ho,hs⟩ | ⟨hf,_⟩⟩ := Line.ensured_cases l h.boundary
    · have he := @ensure_open_line Buffer Driver (reply answers) d l
      rw [hok] at he
      have hn : brings l.ensured.2.waits (replyLength answers l.ensured.2.asked) = true := by
        rw [has]
        exact hb
      obtain ⟨st,d₁,l₁,hg,hr,hl⟩ : ∃ st d₁ l₁, Goes (exchangeOnce (panel answers) fuel
          C3_CONNECT_SESSIONLESS .password (cstring d.password)) d l.ensured.2 st d₁ l₁ ∧
          reconnectable st = false ∧
          (0 ≤ st → st = HSF_OK ∧ l₁ = attempted answers l.ensured.2) := by
        by_cases hp : (cstring d.password).length+8 ≤ 256
        · obtain ⟨frame,hg⟩ := exchange_once_line answers d hs ho hfuel C3_CONNECT_SESSIONLESS
            .password _ hp
          obtain ⟨hst,hr⟩ := outcome_in_time answers hn
          refine ⟨_,_,_,hg,hr,fun h0 => ⟨?_,rfl⟩⟩
          rw [hst] at h0 ⊢
          split_ifs at h0 ⊢
          · rfl
          · exact absurd h0 (by decide)
        · refine ⟨HSF_ERR_INVALID_ARG,d,l.ensured.2,Goes.get.bind ?_,by decide,
            fun h0 => absurd h0 (by decide)⟩
          rw [if_pos (.inr (by omega))]
          exact Goes.pure _
      have hat : Goes (attempt (panel answers) fuel) d l st d₁ l₁ := by
        refine Goes.get.bind ?_
        rw [ha]
        refine he.bind ?_
        rw [if_pos rfl]
        exact (Goes.touch _).bind hg
      have hsc : secondAttempt (panel answers) fuel st = pure st := if_neg (by simp [hr])
      have hdr : dropFailed (panel answers) st = pure () := if_neg (by simp [hr])
      refine ⟨st,{ d₁ with status := { d₁.status with connected := decide (st = HSF_OK) } },l₁,
        hat.bind ?_,fun h0 => ⟨by simpa using (hl h0).1,(hl h0).2⟩⟩
      rw [hsc]
      refine (Goes.pure _).bind ((Goes.set _).bind ?_)
      rw [hdr]
      exact (Goes.pure _).bind (Goes.pure _)
    · rw [hok] at hf
      exact absurd hf (by decide)

/-- Once a door pulse has begun, its two other commands are answered in time, and the last one is
accepted. -/
def Released (d : Driver) (l : Line) : Prop :=
  d.status.connected = true ∧ l.isOpen = true ∧ l.Settled ∧
    onTime answers 2 l.waits l.asked = true ∧ (answers (l.asked+1)).accepted = true

omit hfuel in
theorem attempted_next (hs : l.Settled) {k : ℕ} (h : onTime answers (k+1) l.waits l.asked = true) :
    brings l.waits (replyLength answers l.asked) = true ∧ (attempted answers l).Settled ∧
      onTime answers k (attempted answers l).waits (attempted answers l).asked = true := by
  rw [onTime,Bool.and_eq_true] at h
  obtain ⟨hb,hk⟩ := h
  obtain ⟨hst,_,hw⟩ := attempted_facts answers hs hb
  refine ⟨hb,hst,?_⟩
  rw [hw]
  exact hk

theorem pulse_released (number : ℤ) (durationMs : ℕ)
    (h : ∀ n kind ms, ∃ st d₁ l₁, Goes (control (panel answers) fuel 1 n kind ms) d l st d₁ l₁ ∧
      (0 ≤ st → Released answers d₁ l₁)) :
    ∃ r d' l', Goes (pulseOutput (panel answers) fuel number false durationMs) d l r d' l' ∧
      (r.1 = HSF_OK → r.2 = HSF_OK) := by
  by_cases hi : number < 1 ∨ 255 < number ∨ 60000 < durationMs
  · refine ⟨( HSF_ERR_INVALID_ARG,HSF_ERR_INVALID_ARG),d,l,?_,id⟩
    rw [pulseOutput,if_pos hi]
    exact Goes.pure _
  · obtain ⟨st,d₁,l₁,hg,hr⟩ := h (UInt8.ofInt number) 1 (.ofNat (max 1 ((durationMs+999)/1000)))
    by_cases hn : st < 0
    · refine ⟨(st,st),d₁,l₁,?_,id⟩
      rw [pulseOutput,if_neg hi]
      refine hg.bind ?_
      rw [if_pos hn]
      exact Goes.pure _
    · obtain ⟨hc,ho,hs,ht,hacc⟩ := hr (not_lt.mp hn)
      obtain ⟨hb,hs₁,ht₁⟩ := attempted_next answers hs ht
      obtain ⟨frame,hg₁⟩ := control_in_time answers hfuel hb hc ho hs 1 (UInt8.ofInt number) 1 0
      obtain ⟨hb₂,_,_⟩ := attempted_next answers hs₁ ht₁
      obtain ⟨frame',hg₂⟩ := control_in_time answers hfuel hb₂ (d := { d₁ with frame := frame }) hc ho
        hs₁ 4 (UInt8.ofInt number) 0 0
      have hlast : outcome answers (attempted answers l₁) = HSF_OK := by
        rw [(outcome_in_time answers hb₂).1]
        exact if_pos hacc
      refine ⟨(if outcome answers l₁ = HSF_OK ∨ outcome answers (attempted answers l₁) = HSF_OK then
          HSF_OK else if outcome answers l₁ < 0 then outcome answers l₁
          else outcome answers (attempted answers l₁),outcome answers (attempted answers l₁)),
        { d₁ with frame := frame' },attempted answers (attempted answers l₁),?_,fun _ => hlast⟩
      rw [pulseOutput,if_neg hi]
      refine hg.bind ?_
      rw [if_neg hn,if_neg (by simp)]
      exact hg₁.bind (hg₂.bind (Goes.pure _))

end Door

def begin (next : List (Option (List ℕ))) : World Buffer Driver Line :=
  ⟨Driver.zero,Line.start next,[]⟩

def step (w : World Buffer Driver Line) (call : Call) : World Buffer Driver Line :=
  (perform (panel answers) patience call w).2

/-- The call returns. If it returns OK on a reply then this is the reply to the last frame that it
has sent. -/
def OwnReply (w : World Buffer Driver Line) (call : Call) : Prop :=
  ∃ status last, (perform (panel answers) patience call w).1 = some (status,last) ∧
    (asking call = true → status = HSF_OK →
      last = HSF_OK ∧ w.link.asked < (step answers w call).link.asked ∧
        (step answers w call).link.Own)

/-- The requests of a door pulse: three commands, after a CONNECT unless the driver has one. -/
def doorRequests (w : World Buffer Driver Line) : ℕ :=
  if w.driver.status.connected = true ∧ w.link.isOpen = true then 3 else 4

/-- A pulse of a door finds a connection that answers all its requests in time, and the panel
accepts the last one. -/
def DoorInTime (w : World Buffer Driver Line) : Call → Prop
  | .write address _ => address.a1 = 3 → w.link.ensured.1 = HSF_OK ∧
      onTime answers (doorRequests w) w.link.ensured.2.waits w.link.asked = true ∧
      (answers (w.link.asked+doorRequests w-1)).accepted = true
  | _ => True

variable {w : World Buffer Driver Line}

theorem door_control (h : Sound answers w.driver w.link) (hok : w.link.ensured.1 = HSF_OK)
    (ht : onTime answers (doorRequests w) w.link.ensured.2.waits w.link.asked = true)
    (hacc : (answers (w.link.asked+doorRequests w-1)).accepted = true) {fuel : ℕ}
    (hfuel : patience ≤ fuel) (n kind ms : UInt8) :
    ∃ st d₁ l₁, Goes (control (panel answers) fuel 1 n kind ms) w.driver w.link st d₁ l₁ ∧
      (0 ≤ st → Released answers d₁ l₁) := by
  obtain ⟨has,⟨_,ho,hs⟩ | ⟨hf,_⟩⟩ := Line.ensured_cases w.link h.boundary
  · by_cases hc : w.driver.status.connected = true ∧ w.link.isOpen = true
    · have he : w.link.ensured.2 = w.link := by rw [Line.ensured,if_pos hc.2]
      rw [he] at ho hs ht
      rw [doorRequests,if_pos hc] at ht hacc
      obtain ⟨hb,hs₁,ht₁⟩ := attempted_next answers hs ht
      obtain ⟨frame,hg⟩ := control_in_time answers hfuel hb hc.1 ho hs 1 n kind ms
      exact ⟨_,_,_,hg,fun _ => ⟨hc.1,ho,hs₁,ht₁,hacc⟩⟩
    · rw [doorRequests,if_neg hc] at ht hacc
      rw [← has] at ht
      obtain ⟨hb,hs₁,ht₁⟩ := attempted_next answers hs ht
      rw [has] at hb
      obtain ⟨st,d₁,l₁,hg,hr⟩ := connect_in_time answers hfuel h hok hb
      have hl : Goes (linkOpen (panel answers) : Io Line Bool) w.driver w.link w.link.isOpen w.driver
          w.link := fun hit => ⟨hit,rfl⟩
      by_cases hn : st < 0
      · refine ⟨st,d₁,l₁,Goes.get.bind (hl.bind ?_),fun h0 => absurd hn (not_lt.mpr h0)⟩
        rw [if_neg hc]
        refine hg.bind ?_
        rw [if_pos hn]
        exact Goes.pure _
      · obtain ⟨hcn,rfl⟩ := hr (not_lt.mp hn)
        obtain ⟨hb₁,hs₂,ht₂⟩ := attempted_next answers hs₁ ht₁
        obtain ⟨frame,hg₁⟩ := command_in_time answers hfuel hb₁ ho hs₁ 1 n kind ms (d := d₁)
        refine ⟨outcome answers (attempted answers w.link.ensured.2),{ d₁ with frame := frame },
          attempted answers (attempted answers w.link.ensured.2),
          Goes.get.bind (hl.bind ?_),fun _ => ⟨hcn,ho,hs₂,ht₂,?_⟩⟩
        · rw [if_neg hc]
          refine hg.bind ?_
          rw [if_neg hn]
          exact hg₁
        · rw [← has] at hacc
          exact hacc
  · rw [hok] at hf
    exact absurd hf (by decide)

/-- Of a pair of statuses the second is OK if the first is. -/
def Backed (r : Status×Status) : Prop := r.1 = HSF_OK → r.2 = HSF_OK

@[reducible] def Backs (m : Io Line (Status×Status)) : Prop :=
  Triple (fun _ => True) (fun _ => True) m (fun r _ => Backed r)

theorem anyhow {α : Type} (m : Io Line α) :
    Triple (fun _ => True) (fun _ => True) m (fun _ _ => True) :=
  fun _ _ => ⟨trivial,fun _ _ => trivial⟩

theorem pure_backs {r : Status×Status} (h : Backed r) : Backs (pure r) :=
  Triple.pure r (fun _ _ => ⟨trivial,h⟩)

theorem pulse_backs (fuel : ℕ) (number : ℤ) (durationMs : ℕ) :
    Backs (pulseOutput (panel answers) fuel number true durationMs) := by
  refine Triple.ite (fun _ => pure_backs id) (fun _ => (anyhow _).bind (fun st => ?_))
  refine Triple.ite (fun _ => pure_backs id) (fun _ => Triple.ite (fun _ => ?_) (fun h => absurd rfl h))
  exact (anyhow _).bind (fun st => pure_backs id)

theorem write_backs (fuel : ℕ) (addr : DeviceAddress) (value : Value) (ha : addr.a1 ≠ 3) :
    Backs (driverWrite (panel answers) fuel addr value) := by
  refine (anyhow _).bind (fun self => Triple.ite (fun _ => pure_backs id) (fun _ => ?_))
  cases duration value with
  | none => exact pure_backs id
  | some durationMs =>
    refine Triple.ite (fun _ => pure_backs id) (fun hx => ?_)
    have h4 : addr.a1 = 4 := by
      by_contra hn
      exact hx ⟨ha,hn⟩
    rw [h4]
    refine (pulse_backs answers fuel _ _).bind ?_
    rintro ⟨st,last⟩
    intro w hw
    exact ((anyhow _).bind (fun _ => pure_backs hw)) w trivial

theorem perform_backs (fuel : ℕ) (call : Call) (h : ∀ address value, call = .write address value →
    address.a1 ≠ 3) : Backs (perform (panel answers) fuel call) := by
  cases call with
  | write addr value => exact write_backs answers fuel addr value (h addr value rfl)
  | read addr =>
    refine (anyhow _).bind ?_
    rintro ⟨st,value⟩
    exact pure_backs id
  | initialized cfg => exact (anyhow _).bind (fun st => pure_backs id)
  | start => exact (anyhow _).bind (fun st => pure_backs id)
  | stop => exact (anyhow _).bind (fun st => pure_backs id)
  | health => exact (anyhow _).bind (fun st => pure_backs id)

theorem finish_goes (count : Status → DriverStatus → DriverStatus) (st : Status) (d : Driver) (l : Line) :
    ∃ d', Goes (finish count st : Io Line Unit) d l () d' l :=
  ⟨_,(Goes.set _).bind ((Goes.touch _).bind (Goes.set _))⟩

/-- A pulse of a door that is answered in time. -/
theorem door_backed (h : Sound answers w.driver w.link) (addr : DeviceAddress) (value : Value)
    (h3 : addr.a1 = 3) (hd : DoorInTime answers w (.write addr value)) :
    ∃ r d' l', Goes (driverWrite (panel answers) patience addr value) w.driver w.link r d' l' ∧
      Backed r := by
  obtain ⟨hok,ht,hacc⟩ := hd h3
  by_cases hr : w.driver.running = false
  · refine ⟨( HSF_ERR_STATE,HSF_ERR_STATE),w.driver,w.link,Goes.get.bind ?_,id⟩
    rw [if_pos hr]
    exact Goes.pure _
  · cases hdv : duration value with
    | none =>
      refine ⟨( HSF_ERR_INVALID_ARG,HSF_ERR_INVALID_ARG),w.driver,w.link,Goes.get.bind ?_,id⟩
      rw [if_neg hr,hdv]
      exact Goes.pure _
    | some durationMs =>
      obtain ⟨⟨st,last⟩,d',l',hg,hb⟩ := pulse_released answers le_rfl (Int.bmod addr.a2 (2^32))
        durationMs (door_control answers h hok ht hacc le_rfl)
      obtain ⟨d'',hf⟩ := finish_goes countWrite st d' l'
      refine ⟨(st,last),d'',l',Goes.get.bind ?_,hb⟩
      rw [if_neg hr,hdv]
      dsimp only
      rw [if_neg (by simp [h3]),show decide (addr.a1 = 4) = false by simp [h3]]
      exact hg.bind (hf.bind (Goes.pure _))

/-- What a call returns is the status of its last exchange, or this was accepted. -/
theorem last_accepted (h : Sound answers w.driver w.link) (call : Call)
    (hd : DoorInTime answers w call) {r : Status×Status}
    (hr : (perform (panel answers) patience call w).1 = some r) : Backed r := by
  by_cases hn : ∀ address value, call = .write address value → address.a1 ≠ 3
  · exact (perform_backs answers patience call hn w trivial).2 r hr
  · push Not at hn
    obtain ⟨address,value,rfl,h3⟩ := hn
    obtain ⟨r',d',l',hg,hb⟩ := door_backed answers h address value h3 hd
    obtain ⟨touched',hp⟩ := hg w.touched
    have he : some r' = some r := (congrArg Prod.fst hp).symm.trans hr
    cases he
    exact hb

theorem step_sound (h : Sound answers w.driver w.link) (call : Call) :
    Sound answers (step answers w call).driver (step answers w call).link ∧
      ∃ r, (perform (panel answers) patience call w).1 = some r ∧
        (asking call = true ∧ 0 ≤ r.2 → Replied w.link (step answers w call).link) := by
  obtain ⟨r,d',l',hg,hs,_,hz⟩ :=
    perform_ends answers le_rfl call w.driver w.link w.link h le_rfl False.elim
  obtain ⟨touched',hp⟩ := hg w.touched
  have hw : (perform (panel answers) patience call w).2 = ⟨d',l',touched'⟩ := congrArg Prod.snd hp
  rw [step,hw]
  exact ⟨hs,r,congrArg Prod.fst hp,hz⟩

/-- In every history on whose connections the first command is answered in time if the CONNECT is,
and whose door pulses are answered in time and accepted, each call that returns OK does so on the
panel's reply to its last frame. -/
theorem own_replies (next : List (Option (List ℕ))) (hp : Prompt answers next) (calls : List Call)
    (hm : Runs.Meets (step answers) (DoorInTime answers) (begin next) calls) :
    ∀ done call rest, calls = done++call::rest →
      OwnReply answers (Runs.run (step answers) (begin next) done) call := by
  rintro done call rest rfl
  have hs : Sound answers (Runs.run (step answers) (begin next) done).driver
      (Runs.run (step answers) (begin next) done).link :=
    Runs.run_always (step answers) (DoorInTime answers) (fun w => Sound answers w.driver w.link)
      (fun w call hw _ => (step_sound answers hw call).1) _ done _
      ⟨nofun,.inl rfl,hp⟩ hm
  have hd := ((Runs.meets_append _ _ _ done (call::rest)).mp hm).2.1
  obtain ⟨_,⟨status,last⟩,hr,hz⟩ := step_sound answers hs call
  refine ⟨status,last,hr,fun ha hok => ?_⟩
  have hl : last = HSF_OK := last_accepted answers hs call hd hr hok
  obtain ⟨hk,how,_⟩ := hz ⟨ha,hl.ge⟩
  exact ⟨hl,hk,how⟩

end

def obliging (_ : ℕ) : Answer := ⟨true,[],by simp⟩

def doorPulse : Call := .write ⟨3,2,0,false⟩ (.u64 1000)

/-- A door is pulsed over a connection that answers in time. -/
theorem own_replies_door :
    OwnReply obliging (Runs.run (step obliging) (begin [some [8,8,8,8]])
      [.initialized ⟨2000,[]⟩,.start]) doorPulse := by
  refine own_replies obliging [some [8,8,8,8]] ?_ [.initialized ⟨2000,[]⟩,.start,doorPulse] ?_
    [.initialized ⟨2000,[]⟩,.start] doorPulse [] rfl
  · intro waits hw n _
    cases mem_singleton.mp hw
    rfl
  · exact ⟨trivial,trivial,fun _ => ⟨by decide +kernel,by decide +kernel,rfl⟩,trivial⟩

def acknowledge (n : ℕ) : Answer := ⟨decide (n ≠ 6),[],by simp⟩

def pulse : Call := .write ⟨4,2,0,false⟩ (.u64 1000)

def beforePulse : World Buffer Driver Line :=
  Runs.run (step acknowledge) (begin [some [8,0],some [8,0,8,8,8]])
    [.initialized ⟨2000,[]⟩,.start,pulse]

/-- The first pulse is not answered in time, twice. After that the second one is reported as
accepted although the panel has refused its last frame: what was read is the reply to the one
before. -/
theorem earlier_reply_accepted :
    ¬OwnReply acknowledge beforePulse pulse ∧
      (perform (panel acknowledge) patience pulse beforePulse).1 = some (HSF_OK,HSF_OK) ∧
      (step acknowledge beforePulse pulse).link.taken = List.replicate 8 5 ∧
      (step acknowledge beforePulse pulse).link.asked = 7 := by
  have hr : (perform (panel acknowledge) patience pulse beforePulse).1 = some (HSF_OK,HSF_OK) := by
    decide +kernel
  have ho : ¬(step acknowledge beforePulse pulse).link.Own := by decide +kernel
  refine ⟨?_,hr,by decide +kernel,by decide +kernel⟩
  rintro ⟨status,last,hs,how⟩
  cases hr.symm.trans hs
  exact ho (how rfl rfl).2.2

end EMaster.C3Driver
