import EMaster.ModbusRtu

/-!
# What the RTU slave makes of a byte stream

However the serial port cuts a stream of requests into pieces, the slave hands each PDU
for its unit to the protocol once and in order. A frame of a function it cannot predict
the length of stops it for good.
-/

set_option autoImplicit false

namespace EMaster.ModbusRtu
open Framing ModbusStore ModbusProtocol Runs List

namespace Slave

/-- The loop serves the frames cut off the stream, one after the other. -/
theorem run_frames (unit : UInt8) (s : State) (pieces : List Bytes) :
    run (pass unit) s pieces =
      ⟨(taken predictor s.buffer pieces).foldl (serve unit) s.served,
        left predictor s.buffer pieces⟩ := by
  induction pieces generalizing s with
  | nil => rfl
  | cons piece pieces ih =>
    rw [run,taken,left,ih,pass]
    obtain ⟨frame,rest,_,_,hf⟩ | ⟨_,hf⟩ := feed_cases (p := predictor) s.buffer piece
    · rw [hf]
      rfl
    · rw [hf]
      rfl

theorem serve_consumed (unit : UInt8) (s : Served) (frame : Bytes) :
    (serve unit s frame).consumed = s.consumed+frame.length := by
  rw [serve]
  split
  · rfl
  · split_ifs <;> rfl

theorem served_consumed (unit : UInt8) (s : Served) (frames : List Bytes) :
    (frames.foldl (serve unit) s).consumed = s.consumed+frames.flatten.length := by
  induction frames generalizing s with
  | nil => rfl
  | cons frame frames ih =>
    rw [foldl_cons,ih,serve_consumed,flatten_cons,length_append]
    omega

end Slave

/-- A request as it may come on the line: of a function with a prescribed length. -/
structure Request where
  unit : UInt8
  pdu : Bytes
  prescribed : FixedRequest (functionOf pdu) ∧ pdu.length = 5 ∨
    CountedRequest (functionOf pdu) ∧ pdu.length = 6+(pdu.getD 5 0).toNat

namespace Request

def bytes (request : Request) : Bytes := buildModbusRtuFrame request.unit request.pdu

theorem pdu_nonempty (req : Request) : req.pdu ≠ [] := by
  intro h
  have := req.prescribed
  simp [h] at this

theorem function_get (pdu : Bytes) : pdu.getD 0 0 = functionOf pdu := by
  cases pdu <;> rfl

theorem is_frame (req : Request) : IsFrame Slave.predictor req.bytes := by
  have hp := length_pos_iff.mpr req.pdu_nonempty
  have hl : req.bytes.length = req.pdu.length+3 := built_length _ _
  have hf : req.bytes.getD 1 0 = functionOf req.pdu := by
    rw [bytes,built_get _ _ 0 hp,function_get]
  refine ⟨?_,by simp [bytes,buildModbusRtuFrame]⟩
  change Slave.expectedFrameSize req.bytes = req.bytes.length
  rw [Slave.expectedFrameSize,hf,hl,if_neg (by omega)]
  rcases req.prescribed with ⟨hfx,hfv⟩ | ⟨hc,hcn⟩
  · rw [if_pos hfx]
    omega
  · have hfr : ¬FixedRequest (functionOf req.pdu) := by
      rcases hc with h | h <;> rw [h] <;> decide
    have hs : req.bytes.getD 6 0 = req.pdu.getD 5 0 := built_get _ _ 5 (by omega)
    rw [if_neg hfr,if_pos ⟨hc,by omega⟩,hs]
    omega

theorem frames_of_requests (reqs : List Request) :
    ∀ f ∈ reqs.map bytes, IsFrame Slave.predictor f := by
  intro f hf
  obtain ⟨req,_,rfl⟩ := mem_map.mp hf
  exact req.is_frame

end Request

namespace Slave

theorem serve_built (unitId unit : UInt8) {pdu : Bytes} (h : pdu ≠ []) (s : Served) :
    (serve unitId s (buildModbusRtuFrame unit pdu)).handed =
      s.handed++if unit = unitId then [(s.consumed,pdu)] else [] := by
  rw [serve,parse_built unit h]
  by_cases hu : unit = unitId <;> simp [hu]

theorem served_requests (unit : UInt8) (reqs : List Request) (s : Served) :
    ((reqs.map Request.bytes).foldl (serve unit) s).handed.map Prod.snd =
      s.handed.map Prod.snd++
        (reqs.filter (fun request => request.unit = unit)).map Request.pdu := by
  induction reqs generalizing s with
  | nil => simp
  | cons request reqs ih =>
    rw [map_cons,foldl_cons,ih,Request.bytes,serve_built _ _ request.pdu_nonempty]
    by_cases hu : request.unit = unit <;> simp [hu]

/-- Whatever pieces a stream of requests comes in, the PDUs for the unit of the slave are
handed to the protocol, each once and in order, and the buffer runs empty. -/
theorem requests_handed (unitId : UInt8) (store : Store) (requests : List Request)
    (pieces : List Bytes) (n : ℕ)
    (hpieces : pieces.flatten = (requests.map Request.bytes).flatten)
    (hn : requests.length ≤ n) :
    (run (pass unitId) (start store) (pieces++List.replicate n [])).served.handed.map Prod.snd =
        (requests.filter (fun request => request.unit = unitId)).map Request.pdu ∧
      (run (pass unitId) (start store) (pieces++List.replicate n [])).buffer = [] := by
  obtain ⟨ht,hl⟩ := all_taken (Request.frames_of_requests _) _ hpieces n
    (by rwa [length_map])
  rw [run_frames,start,ht,hl,served_requests]
  exact ⟨rfl,rfl⟩

end Slave

def coilRequest : Request := ⟨1,[5,0,3,0xFF,0],by decide⟩

def foreignRequest : Request := ⟨2,[16,0,0,0,1,2,0,9],by decide⟩

theorem split_requests_handed :
    (run (Slave.pass 1) (Slave.start Store.initial)
        ([coilRequest.bytes.take 3,[],coilRequest.bytes.drop 3++foreignRequest.bytes]++
          List.replicate 2 [])).served.handed.map Prod.snd = [[5,0,3,0xFF,0]] ∧
      (run (Slave.pass 1) (Slave.start Store.initial)
        ([coilRequest.bytes.take 3,[],coilRequest.bytes.drop 3++foreignRequest.bytes]++
          List.replicate 2 [])).buffer = [] :=
  Slave.requests_handed 1 Store.initial [coilRequest,foreignRequest] _ 2
    (by simp [← append_assoc]) le_rfl

namespace Slave

theorem frame_function {f : Bytes} (h : IsFrame predictor f) :
    2 ≤ f.length ∧ (FixedRequest (f.getD 1 0) ∨ CountedRequest (f.getD 1 0)) := by
  have hp : 0 < expectedFrameSize f := frame_pos h
  rw [expectedFrameSize] at hp
  split_ifs at hp with hs hf hc
  · exact absurd hp (lt_irrefl 0)
  · exact ⟨not_lt.mp hs,.inl hf⟩
  · exact ⟨not_lt.mp hs,.inr hc.1⟩
  · exact absurd hp (lt_irrefl 0)

theorem serve_handed (unit : UInt8) (s : Served) (frame : Bytes) :
    ∃ more, (serve unit s frame).handed = s.handed++more ∧ ∀ x ∈ more, x.1 = s.consumed := by
  rw [serve]
  split
  · exact ⟨[],by simp,by simp⟩
  · split_ifs
    · exact ⟨[],by simp,by simp⟩
    · exact ⟨_,rfl,by simp⟩

theorem served_handed (unit : UInt8) (frames : List Bytes) (s : Served) (x : ℕ×Bytes)
    (h : x ∈ s.handed) : x ∈ (frames.foldl (serve unit) s).handed := by
  induction frames generalizing s with
  | nil => exact h
  | cons frame frames ih =>
    obtain ⟨more,hm,_⟩ := serve_handed unit s frame
    exact ih _ (hm ▸ mem_append_left more h)

theorem handed_place (unit : UInt8) (frames : List Bytes) (s : Served) (x : ℕ×Bytes)
    (h : x ∈ (frames.foldl (serve unit) s).handed) :
    x ∈ s.handed ∨ ∃ a b, frames = a++b ∧ x.1 = s.consumed+a.flatten.length := by
  induction frames generalizing s with
  | nil => exact .inl h
  | cons frame frames ih =>
    obtain ⟨more,hm,hp⟩ := serve_handed unit s frame
    obtain hs | ⟨a,b,rfl,hl⟩ := ih _ h
    · rw [hm,mem_append] at hs
      exact hs.imp id (fun hn => ⟨[],frame::frames,rfl,hp x hn⟩)
    · refine .inr ⟨frame::a,b,rfl,?_⟩
      rw [hl,serve_consumed,flatten_cons,length_append]
      omega

/-- Behind a function that is not predicted the buffer only grows. -/
theorem wedged_run (unit : UInt8) (s : State) (pieces : List Bytes)
    (hl : 2 ≤ s.buffer.length)
    (hfn : ¬(FixedRequest (s.buffer.getD 1 0) ∨ CountedRequest (s.buffer.getD 1 0))) :
    run (pass unit) s pieces = ⟨s.served,s.buffer++pieces.flatten⟩ := by
  induction pieces generalizing s with
  | nil =>
    rw [flatten_nil,append_nil]
    rfl
  | cons piece pieces ih =>
    have hg : (s.buffer++piece).getD 1 0 = s.buffer.getD 1 0 :=
      getD_append s.buffer piece 0 1 (by omega)
    have hw : feed predictor s.buffer piece = (none,s.buffer++piece) := by
      apply feed_waits
      intro f rest hf hb
      obtain ⟨ht,hp⟩ := frame_function hf
      rw [← getD_append f rest 0 1 (by omega),← hb,hg] at hp
      exact hfn hp
    rw [run,pass,hw,ih,flatten_cons,append_assoc]
    · rw [length_append]
      omega
    · rwa [hg]

def kMaxFrame : ℕ := 256

def Implemented (function : UInt8) : Prop := IsRead function ∨ IsWrite function

/-- The slave gets over the bytes before the requests: a frame of an unknown function is
answered with the exception for it, the requests are handed on from where they stand, and
while the slave waits the buffer is no longer than a frame can be. -/
structure Recovers (unitId : UInt8) (store : Store) (lead : Bytes) (requests : List Request)
    (pieces : List Bytes) : Prop where
  answered : ∀ function payload, lead = buildModbusRtuFrame unitId (function::payload) →
    ¬Implemented function → ∃ n,
      buildModbusRtuFrame unitId (exception function kIllegalFunction) ∈
        (run (pass unitId) (start store) (pieces++List.replicate n [])).served.written
  handed : ∀ before request after, requests = before++request::after → ∃ n,
    (lead.length+(before.map Request.bytes).flatten.length,request.pdu) ∈
      (run (pass unitId) (start store) (pieces++List.replicate n [])).served.handed
  bounded : ∀ ps piece qs, pieces = ps++piece::qs →
    (feed predictor (run (pass unitId) (start store) ps).buffer piece).1 = none →
    ((run (pass unitId) (start store) ps).buffer++piece).length ≤ kMaxFrame

/-- Bytes that are cut into pieces of the predicted lengths without a rest. -/
def Splits (lead : Bytes) : Prop :=
  ∃ segments : List Bytes, lead = segments.flatten ∧
    ∀ g ∈ segments, IsFrame predictor g ∧ g.length ≤ kMaxFrame+1

theorem predicted_implemented {function : UInt8}
    (h : FixedRequest function ∨ CountedRequest function) : Implemented function := by
  rcases h with (h | rfl | rfl) | (rfl | rfl)
  · exact .inl h
  all_goals exact .inr (by decide)

section Recovery
variable {unit : UInt8} {store : Store} {lead : Bytes} {reqs : List Request}

/-- All frames of a stream that splits are served, each where it stands. -/
theorem frame_handed {before after : List Bytes} {req : Request} {pieces : List Bytes}
    (hu : req.unit = unit)
    (hf : ∀ f ∈ before++req.bytes::after, IsFrame predictor f)
    (hp : pieces.flatten = (before++req.bytes::after).flatten) :
    ∃ n, (before.flatten.length,req.pdu) ∈
      (run (pass unit) (start store) (pieces++List.replicate n [])).served.handed := by
  obtain ⟨ht,_⟩ := all_taken hf _ hp _ le_rfl
  refine ⟨(before++req.bytes::after).length,?_⟩
  rw [run_frames,start,ht,foldl_append,foldl_cons]
  apply served_handed
  rw [Request.bytes,serve_built _ _ req.pdu_nonempty,if_pos hu,served_consumed,Nat.zero_add]
  exact mem_append_right _ mem_cons_self

theorem split_recovers (hun : ∀ request ∈ reqs, request.unit = unit)
    (hsz : ∀ request ∈ reqs, request.bytes.length ≤ kMaxFrame) (hsp : Splits lead)
    {pieces : List Bytes}
    (hpc : pieces.flatten = lead++(reqs.map Request.bytes).flatten) :
    Recovers unit store lead reqs pieces := by
  obtain ⟨segs,rfl,hs⟩ := hsp
  have hfr : ∀ f ∈ segs++reqs.map Request.bytes, IsFrame predictor f := by
    intro f hf
    rcases mem_append.mp hf with hf | hf
    · exact (hs f hf).1
    · exact Request.frames_of_requests reqs f hf
  refine ⟨?_,?_,?_⟩
  · intro function payload hl hu
    cases segs with
    | nil =>
      rw [flatten_nil] at hl
      cases hl
    | cons g segs =>
      obtain ⟨ht,hp⟩ := frame_function (hs g mem_cons_self).1
      have hfn : g.getD 1 0 = function := by
        rw [← getD_append g segs.flatten 0 1 (by omega),← flatten_cons,hl]
        rfl
      rw [hfn] at hp
      exact absurd (predicted_implemented hp) hu
  · rintro before request after rfl
    have hls : segs++(before++request::after).map Request.bytes =
        (segs++before.map Request.bytes)++request.bytes::after.map Request.bytes := by simp
    rw [hls] at hfr
    rw [← length_append,← flatten_append]
    apply frame_handed (hun request (by simp)) hfr
    rw [hpc,← flatten_append,hls]
  · intro ps piece qs hc hw
    rw [run_frames] at hw ⊢
    have hst : []++(ps++piece::qs).flatten =
        (segs++reqs.map Request.bytes).flatten := by
      rw [nil_append,← hc,hpc,flatten_append]
    obtain he | ⟨f,hf,hsh⟩ := waits_short hfr hst hw
    · rw [start,he]
      exact Nat.zero_le _
    · have hsi : f.length ≤ kMaxFrame+1 := by
        rcases mem_append.mp hf with hf | hf
        · exact (hs f hf).2
        · obtain ⟨request,hr,rfl⟩ := mem_map.mp hf
          exact Nat.le_succ_of_le (hsz request hr)
      change (left predictor [] ps++piece).length ≤ kMaxFrame
      omega

/-- If the first request is handed on from where it stands, the bytes before it were cut
up without a rest. -/
theorem handed_split {req : Request} {rest : Bytes} {n : ℕ}
    (h : (lead.length,req.pdu) ∈ (run (pass unit) (start store)
      ([lead++rest]++List.replicate n [])).served.handed) :
    ∃ segments : List Bytes, lead = segments.flatten ∧ ∀ g ∈ segments, IsFrame predictor g := by
  rw [run_frames] at h
  obtain ⟨hf,ha⟩ := taken_flatten (p := predictor) [] ([lead++rest]++List.replicate n [])
  obtain hst | ⟨a,b,hab,hp⟩ := handed_place unit _ _ _ h
  · cases hst
  · change taken predictor [] ([lead++rest]++List.replicate n []) = a++b at hab
    rw [hab] at hf ha
    refine ⟨a,?_,fun g hg => ha g (mem_append_left b hg)⟩
    have hs : lead++rest = a.flatten++(b.flatten++
        left predictor [] ([lead++rest]++List.replicate n [])) := by
      simpa using hf
    have hl : lead.length = a.flatten.length := by
      simpa [start] using hp
    exact (append_inj hs hl).1

theorem part_waits (before : List Bytes) (g : Bytes)
    (hf : ∀ f ∈ before, IsFrame predictor f) (hg : IsFrame predictor g) :
    (run (pass unit) (start store) before).buffer = [] ∧
      (feed predictor [] g.dropLast).1 = none := by
  have hl : g = g.dropLast++[g.getLast hg.2] := (dropLast_append_getLast hg.2).symm
  refine ⟨?_,by rw [feed_part hg hl (by simp)]⟩
  rw [run_frames]
  exact (whole_taken hf).2

theorem recovers_split (hne : reqs ≠ [])
    (h : ∀ pieces : List Bytes, pieces.flatten = lead++(reqs.map Request.bytes).flatten →
      Recovers unit store lead reqs pieces) : Splits lead := by
  obtain ⟨req,others,rfl⟩ := exists_cons_of_ne_nil hne
  obtain ⟨n,hh⟩ := (h [lead++((req::others).map Request.bytes).flatten]
    (by simp)).handed [] req others rfl
  obtain ⟨segs,rfl,hfr⟩ := handed_split (by simpa using hh)
  refine ⟨segs,rfl,fun g hg => ⟨hfr g hg,?_⟩⟩
  obtain ⟨before,after,rfl⟩ := append_of_mem hg
  have hfm := hfr g hg
  obtain ⟨hb,hw⟩ := @part_waits unit store before g (fun f hf => hfr f (mem_append_left _ hf)) hfm
  have hc : (before++g.dropLast::[[g.getLast hfm.2]++(after.flatten++
      ((req::others).map Request.bytes).flatten)]).flatten =
      (before++g::after).flatten++((req::others).map Request.bytes).flatten := by
    conv_rhs => rw [← dropLast_append_getLast hfm.2]
    simp
  have hbn := (h _ hc).bounded before g.dropLast _ rfl (by rw [hb]; exact hw)
  rw [hb,nil_append,length_dropLast] at hbn
  omega

end Recovery

/-- Before requests for its unit the slave gets over exactly the bytes that its own
prediction cuts into pieces without a rest, none longer than a frame and a byte. -/
theorem recovers_iff (unitId : UInt8) (store : Store) (lead : Bytes) (requests : List Request)
    (hne : requests ≠ []) (hunits : ∀ request ∈ requests, request.unit = unitId)
    (hsizes : ∀ request ∈ requests, request.bytes.length ≤ kMaxFrame) :
    (∀ pieces : List Bytes, pieces.flatten = lead++(requests.map Request.bytes).flatten →
      Recovers unitId store lead requests pieces) ↔ Splits lead :=
  ⟨recovers_split hne,split_recovers hunits hsizes⟩

end Slave

theorem coil_request_recovers :
    (∀ pieces : List Bytes,
      pieces.flatten = [9,5,0,0,0,0,0,0]++([coilRequest].map Request.bytes).flatten →
        Slave.Recovers 1 Store.initial [9,5,0,0,0,0,0,0] [coilRequest] pieces) ↔
      Slave.Splits [9,5,0,0,0,0,0,0] :=
  Slave.recovers_iff 1 _ _ _ (by simp)
    (by simp [coilRequest]) (by simp [coilRequest,Request.bytes,built_length,Slave.kMaxFrame])

/-- A frame of function seven is never answered, and the request behind it never handed
on. -/
theorem unknown_function_wedges :
    (run (Slave.pass 1) (Slave.start Store.initial)
        [buildModbusRtuFrame 1 [7]++coilRequest.bytes]).buffer =
          buildModbusRtuFrame 1 [7]++coilRequest.bytes ∧
      ¬Slave.Recovers 1 Store.initial (buildModbusRtuFrame 1 [7]) [coilRequest]
        [buildModbusRtuFrame 1 [7]++coilRequest.bytes] := by
  have hf : Slave.pass 1 (Slave.start _)
      (buildModbusRtuFrame 1 [7]++coilRequest.bytes) =
        ⟨⟨Store.initial,0,[],[]⟩,buildModbusRtuFrame 1 [7]++coilRequest.bytes⟩ := rfl
  refine ⟨by rw [run,hf,run],?_⟩
  intro h
  obtain ⟨n,hn⟩ := h.handed [] coilRequest [] rfl
  rw [singleton_append,run,hf,Slave.wedged_run _ _ _ (by decide) (by decide)] at hn
  cases hn

end EMaster.ModbusRtu
