import EMaster.LatePeer
import EMaster.ModbusDriver
import EMaster.Runs

/-!
# Late replies to the native Modbus driver

A server answers each request of a connection once and in order, under the identifier of the
request, but its replies may take any time. An exchange closes the connection when it has
waited too long for the first time, but not when it has done so for the second time.
-/

set_option autoImplicit false

namespace EMaster.ModbusDriver
open Bytes Program Transport LatePeer List Line

structure Pdu where
  bytes : Bytes
  sized : bytes ≠ [] ∧ bytes.length ≤ 253

section
variable (pdus : ℕ → Pdu)

/-- The reply has the identifier, the protocol and the unit of the request. -/
def answer (n : ℕ) (request : Bytes) : Bytes :=
  request.take 4++putU16 (.ofNat ((pdus n).bytes.length+1))++[request.getD 6 0]++(pdus n).bytes

theorem answer_length (n : ℕ) (req : Bytes) (h : 4 ≤ req.length) :
    (answer pdus n req).length = 7+(pdus n).bytes.length := by
  simp [answer,putU16,Nat.min_eq_left h]
  omega

section Header
variable (n : ℕ) (transaction : UInt16) (unitId : ℤ) (fn : UInt8) (payload : Bytes)

theorem answer_shape :
    answer pdus n (adu transaction unitId fn payload) =
      putU16 transaction++(putU16 0++(putU16 (.ofNat ((pdus n).bytes.length+1))++
        (UInt8.ofInt unitId::(pdus n).bytes))) := by
  simp [answer,adu,putU16]

/-- The header of the reply is the one that the driver waits for. -/
theorem answer_header :
    getU16 (answer pdus n (adu transaction unitId fn payload)) 0 = transaction ∧
      getU16 (answer pdus n (adu transaction unitId fn payload)) 2 = 0 ∧
      getU16 (answer pdus n (adu transaction unitId fn payload)) 4 =
        .ofNat ((pdus n).bytes.length+1) ∧
      (answer pdus n (adu transaction unitId fn payload)).getD 6 0 = UInt8.ofInt unitId := by
  rw [answer_shape]
  refine ⟨get_put _ [] _,get_put 0 _ _,?_,by simp [putU16]⟩
  rw [← append_assoc (putU16 transaction)]
  exact get_put _ _ _

end Header

def patience : ℕ := 600

abbrev server : VTable Line := Line.vtable (answer pdus)

def replyLength (n : ℕ) : ℕ := 7+(pdus n).bytes.length

/-- One attempt: the request is sent, and what comes in of its reply is read. -/
def attempted (l : Line) (request : Bytes) : Line :=
  (l.sent (answer pdus l.asked request)).after
    ((l.sent (answer pdus l.asked request)).gathered (replyLength pdus l.asked))

section Once
variable (fuel : ℕ) (d : Driver) (l : Line) (fn : UInt8) (src : Buffer) (payload : Bytes)

/-- The reply is read up to where it has come in time. -/
def Receives (n : ℕ) (m : Io Line Status) : Prop :=
  ∃ status d', Goes m d l status d' (l.after (l.gathered n)) ∧
    reconnectable status = !(l.gathered n).ok

theorem receive_head_late (n : ℕ) (ho : l.isOpen = true) (hf : l.Fits)
    (hfuel : patience ≤ fuel) (hl : (l.gathered 7).ok = false) :
    Receives d l (7+n) (receiveReply (server pdus) fuel d fn) := by
  have hh := read_line (answer pdus) d l d.timeoutMs Buffer.header 0 7 fuel ho hf
    (le_trans (by decide) hfuel)
  have ha : l.gathered (7+n) = l.gathered 7 := gathered_late l 7 n hf hl
  refine ⟨HSF_ERR_TIMEOUT,d,?_,by rw [ha,hl]; decide⟩
  rw [ha]
  refine hh.bind ?_
  simp only [Got.status,hl]
  exact Goes.pure _

theorem receive_body {n : ℕ} {header : Bytes} (ho : l.isOpen = true) (hf : l.Fits)
    (hfuel : patience ≤ fuel) (hok : (l.gathered 7).ok = true) (hn : 1 ≤ n ∧ n ≤ 253)
    (hhd : (l.coming.take 7).map Prod.fst = header)
    (ht : getU16 header 0 = d.transaction) (hp : getU16 header 2 = 0)
    (hl : getU16 header 4 = .ofNat (n+1)) (hu : header.getD 6 0 = UInt8.ofInt d.unitId) :
    Receives d l (7+n) (receiveReply (server pdus) fuel d fn) := by
  have hh := read_line (answer pdus) d l d.timeoutMs Buffer.header 0 7 fuel ho hf
    (le_trans (by decide) hfuel)
  have hc : (l.gathered 7).count = 7 := (gather_facts _ _ _ _ hf).1 hok
  have hw : (getU16 header 4).toNat = n+1 := by
    rw [hl, UInt16.toNat_ofNat_of_lt' (by simp [UInt16.size]; omega)]
  have ha : ¬(getU16 header 0 ≠ d.transaction ∨ getU16 header 2 ≠ 0 ∨
      header.getD 6 0 ≠ UInt8.ofInt d.unitId ∨ (getU16 header 4).toNat < 2 ∨
      254 < (getU16 header 4).toNat) := by
    rw [ht,hp,hu,hw]
    simp only [ne_eq,not_true_eq_false,false_or]
    omega
  obtain ⟨hth,haf⟩ := gathered_then l 7 n hf hok
  have hb := read_line (answer pdus) { d with responseLength := n } (l.after (l.gathered 7))
    d.timeoutMs Buffer.response 0 n fuel ho (after_fits l 7 hf)
    (le_trans (by unfold patience; omega) hfuel)
  rw [hc,hhd] at hh
  rw [Receives,haf,hth]
  by_cases hal : ((l.after (l.gathered 7)).gathered n).ok = true
  · rw [Got.status,hal,if_pos rfl] at hb
    set response := (((l.after (l.gathered 7)).coming.take
      ((l.after (l.gathered 7)).gathered n).count).map Prod.fst)
    refine ⟨if response.getD 0 0 = fn ||| 0x80 then HSF_ERR_PROTOCOL
      else if response.getD 0 0 = fn then HSF_OK else HSF_ERR_PROTOCOL,
      { d with responseLength := n, response := response },?_,?_⟩
    · refine hh.bind ?_
      simp only [Got.status,hok]
      refine (Goes.touch _).bind ?_
      rw [if_neg ha,hw]
      exact (Goes.set _).bind (hb.bind ((Goes.set _).bind ((Goes.touch _).bind (Goes.pure _))))
    · rw [hal]
      split_ifs <;> rfl
  · rw [Bool.not_eq_true] at hal
    refine ⟨HSF_ERR_TIMEOUT,{ d with responseLength := n },hh.bind ?_,?_⟩
    · simp only [Got.status,hok]
      refine (Goes.touch _).bind ?_
      rw [if_neg ha,hw]
      refine (Goes.set _).bind (hb.bind ?_)
      simp only [Got.status,hal]
      exact Goes.pure _
    · rw [hal]
      rfl

/-- The reply to the request of an exchange, which has gone out on a connection without
others. -/
theorem receive_answer (ho : l.isOpen = true) (hs : l.Settled)
    (hfuel : patience ≤ fuel) :
    Receives d (l.sent (answer pdus l.asked (adu d.transaction d.unitId fn payload)))
      (replyLength pdus l.asked) (receiveReply (server pdus) fuel d fn) := by
  set reply := answer pdus l.asked (adu d.transaction d.unitId fn payload) with hr
  have hf := sent_fits reply hs.fits
  obtain ⟨ht,hp,hl,hu⟩ := answer_header pdus l.asked d.transaction d.unitId fn payload
  by_cases hok : ((l.sent reply).gathered 7).ok = true
  · have hh : ((l.sent reply).coming.take 7).map Prod.fst = reply.take 7 := by
      simp [sent,hs.1,← map_take,Function.comp_def]
    have hsz := (pdus l.asked).sized
    refine receive_body pdus fuel d (l.sent reply) fn ho hf hfuel hok
      ⟨length_pos_iff.mpr hsz.1,hsz.2⟩ hh ?_ ?_ ?_ ?_
    · rw [← ht]
      simp [getU16,hr]
    · rw [← hp]
      simp [getU16,hr]
    · rw [← hl]
      simp [getU16,hr]
    · rw [← hu]
      simp [hr]
  · exact receive_head_late pdus fuel d (l.sent reply) fn _ ho hf hfuel (by simpa using hok)

/-- One attempt ends, and its time was up unless the waits have brought the whole reply. -/
theorem exchange_once_line (ho : l.isOpen = true) (hs : l.Settled)
    (hp : payload.length+8 ≤ MODBUS_MAX_ADU) (hfuel : patience ≤ fuel) :
    ∃ status d', Goes (exchangeOnce (server pdus) fuel fn src payload) d l status d'
        (attempted pdus l (adu (d.transaction+1) d.unitId fn payload)) ∧
      reconnectable status = !brings l.waits (replyLength pdus l.asked) := by
  obtain ⟨f,rfl⟩ : ∃ f, fuel = f+2 := ⟨fuel-2,by unfold patience at hfuel; omega⟩
  have hl := adu_length (d.transaction+1) d.unitId fn payload
  have hsn := write_line (answer pdus) { d with transaction := d.transaction+1 } l d.timeoutMs
    Buffer.adu (adu (d.transaction+1) d.unitId fn payload) f ho
    (by intro hn; rw [hn,length_nil] at hl; omega)
  obtain ⟨status,d',hr,hst⟩ := receive_answer pdus (f+2) _ l fn _ ho hs hfuel
  refine ⟨status,d',?_,?_⟩
  · refine (Goes.set _).bind (Goes.get.bind ?_)
    rw [if_neg (not_lt.mpr hp)]
    exact (Goes.touch _).bind (hsn.bind hr)
  · have hrp := answer_length pdus l.asked (adu (d.transaction+1) d.unitId fn payload) (by omega)
    rw [hst, gathered_ok _ _ (sent_fits _ hs.fits)
      (by rw [sent_length _ _ hs,hrp]; exact le_rfl)]
    simp [sent,hs.2]

end Once

theorem attempted_settled (l : Line) (req : Bytes) (h : l.Settled) (hrq : 4 ≤ req.length) :
    (attempted pdus l req).Settled ↔ brings l.waits (replyLength pdus l.asked) = true := by
  have hr := read_reply (answer pdus l.asked req) h
  rw [answer_length pdus _ req hrq] at hr
  exact hr

/-- The first reply comes in time, or the connection made after it did not is refused or
brings the second one in time. -/
def InTime (l : Line) : Prop :=
  brings l.ensured.2.waits (replyLength pdus l.asked) = true ∨
    ∀ waits next, l.ensured.2.next = some waits::next →
      brings waits (replyLength pdus (l.asked+1)) = true

/-- From a boundary the program comes to an end, and again at a boundary just if it has sent
no request or the reply has come in time. -/
def Attempts {α : Type} (m : Io Line α) : Prop :=
  ∀ d l, l.AtBoundary → ∃ a d' l', Goes m d l a d' l' ∧
    (l'.AtBoundary ↔ (l.asked < l'.asked → InTime pdus l))

section Exchange
variable (fuel : ℕ) (fn : UInt8) (src : Buffer) (payload : Bytes)

theorem second_line (d : Driver) (l : Line) (hc : l.isOpen = false)
    (hp : payload.length+8 ≤ MODBUS_MAX_ADU) (hfuel : patience ≤ fuel) :
    ∃ status d' l', Goes (do
        let status ← ensureTransportOpen (server pdus) true
        if status < 0 then pure status else exchangeOnce (server pdus) fuel fn src payload)
        d l status d' l' ∧ l.asked ≤ l'.asked ∧
      (l'.AtBoundary ↔ ∀ waits next, l.next = some waits::next →
        brings waits (replyLength pdus l.asked) = true) := by
  have he := @ensure_open_line Buffer Driver (answer pdus) d l
  rw [ensured, if_neg (by simp [hc]), openLink, if_neg (by simp [hc])] at he
  rcases hn : l.next with _ | ⟨_ | waits,next⟩
  · rw [hn] at he
    exact ⟨ HSF_ERR_IO,d,l,he.bind (Goes.pure _),le_rfl,
      iff_of_true (.inl hc) (fun _ _ h => by cases h)⟩
  · rw [hn] at he
    exact ⟨ HSF_ERR_IO,d,_,he.bind (Goes.pure _),le_rfl,
      iff_of_true (.inl hc) (fun _ _ h => by cases h)⟩
  · rw [hn] at he
    obtain ⟨status,d',ho,_⟩ := exchange_once_line pdus fuel d
      { l with isOpen := true, coming := [], arrived := 0, waits := waits, next := next }
      fn src payload rfl ⟨rfl,rfl⟩ hp hfuel
    refine ⟨status,d',_,he.bind ho,Nat.le_succ _,?_⟩
    rw [Line.AtBoundary, attempted_settled _ _ _ ⟨rfl,rfl⟩ (by rw [adu_length]; omega)]
    constructor
    · rintro (hs | hin) ws rest heq
      · cases hs
      · cases heq
        exact hin
    · exact fun hin => .inr (hin waits next rfl)

variable {fuel payload}

theorem exchange_attempts (hp : payload.length+8 ≤ MODBUS_MAX_ADU) (hfuel : patience ≤ fuel) :
    Attempts pdus (exchange (server pdus) fuel fn src payload) := by
  intro d l hb
  by_cases ha : d.attached = true
  · have he := @ensure_open_line Buffer Driver (answer pdus) d l
    obtain ⟨has,⟨hok,hop,hst⟩ | ⟨hfl,hc⟩⟩ := ensured_cases l hb
    · rw [hok] at he
      obtain ⟨st,d',ho,hs⟩ := exchange_once_line pdus fuel d _ fn src _ hop hst hp hfuel
      have hf := attempted_settled pdus l.ensured.2 (adu (d.transaction+1) d.unitId fn payload)
        hst (by rw [adu_length]; omega)
      rw [has] at hs hf
      by_cases hin : brings l.ensured.2.waits (replyLength pdus l.asked) = true
      · rw [hin,Bool.not_true] at hs
        refine ⟨st,d',_,Goes.get.bind ?_,iff_of_true (.inr (hf.mpr hin)) (fun _ => .inl hin)⟩
        rw [ha]
        refine he.bind (ho.bind ?_)
        rw [if_pos hs]
        exact Goes.pure _
      · obtain ⟨status',d'',l',hsc,hm,hi⟩ := second_line pdus fuel fn src _ d'
          (attempted pdus l.ensured.2 (adu (d.transaction+1) d.unitId fn payload)).close rfl
          hp hfuel
        refine ⟨status',d'',l',Goes.get.bind ?_,?_⟩
        · rw [ha]
          refine he.bind (ho.bind ?_)
          rw [if_neg (by simp [hs,hin])]
          exact (close_line _ _ _).bind hsc
        · have hsn : (attempted pdus l.ensured.2
              (adu (d.transaction+1) d.unitId fn payload)).close.asked = l.asked+1 :=
            congrArg (·+1) has
          rw [hsn] at hm hi
          rw [hi,InTime]
          exact ⟨fun hal _ => .inr hal,fun h => (h (by omega)).resolve_left hin⟩
    · refine ⟨l.ensured.1,d,l.ensured.2,Goes.get.bind ?_,
        iff_of_true (.inl hc) (fun hm => by omega)⟩
      rw [ha]
      refine he.bind ?_
      rw [if_pos hfl]
      exact Goes.pure _
  · refine ⟨HSF_ERR_NOT_OPEN,d,l,Goes.get.bind ?_,iff_of_true hb (fun hm => by omega)⟩
    rw [Bool.not_eq_true] at ha
    rw [ha]
    exact (Goes.pure _).bind (Goes.pure _)

end Exchange

section Composing
variable {pdus} {α β : Type} {m : Io Line α} {f : α → Io Line β}

theorem attempts_of_quiet (hm : Quiet m) : Attempts pdus m := by
  intro d l hb
  obtain ⟨a,d',hg⟩ := hm d l
  exact ⟨a,d',l,hg,iff_of_true hb (fun hmr => absurd hmr (lt_irrefl _))⟩

theorem Attempts.after (hm : Quiet m) (hf : ∀ a, Attempts pdus (f a)) :
    Attempts pdus (m >>= f) := by
  intro d l hb
  obtain ⟨a,d',hg⟩ := hm d l
  obtain ⟨b,d'',l',ht,hi⟩ := hf a d' l hb
  exact ⟨b,d'',l',hg.bind ht,hi⟩

theorem Attempts.andThen (hm : Attempts pdus m) (hf : ∀ a, Quiet (f a)) :
    Attempts pdus (m >>= f) := by
  intro d l hb
  obtain ⟨a,d',l',hg,hi⟩ := hm d l hb
  obtain ⟨b,d'',ht⟩ := hf a d' l'
  exact ⟨b,d'',l',hg.bind ht,hi⟩

theorem Attempts.ite {p : Prop} [Decidable p] {m m' : Io Line α} (hm : Attempts pdus m)
    (hm' : ¬p → Attempts pdus m') : Attempts pdus (if p then m else m') := by
  split_ifs with hp
  · exact hm
  · exact hm' hp

theorem Attempts.pure (a : α) : Attempts pdus (pure a : Io Line α) := attempts_of_quiet (Quiet.pure a)

end Composing

theorem set_error_quiet (msg : String) : Quiet (setError msg : Io Line Unit) :=
  (Quiet.touch _).bind (fun _ => Quiet.set _)

theorem finish_quiet (count : Bool → DriverStatus → DriverStatus) (st : Status) :
    Quiet (finish count st : Io Line Unit) :=
  (Quiet.set _).bind (fun _ => set_error_quiet _)

theorem ensure_attempts (attached : Bool) :
    Attempts pdus (ensureTransportOpen (server pdus) attached) := by
  intro d l hb
  cases attached with
  | false => exact Attempts.pure HSF_ERR_NOT_OPEN d l hb
  | true =>
    obtain ⟨ha,hc⟩ := ensured_cases l hb
    refine ⟨_,_,_,ensure_open_line _ d l,iff_of_true ?_ (fun hm => by omega)⟩
    exact hc.elim (fun h => .inr h.2.2) (fun h => .inl h.2)

theorem close_attempts (attached : Bool) :
    Attempts pdus (closeAttached (server pdus) attached) := by
  intro d l hb
  cases attached with
  | false => exact Attempts.pure () d l hb
  | true =>
    exact ⟨(),d,l.close,close_line (answer pdus) d l,
      iff_of_true (.inl rfl) (fun hm => absurd hm (lt_irrefl _))⟩

section Operations
variable (fuel : ℕ) (hfuel : patience ≤ fuel)
include hfuel

variable {fuel} (addr : DeviceAddress)

theorem read_point_attempts : Attempts pdus (readPoint (server pdus) fuel addr) := by
  unfold readPoint
  refine (Attempts.pure _).ite (fun _ => ?_)
  cases addressAndCount addr with
  | none => exact Attempts.pure _
  | some span =>
    refine (Attempts.pure _).ite (fun _ => (Attempts.after (Quiet.touch _) (fun _ => ?_)))
    refine (exchange_attempts pdus _ _ (by simp [putU16,MODBUS_MAX_ADU]) hfuel).andThen
      (fun st => ?_)
    refine (Quiet.pure _).ite (Quiet.get.bind (fun self => (Quiet.pure _).ite ?_))
    refine (Quiet.touch _).bind (fun _ => (Quiet.pure _).ite ((Quiet.touch _).bind (fun _ => ?_)))
    exact (Quiet.set _).bind (fun _ => (Quiet.touch _).bind (fun _ => Quiet.pure _))

theorem write_single_attempts (fn : UInt8) (addr raw : UInt16) :
    Attempts pdus (writeSingle (server pdus) fuel fn addr raw) := by
  refine Attempts.after (Quiet.touch _) (fun _ => ?_)
  refine (exchange_attempts pdus _ _ (by simp [putU16,MODBUS_MAX_ADU]) hfuel).andThen (fun st => ?_)
  refine (Quiet.pure _).ite (Quiet.get.bind (fun self => (Quiet.pure _).ite ?_))
  exact (Quiet.touch _).bind (fun _ => Quiet.pure _)

theorem write_multiple_attempts (fn : UInt8) (addr count : UInt16) (data : Option Bytes) :
    Attempts pdus (writeMultiple (server pdus) fuel fn addr count data) := by
  cases data with
  | none => exact Attempts.pure _
  | some blob =>
    unfold writeMultiple
    cases multipleBytes fn count with
    | none => exact Attempts.pure _
    | some byteCount =>
      refine (Attempts.pure _).ite (fun hs => (Attempts.after (Quiet.touch _) (fun _ => ?_)))
      have hb : blob.length ≤ 246 := by omega
      refine (exchange_attempts pdus _ _ ?_ hfuel).andThen (fun st => ?_)
      · simp only [putU16,MODBUS_MAX_ADU,length_append,length_cons,length_nil]
        omega
      refine (Quiet.pure _).ite (Quiet.get.bind (fun self => (Quiet.pure _).ite ?_))
      exact (Quiet.touch _).bind (fun _ => Quiet.pure _)

theorem write_value_attempts (fn : UInt8) (start count : UInt16) (value : Value) :
    Attempts pdus (writeValue (server pdus) fuel fn start count value) := by
  unfold writeValue
  split
  · exact write_single_attempts pdus hfuel _ _ _
  · exact (Attempts.pure _).ite (fun _ => write_single_attempts pdus hfuel _ _ _)
  · exact (Attempts.pure _).ite (fun _ => write_single_attempts pdus hfuel _ _ _)
  · exact write_multiple_attempts pdus hfuel _ _ _ _
  · exact write_multiple_attempts pdus hfuel _ _ _ _
  · exact Attempts.pure _

theorem driver_read_attempts : Attempts pdus (driverRead (server pdus) fuel addr) := by
  refine Attempts.after Quiet.get (fun self => (Attempts.pure _).ite (fun _ => ?_))
  refine (read_point_attempts pdus hfuel addr).andThen (fun point => ?_)
  exact (finish_quiet _ _).bind (fun _ => Quiet.pure _)

theorem driver_write_attempts (value : Value) :
    Attempts pdus (driverWrite (server pdus) fuel addr value) := by
  refine Attempts.after Quiet.get (fun self => (Attempts.pure _).ite (fun _ => ?_))
  cases addressAndCount addr with
  | none => exact Attempts.pure _
  | some span =>
    refine (write_value_attempts pdus hfuel _ _ _ _).andThen (fun st => ?_)
    exact (finish_quiet _ _).bind (fun _ => Quiet.pure _)

theorem perform_attempts (call : Call) : Attempts pdus (perform (server pdus) fuel call) := by
  cases call with
  | initialized cfg =>
    refine attempts_of_quiet ((Quiet.set _).bind (fun _ => (Quiet.pure _).ite ?_))
    exact (Quiet.set _).bind (fun _ => Quiet.pure _)
  | start =>
    refine Attempts.after (Quiet.set _) (fun _ => Attempts.after Quiet.get (fun self => ?_))
    refine (ensure_attempts pdus _).andThen (fun st => (Quiet.set _).bind (fun _ => ?_))
    exact (set_error_quiet _).bind (fun _ => Quiet.pure _)
  | stop =>
    refine Attempts.after Quiet.get (fun self => (close_attempts pdus _).andThen (fun _ => ?_))
    exact (Quiet.set _).bind (fun _ => Quiet.pure _)
  | read addr =>
    exact (driver_read_attempts pdus hfuel addr).andThen (fun _ => Quiet.pure _)
  | write addr value => exact driver_write_attempts pdus hfuel addr value
  | health =>
    refine Attempts.after Quiet.get (fun self => ?_)
    exact (driver_read_attempts pdus hfuel _).andThen (fun _ => Quiet.pure _)

end Operations

def begin (next : List (Option (List ℕ))) : World Buffer Driver Line :=
  ⟨Driver.zero,Line.start next,[]⟩

def step (w : World Buffer Driver Line) (call : Call) : World Buffer Driver Line :=
  (perform (server pdus) patience call w).2

/-- If the call sends a request then a reply comes in time. -/
def Answered (w : World Buffer Driver Line) (call : Call) : Prop :=
  w.link.asked < (step pdus w call).link.asked → InTime pdus w.link

theorem step_boundary {w : World Buffer Driver Line} (call : Call) (h : w.link.AtBoundary) :
    (∃ status, (perform (server pdus) patience call w).1 = some status) ∧
      ((step pdus w call).link.AtBoundary ↔ Answered pdus w call) := by
  obtain ⟨status,d',l',hg,hi⟩ := perform_attempts pdus le_rfl call _ w.link h
  obtain ⟨touched',hr⟩ := hg w.touched
  have hl : (step pdus w call).link = l' := congrArg (fun r => r.2.link) hr
  refine ⟨⟨status,congrArg Prod.fst hr⟩,?_⟩
  rw [Answered,hl]
  exact hi

/-- After every call, and so after every exchange, the connection is closed or at a boundary
between replies just if none of the exchanges has waited in vain twice. Up to the first one
that does, every call returns. -/
theorem boundary_kept_iff (next : List (Option (List ℕ))) (calls : List Call) :
    ((∀ done rest, calls = done++rest →
        (Runs.run (step pdus) (begin next) done).link.AtBoundary) ↔
      Runs.Meets (step pdus) (Answered pdus) (begin next) calls) ∧
    ∀ done call rest, calls = done++call::rest →
      Runs.Meets (step pdus) (Answered pdus) (begin next) done →
      ∃ status, (perform (server pdus) patience call
        (Runs.run (step pdus) (begin next) done)).1 = some status := by
  have hs : ∀ w call, w.link.AtBoundary → Answered pdus w call →
      (step pdus w call).link.AtBoundary :=
    fun w call hw ha => (step_boundary pdus call hw).2.mpr ha
  have hb : (begin next).link.AtBoundary := .inl rfl
  constructor
  · exact Runs.always_iff_meets _ _ _
      _ hs (fun _ hw => hw)
      (fun w call hw hn => mt (step_boundary pdus call hw).2.mp hn) _ calls hb
  · intro done call rest _ hm
    have hw := Runs.run_invariant _ _ _ hs _ done hb hm
    exact (step_boundary pdus call hw).1

end

def register : DeviceAddress := ⟨3,0,1,false⟩

def registerValue : Pdu := ⟨[3,2,0,7],by decide⟩

def statuses (pdus : ℕ → Pdu) (w : World Buffer Driver Line) : List Call → List (Option Status)
  | [] => []
  | call::calls => (perform (server pdus) patience call w).1::statuses pdus (step pdus w call) calls

/-- The server is silent on the first connection and late once on the second one: the reply
is still to come when the call returns. Later replies come in time, but the driver takes each
of them for the one after. -/
theorem reply_left :
    ¬(Runs.run (step (fun _ => registerValue)) (begin [some [],some [0,11,11,11]])
        [.initialized ⟨1000,1,3,0,1⟩,.start,.read register]).link.AtBoundary ∧
      statuses (fun _ => registerValue) (begin [some [],some [0,11,11,11]])
        [.initialized ⟨1000,1,3,0,1⟩,.start,.read register,.read register,.read register] =
      [some HSF_OK,some HSF_OK,some HSF_ERR_TIMEOUT,some HSF_ERR_PROTOCOL,some HSF_ERR_PROTOCOL] := by
  decide +kernel

end EMaster.ModbusDriver
