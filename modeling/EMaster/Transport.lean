import EMaster.Bytes
import EMaster.Program
import EMaster.Text

/-!
# The transport of a driver

A driver reads and writes through functions that the host gives it, and they may answer
anything, as long as they do not transfer more than was asked for. Beside what the driver
and the transport do, every access to a buffer is recorded.
-/

set_option autoImplicit false

namespace EMaster.Transport
open Bytes Program List

abbrev Status := ℤ

abbrev HSF_OK : Status := 0
abbrev HSF_AGAIN : Status := 1
abbrev HSF_ERR_INVALID_ARG : Status := -2
abbrev HSF_ERR_NOT_SUPPORTED : Status := -3
abbrev HSF_ERR_NOT_OPEN : Status := -4
abbrev HSF_ERR_ALREADY_OPEN : Status := -5
abbrev HSF_ERR_TIMEOUT : Status := -6
abbrev HSF_ERR_IO : Status := -7
abbrev HSF_ERR_CLOSED : Status := -8
abbrev HSF_ERR_PROTOCOL : Status := -9
abbrev HSF_ERR_NOT_FOUND : Status := -11
abbrev HSF_ERR_CONFIG : Status := -13
abbrev HSF_ERR_STATE : Status := -14

def statusName (st : Status) : String :=
  if st = HSF_OK then "OK"
  else if st = HSF_AGAIN then "AGAIN"
  else if st = HSF_ERR_INVALID_ARG then "INVALID_ARG"
  else if st = HSF_ERR_NOT_SUPPORTED then "NOT_SUPPORTED"
  else if st = HSF_ERR_NOT_OPEN then "NOT_OPEN"
  else if st = HSF_ERR_ALREADY_OPEN then "ALREADY_OPEN"
  else if st = HSF_ERR_TIMEOUT then "TIMEOUT"
  else if st = HSF_ERR_IO then "IO"
  else if st = HSF_ERR_CLOSED then "CLOSED"
  else if st = HSF_ERR_PROTOCOL then "PROTOCOL"
  else if st = -10 then "NO_MEMORY"
  else if st = HSF_ERR_NOT_FOUND then "NOT_FOUND"
  else if st = -12 then "PERMISSION"
  else if st = HSF_ERR_CONFIG then "CONFIG"
  else if st = HSF_ERR_STATE then "STATE"
  else if st = -15 then "VERSION"
  else if st = -16 then "BUSY"
  else if st = -17 then "INTERNAL"
  else if st = -1 then "UNKNOWN"
  else "UNRECOGNISED"

def HSF_IO_READ : UInt32 := 0x1
def HSF_IO_WRITE : UInt32 := 0x2
def HSF_IO_ERROR : UInt32 := 0x4
def HSF_IO_CLOSED : UInt32 := 0x8

structure VTable (σ : Type) where
  isOpen : Option (σ → Bool)
  openLink : Option (σ → Status×σ)
  close : Option (σ → σ)
  read : σ → ℕ → (Status×Bytes)×σ
  write : σ → Bytes → (Status×ℕ)×σ
  wait : σ → UInt32 → ℤ → (Status×UInt32)×σ

inductive DriverState where
  | CREATED
  | READY
  | RUNNING
  | FAILED
  deriving DecidableEq, Repr

structure DriverStatus where
  state : DriverState
  connected : Bool
  lastError : Text
  (readsOk readsFailed writesOk writesFailed : ℕ)
  deriving DecidableEq, Repr

def DriverStatus.zero : DriverStatus := ⟨.CREATED,false,[],0,0,0,0⟩

/-- A value of the device interface. Of a blob the pointer may be null. -/
inductive Value where
  | null
  | bool (b : Bool)
  | i64 (n : ℤ)
  | u64 (n : ℕ)
  | f64
  | str
  | blob (data : Option Bytes)
  deriving DecidableEq, Repr

structure DeviceAddress where
  (a1 a2 a3 : ℤ)
  i16 : Bool
  deriving DecidableEq, Repr

structure Access (Buffer : Type) where
  buffer : Buffer
  (offset count : ℕ)
  deriving DecidableEq, Repr

structure World (Buffer D σ : Type) where
  driver : D
  link : σ
  touched : List (Access Buffer)

variable {Buffer D σ α : Type}

def touch (accesses : List (Access Buffer)) : Prog (World Buffer D σ) Unit :=
  modify (fun w => { w with touched := accesses++w.touched })

def getDriver : Prog (World Buffer D σ) D := ask World.driver

def setDriver (f : D → D) : Prog (World Buffer D σ) Unit :=
  modify (fun w => { w with driver := f w.driver })

def call (f : σ → α×σ) : Prog (World Buffer D σ) α :=
  fun w => (some (f w.link).1,{ w with link := (f w.link).2 })

section
variable (T : VTable σ) (timeoutMs : ℤ)

/-- At most as much is transferred as was asked for. -/
def readSome (cap : ℕ) : Prog (World Buffer D σ) (Status×Bytes) :=
  call (fun link => (((T.read link cap).1.1,(T.read link cap).1.2.take cap),(T.read link cap).2))

def writeSome (data : Bytes) : Prog (World Buffer D σ) (Status×ℕ) :=
  call (fun link =>
    (((T.write link data).1.1,min (T.write link data).1.2 data.length),(T.write link data).2))

def awaitIo (events : UInt32) : Prog (World Buffer D σ) Status := do
  let (status,ready) ← call (fun link => T.wait link events timeoutMs)
  pure (if status < 0 then status
    else if ready &&& HSF_IO_CLOSED ≠ 0 then HSF_ERR_CLOSED
    else if ready &&& HSF_IO_ERROR ≠ 0 then HSF_ERR_IO
    else if ready &&& events ≠ 0 then HSF_OK else HSF_ERR_TIMEOUT)

def writeAll (b : Buffer) (data : Bytes) : ℕ → ℕ → Prog (World Buffer D σ) Status
  | 0, _ => unfinished
  | fuel+1, offset =>
    if data.length ≤ offset then pure HSF_OK
    else do
      touch [⟨b,offset,data.length-offset⟩]
      let (status,transferred) ← writeSome T (data.drop offset)
      if status = HSF_AGAIN then do
        let status ← awaitIo T timeoutMs HSF_IO_WRITE
        if status < 0 then pure status else writeAll b data fuel offset
      else if status < 0 then pure status
      else if transferred = 0 then pure HSF_ERR_CLOSED
      else writeAll b data fuel (offset+transferred)

/-- The bytes that have been read into the buffer from `base` on are returned as well. -/
def readExact (b : Buffer) (base length : ℕ) : ℕ → Bytes → Prog (World Buffer D σ) (Status×Bytes)
  | 0, _ => unfinished
  | fuel+1, data =>
    if length ≤ data.length then pure (HSF_OK,data)
    else do
      touch [⟨b,base+data.length,length-data.length⟩]
      let (status,more) ← readSome T (length-data.length)
      if status = HSF_AGAIN then do
        let status ← awaitIo T timeoutMs HSF_IO_READ
        if status < 0 then pure (status,data) else readExact b base length fuel data
      else if status < 0 then pure (status,data)
      else if more = [] then pure (HSF_ERR_CLOSED,data)
      else readExact b base length fuel (data++more)

def linkOpen : Prog (World Buffer D σ) Bool :=
  ask (fun w => match T.isOpen with
    | none => false
    | some isOpen => isOpen w.link)

def ensureTransportOpen (attached : Bool) : Prog (World Buffer D σ) Status :=
  if attached = false then pure HSF_ERR_NOT_OPEN
  else do
    let isOpen ← linkOpen T
    if isOpen then pure HSF_OK
    else match T.openLink with
      | none => pure HSF_ERR_NOT_SUPPORTED
      | some openLink => do
        let status ← call openLink
        pure (if status = HSF_ERR_ALREADY_OPEN then HSF_OK else status)

def closeLink : Prog (World Buffer D σ) Unit :=
  modify (fun w => match T.close with
    | none => w
    | some close => { w with link := close w.link })

/-- A driver without a transport has nothing to close. -/
def closeAttached (attached : Bool) : Prog (World Buffer D σ) Unit :=
  if attached then closeLink T else pure ()

end

def reconnectable (status : Status) : Bool :=
  status = HSF_ERR_IO || status = HSF_ERR_NOT_OPEN || status = HSF_ERR_CLOSED ||
    status = HSF_ERR_TIMEOUT

/-! ## What a program comes to -/

/-- Whatever was accessed before, the program returns this and leaves the driver and the
transport like that. -/
def Goes (m : Prog (World Buffer D σ) α) (d : D) (l : σ) (a : α) (d' : D) (l' : σ) : Prop :=
  ∀ touched, ∃ touched', m ⟨d,l,touched⟩ = (some a,⟨d',l',touched'⟩)

section
variable {d d' d'' : D} {l l' l'' : σ}

theorem Goes.pure (a : α) : Goes (pure a : Prog (World Buffer D σ) α) d l a d l :=
  fun hit => ⟨hit,rfl⟩

theorem Goes.bind {β : Type} {m : Prog (World Buffer D σ) α} {f : α → Prog (World Buffer D σ) β}
    {a : α} {b : β} (hm : Goes m d l a d' l') (hf : Goes (f a) d' l' b d'' l'') :
    Goes (m >>= f) d l b d'' l'' := by
  intro hit
  obtain ⟨touched',hr⟩ := hm hit
  obtain ⟨touched'',ht⟩ := hf touched'
  exact ⟨touched'',by rw [bind_returned hr,ht]⟩

theorem Goes.touch (accesses : List (Access Buffer)) :
    Goes (touch accesses : Prog (World Buffer D σ) Unit) d l () d l :=
  fun hit => ⟨accesses++hit,rfl⟩

theorem Goes.get : Goes (getDriver : Prog (World Buffer D σ) D) d l d d l := fun hit => ⟨hit,rfl⟩

theorem Goes.set (f : D → D) : Goes (setDriver f : Prog (World Buffer D σ) Unit) d l () (f d) l :=
  fun hit => ⟨hit,rfl⟩

end

def Quiet (m : Prog (World Buffer D σ) α) : Prop := ∀ d l, ∃ a d', Goes m d l a d' l

section
variable {β : Type} {m : Prog (World Buffer D σ) α} {f : α → Prog (World Buffer D σ) β}

theorem Quiet.pure (a : α) : Quiet (pure a : Prog (World Buffer D σ) α) :=
  fun d _ => ⟨a,d,Goes.pure a⟩

theorem Quiet.touch (accesses : List (Access Buffer)) :
    Quiet (touch accesses : Prog (World Buffer D σ) Unit) :=
  fun d _ => ⟨(),d,Goes.touch accesses⟩

theorem Quiet.get : Quiet (getDriver : Prog (World Buffer D σ) D) := fun d _ => ⟨d,d,Goes.get⟩

theorem Quiet.set (f : D → D) : Quiet (setDriver f : Prog (World Buffer D σ) Unit) :=
  fun d _ => ⟨(),f d,Goes.set f⟩

theorem Quiet.bind (hm : Quiet m) (hf : ∀ a, Quiet (f a)) : Quiet (m >>= f) := by
  intro d l
  obtain ⟨a,d',hm⟩ := hm d l
  obtain ⟨b,d'',hf⟩ := hf a d' l
  exact ⟨b,d'',hm.bind hf⟩

theorem Quiet.ite {p : Prop} [Decidable p] {m m' : Prog (World Buffer D σ) α} (hm : Quiet m)
    (hm' : Quiet m') : Quiet (if p then m else m') := by
  split_ifs
  · exact hm
  · exact hm'

end

/-! ## Accesses -/

variable (size : Buffer → ℕ) (P : D → Prop)

def Access.Fits (a : Access Buffer) : Prop := a.offset+a.count ≤ size a.buffer

instance decidableFits (a : Access Buffer) : Decidable (a.Fits size) := by
  unfold Access.Fits
  infer_instance

def Inside (w : World Buffer D σ) : Prop := ∀ a ∈ w.touched, a.Fits size

/-- All accesses so far were inside, and the driver has the property. -/
def Keeps (w : World Buffer D σ) : Prop := Inside size w ∧ P w.driver

variable {size P}

theorem pure_inside (a : α) :
    Triple (Inside size) (Keeps size P) (pure a : Prog (World Buffer D σ) α)
      (fun _ => Keeps size P) :=
  Triple.pure a (fun _ hw => ⟨hw.1,hw⟩)

theorem touch_inside (accesses : List (Access Buffer)) (h : ∀ a ∈ accesses, a.Fits size) :
    Triple (Inside size) (Keeps size P) (touch accesses : Prog (World Buffer D σ) Unit)
      (fun _ => Keeps size P) := by
  apply Triple.modify
  intro w hw
  have hal : Inside size { w with touched := accesses++w.touched } := by
    intro a ha
    rcases mem_append.mp ha with hn | hold
    · exact h a hn
    · exact hw.1 a hold
  exact ⟨hal,hal,hw.2⟩

theorem get_driver_inside :
    Triple (Inside size) (Keeps size P) (getDriver : Prog (World Buffer D σ) D)
      (fun d w => Keeps size P w ∧ P d) :=
  Triple.ask (fun _ hw => ⟨hw.1,hw,hw.2⟩)

theorem guard_inside {c : Prop} [Decidable c] {a : α} {m : Prog (World Buffer D σ) α}
    (h : ¬c → Triple (Inside size) (Keeps size P) m (fun _ => Keeps size P)) :
    Triple (Inside size) (Keeps size P) (if c then pure a else m) (fun _ => Keeps size P) :=
  Triple.ite (fun _ => pure_inside a) h

theorem self_inside {f : D → Prog (World Buffer D σ) α} {post : α → World Buffer D σ → Prop}
    (h : ∀ d, P d → Triple (Inside size) (Keeps size P) (f d) post) :
    Triple (Inside size) (Keeps size P) (getDriver >>= f) post :=
  get_driver_inside.bind (fun d => Triple.given (h d))

theorem set_driver_inside {f : D → D} {Q : D → Prop} (h : ∀ d, P d → Q (f d)) :
    Triple (Inside size) (Keeps size P) (setDriver f : Prog (World Buffer D σ) Unit)
      (fun _ => Keeps size Q) :=
  Triple.modify (fun w hw => ⟨hw.1,hw.1,h w.driver hw.2⟩)

theorem call_inside (f : σ → α×σ) :
    Triple (Inside size) (Keeps size P) (call f : Prog (World Buffer D σ) α)
      (fun _ => Keeps size P) := by
  intro w hw
  exact ⟨hw.1,fun _ _ => ⟨hw.1,hw.2⟩⟩

section
variable (T : VTable σ) (ms : ℤ)

theorem read_some_inside (cap : ℕ) :
    Triple (Inside size) (Keeps size P) (readSome T cap : Prog (World Buffer D σ) (Status×Bytes))
      (fun r w => Keeps size P w ∧ r.2.length ≤ cap) := by
  intro w hw
  refine ⟨hw.1,?_⟩
  rintro r hr
  cases hr
  exact ⟨hw,by simp⟩

theorem await_io_inside (events : UInt32) :
    Triple (Inside size) (Keeps size P)
      (awaitIo T ms events : Prog (World Buffer D σ) Status) (fun _ => Keeps size P) :=
  (call_inside _).bind (fun _ => pure_inside _)

theorem write_all_inside {b : Buffer} {data : Bytes} (h : data.length ≤ size b)
    (fuel off : ℕ) :
    Triple (Inside size) (Keeps size P)
      (writeAll T ms b data fuel off : Prog (World Buffer D σ) Status)
      (fun _ => Keeps size P) := by
  induction fuel generalizing off with
  | zero => exact Triple.unfinished (fun _ hw => hw.1)
  | succ fuel ih =>
    refine guard_inside (fun hm => ?_)
    refine (touch_inside _ ?_).bind (fun _ => (call_inside _).bind ?_)
    · simp only [mem_singleton,forall_eq,Access.Fits]
      omega
    · rintro ⟨st,transferred⟩
      refine Triple.ite (fun _ => (await_io_inside T ms _).bind (fun st => ?_)) (fun _ => ?_)
      · exact guard_inside (fun _ => ih off)
      · refine guard_inside (fun _ => guard_inside (fun _ => ?_))
        exact ih _

theorem read_exact_inside (b : Buffer) (base length : ℕ) (h : base+length ≤ size b)
    (fuel : ℕ) (data : Bytes) (hd : data.length ≤ length) :
    Triple (Inside size) (Keeps size P)
      (readExact T ms b base length fuel data : Prog (World Buffer D σ) (Status×Bytes))
      (fun r w => Keeps size P w ∧ (0 ≤ r.1 → r.2.length = length)) := by
  induction fuel generalizing data with
  | zero => exact Triple.unfinished (fun _ hw => hw.1)
  | succ fuel ih =>
    have hf (st : Status) (hs : st < 0) : Triple (Inside size) (Keeps size P)
        (pure (st,data) : Prog (World Buffer D σ) (Status×Bytes))
        (fun r w => Keeps size P w ∧ (0 ≤ r.1 → r.2.length = length)) :=
      Triple.pure _ (fun _ hw => ⟨hw.1,hw,fun hok => absurd hs (not_lt.mpr hok)⟩)
    refine Triple.ite (fun ha => Triple.pure _ (fun _ hw => ⟨hw.1,hw,fun _ => ?_⟩)) (fun hm => ?_)
    · exact le_antisymm hd ha
    refine (touch_inside _ ?_).bind (fun _ => (read_some_inside T _).bind ?_)
    · simp only [mem_singleton,forall_eq,Access.Fits]
      omega
    · rintro ⟨st,more⟩
      refine Triple.given (fun hc => ?_)
      refine Triple.ite (fun _ => (await_io_inside T ms _).bind (fun st => ?_)) (fun _ => ?_)
      · exact Triple.ite (fun hs => hf st hs) (fun _ => ih data hd)
      · refine Triple.ite (fun hs => hf st hs) (fun _ => ?_)
        refine Triple.ite (fun _ => hf _ (by decide)) (fun _ => ih (data++more) ?_)
        rw [length_append]
        dsimp only at hc
        omega

theorem link_open_inside :
    Triple (Inside size) (Keeps size P) (linkOpen T : Prog (World Buffer D σ) Bool)
      (fun _ => Keeps size P) :=
  Triple.ask (fun _ hw => ⟨hw.1,hw⟩)

theorem ensure_open_inside (attached : Bool) :
    Triple (Inside size) (Keeps size P)
      (ensureTransportOpen T attached : Prog (World Buffer D σ) Status)
      (fun _ => Keeps size P) := by
  refine guard_inside (fun _ => (link_open_inside T).bind (fun isOpen => ?_))
  refine guard_inside (fun _ => ?_)
  cases T.openLink with
  | none => exact pure_inside _
  | some openLink => exact (call_inside openLink).bind (fun st => pure_inside _)

theorem close_link_inside :
    Triple (Inside size) (Keeps size P) (closeLink T : Prog (World Buffer D σ) Unit)
      (fun _ => Keeps size P) := by
  apply Triple.modify
  intro w hw
  cases T.close <;> exact ⟨hw.1,hw⟩

theorem close_attached_inside (attached : Bool) :
    Triple (Inside size) (Keeps size P)
      (closeAttached T attached : Prog (World Buffer D σ) Unit) (fun _ => Keeps size P) :=
  Triple.ite (fun _ => close_link_inside T) (fun _ => pure_inside _)

end

end EMaster.Transport
