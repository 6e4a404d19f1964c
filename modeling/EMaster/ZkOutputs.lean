import EMaster.C3Session

/-!
# Commands to doors and outputs

The integers of a script or of a web request are converted to `int`, and the client of the panel
keeps the lowest byte of each. Only the operation is checked on the way.
-/

set_option autoImplicit false

namespace EMaster.Zk
open C3

/-- The conversion of a 64-bit integer to `int`. -/
def toInt (n : ℤ) : ℤ := (n+2^31)%2^32-2^31

structure Panel where
  connected : Bool
  client : Client
  wire : Wire
  lastError : Text := []

namespace Panel

def controlDevice (p : Panel) (operationId param1 param2 param3 : ℤ) : Panel×Bool :=
  if p.connected = false then
    ({ p with lastError := "ControlDevice: the controller is not connected" },false)
  else
    match p.client.controlDevice p.wire operationId param1 param2 param3 with
    | (client,wire,ret) =>
      if ret < 0 then
        ({ p with
            client := client
            wire := wire
            lastError := "ControlDevice("++Text.ofInt operationId++") failed: "++
              client.lastError },false)
      else ({ p with client := client,wire := wire },true)

def openDoor (p : Panel) (door seconds : ℤ) : Panel×Bool := p.controlDevice 1 door 1 seconds

def setAuxOutput (p : Panel) (auxOutput seconds : ℤ) : Panel×Bool :=
  p.controlDevice 1 auxOutput 2 seconds

def setNormallyOpen (p : Panel) (door : ℤ) (enable : Bool) : Panel×Bool :=
  p.controlDevice 4 door (if enable then 1 else 0) 0

end Panel

/-- The calls a script can make, of which `controlDevice` is also made for a web request, and the
web request to open a door. -/
inductive Request where
  | controlDevice (operationId param1 param2 param3 : ℤ)
  | openDoor (door seconds : ℤ)
  | auxOut (output seconds : ℤ)
  | setNormallyOpen (door : ℤ) (enable : Bool)
  | testDoor (door seconds : ℤ)

namespace Request

def perform (p : Panel) : Request → Panel×Bool
  | controlDevice op a b c => p.controlDevice (toInt op) (toInt a) (toInt b) (toInt c)
  | openDoor door seconds => p.openDoor (toInt door) (toInt seconds)
  | auxOut output seconds => p.setAuxOutput (toInt output) (toInt seconds)
  | setNormallyOpen door enable => p.setNormallyOpen (toInt door) enable
  | testDoor door seconds => p.openDoor (toInt door) (max 0 (min 60 (toInt seconds)))

/-- The operation, the number of the door or output, its type and the duration asked for. -/
def asked : Request → List ℤ
  | controlDevice op a b c => [op,a,b,c]
  | openDoor door seconds | testDoor door seconds => [1,door,1,seconds]
  | auxOut output seconds => [1,output,2,seconds]
  | setNormallyOpen door enable => [4,door,if enable then 1 else 0,0]

def Fits (r : Request) : Prop :=
  (∀ n ∈ r.asked, 0 ≤ n ∧ n < 256) ∧ ∀ door seconds, r = testDoor door seconds → seconds ≤ 60

end Request

def controlBytes (sessionLess : Bool) (frame : Bytes) : List ℤ :=
  ((frame.drop (if sessionLess then 5 else 9)).take 4).map fun b => b.toNat

/-- Every frame that is sent for the request carries the integers asked for. Bytes are below 256,
so nothing is sent for integers that do not fit. -/
def Exact (p : Panel) (r : Request) : Prop :=
  ∀ e ∈ (r.perform p).1.wire.log.drop p.wire.log.length,
    controlBytes p.client.sessionLess e.request = r.asked

/-- The operation is accepted and the socket takes the frame. -/
def Passes (p : Panel) (operationId : ℤ) : Prop :=
  p.connected = true ∧ p.client.isConnected = true ∧ (1 ≤ operationId ∧ operationId ≤ 4) ∧
    (p.wire.answers p.wire.asked).sends = true

section
variable (p : Panel) (op a b c : ℤ)

theorem control_bytes_encoded (sessionLess : Bool) (sid : UInt16) (nr : ℤ) :
    controlBytes sessionLess (encodeControl (Client.toByte op) (Client.toByte a)
      (Client.toByte b) (Client.toByte c) (!sessionLess) sid nr) = [op%256,a%256,b%256,c%256] := by
  have hb (n : ℤ) : ((Client.toByte n).toNat : ℤ) = n%256 := by
    simp [Client.toByte,UInt8.ofInt]
    omega
  rw [← hb,← hb,← hb,← hb]
  cases sessionLess <;> rfl

theorem transact_sent {cl : Client} (h : cl.isOpen = true) (w : Wire) (req : Bytes) :
    (w.answers w.asked).sends = true ∧
        (∃ e, (cl.transact w req).2.1.log = w.log++[e] ∧ e.request = req) ∨
      ¬(w.answers w.asked).sends = true ∧ (cl.transact w req).2.1.log = w.log := by
  rw [Client.transact,if_neg (by simp [h])]
  split_ifs with hs
  · exact .inr ⟨by simp [hs],rfl⟩
  · exact .inl ⟨by simpa using hs,_,rfl,rfl⟩

theorem control_log : Passes p op ∧ (∃ e, (p.controlDevice op a b c).1.wire.log = p.wire.log++[e] ∧
      controlBytes p.client.sessionLess e.request = [op%256,a%256,b%256,c%256]) ∨
    ¬Passes p op ∧ (p.controlDevice op a b c).1.wire.log = p.wire.log := by
  have hw : (p.controlDevice op a b c).1.wire = if p.connected = false then p.wire else
      (p.client.controlDevice p.wire op a b c).2.1 := by
    rw [Panel.controlDevice]
    split_ifs
    · rfl
    · dsimp only
      split_ifs <;> rfl
  rw [hw]
  split_ifs with hc
  · exact .inr ⟨fun h => by simp [h.1] at hc,rfl⟩
  rw [Client.controlDevice]
  split_ifs with hi ho
  · exact .inr ⟨fun h => by simp [h.2.1] at hi,rfl⟩
  · exact .inr ⟨fun h => absurd h.2.2.1 (by omega),rfl⟩
  · have hi : p.client.isConnected = true := by simpa using hi
    obtain ⟨n,hn⟩ : ∃ n, n = p.client.nextRequestNr := ⟨_,rfl⟩
    have hl := control_bytes_encoded op a b c n.sessionLess n.sessionId n.requestNr
    dsimp only
    rw [← hn]
    generalize encodeControl _ _ _ _ _ _ _ = req at hl ⊢
    have ht := transact_sent (hn ▸ (Bool.and_eq_true_iff.mp hi).2 : n.isOpen = true) p.wire req
    generalize n.transact p.wire req = t at ht ⊢
    obtain ⟨c',w',reply⟩ := t
    have hd : Passes p op ∧ (∃ e, w'.log = p.wire.log++[e] ∧
        controlBytes p.client.sessionLess e.request = [op%256,a%256,b%256,c%256]) ∨
        ¬Passes p op ∧ w'.log = p.wire.log := by
      rcases ht with ⟨hs,e,he,rfl⟩ | ⟨hs,he⟩
      · subst hn
        exact .inl ⟨⟨by simpa using hc,hi,by omega,hs⟩,e,he,hl⟩
      · exact .inr ⟨fun h => hs h.2.2.2,he⟩
    cases reply with
    | none => exact hd
    | some reply =>
      dsimp only
      split <;> exact hd

theorem exact_control {r : Request} (h : r.perform p = p.controlDevice op a b c) :
    Exact p r ↔ (Passes p op → [op%256,a%256,b%256,c%256] = r.asked) := by
  rw [Exact,h]
  obtain ⟨hp,e,he,hb⟩ | ⟨hp,he⟩ := control_log p op a b c
  · rw [he,List.drop_left,← hb]
    simp [hp]
  · rw [he,List.drop_length]
    simp [hp]

end

theorem byte_iff (n : ℤ) : toInt n%256 = n ↔ 0 ≤ n ∧ n < 256 := by
  unfold toInt
  omega

theorem exact_iff (p : Panel) (r : Request) :
    Exact p r ↔ (Passes p (toInt (r.asked.headD 0)) → r.Fits) := by
  have h1 : toInt 1 = 1 := by decide
  have h4 : toInt 4 = 4 := by decide
  cases r with
  | controlDevice op a b c =>
    rw [exact_control p _ _ _ _ rfl]
    simp [Request.asked,Request.Fits,byte_iff]
  | openDoor n seconds | auxOut n seconds =>
    rw [exact_control p _ _ _ _ rfl]
    simp [Request.asked,Request.Fits,byte_iff,h1]
  | setNormallyOpen door enable =>
    rw [exact_control p _ _ _ _ rfl]
    cases enable <;> simp [Request.asked,Request.Fits,byte_iff,h4]
  | testDoor door seconds =>
    rw [exact_control p _ _ _ _ rfl]
    have hs : max 0 (min 60 (toInt seconds))%256 = seconds ↔ 0 ≤ seconds ∧ seconds ≤ 60 := by
      unfold toInt
      omega
    simp [Request.asked,Request.Fits,byte_iff,h1,hs]
    exact imp_congr_right fun _ => by omega

def idlePanel : Panel :=
  ⟨true,{ isOpen := true,connected := true,sessionId := 1 },{ answers := Session.lateAnswers },[]⟩

theorem latched_instead : ((Request.openDoor 257 511).perform idlePanel).2 = true ∧
    ((Request.openDoor 257 511).perform idlePanel).1.wire.log.map
      (fun e => controlBytes false e.request) = [[1,1,1,255]] := by
  decide +kernel

end EMaster.Zk
