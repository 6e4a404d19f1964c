import EMaster.ModbusRegistry

/-!
# The poller between the scripts

Each step of the poller takes the registry's lock once. For every name the last reading
that was stored under it is remembered, with the place it was read from.
-/

set_option autoImplicit false

namespace EMaster.ModbusRegistry
open NamedRows Runs List ModbusRegisterPoint Registry

inductive Phase where
  | idle
  | inputs (todo : List ModbusPoint)
  | resolving (point : ModbusPoint) (usedFc : ℕ) (todo : List ModbusPoint)
  | outputs (todo : List ModbusPoint)
  | registers (todo : List ModbusRegisterPoint)

/-- What the device answers to the reads of one step: as a discrete input, as a coil, and
as registers. -/
structure Device where
  (discrete coil : Option Bool)
  words : Option (List UInt16)

def readInput (p : ModbusPoint) (device : Device) : Option (Bool×ℕ) :=
  match if p.source ≠ .kCoil then device.discrete else none with
  | some bit => some (bit,2)
  | none =>
    match if p.source ≠ .kDiscreteInput then device.coil else none with
    | some bit => some (bit,1)
    | none => none

structure System where
  registry : Registry
  phase : Phase
  inputReads : Text → Option (ℤ×ℕ)
  outputReads : Text → Option ℤ
  registerReads : Text → Option Shape

def System.start : System := ⟨.empty,.idle,fun _ => none,fun _ => none,fun _ => none⟩

section Steps
variable (decode : RegisterFormat → List UInt16 → Except Text Json) (s : System)

def pollInput (p : ModbusPoint) (todo : List ModbusPoint) (device : Device) : System :=
  match readInput p device with
  | none => { s with phase := .inputs todo }
  | some (bit,usedFc) =>
    { s with
      registry := s.registry.updateInput p.name bit usedFc
      inputReads := Function.update s.inputReads p.name (some (p.address,usedFc))
      phase := if p.source = .kAuto then .resolving p usedFc todo else .inputs todo }

def pollOutput (p : ModbusPoint) (todo : List ModbusPoint) (device : Device) : System :=
  match device.coil with
  | none => { s with phase := .outputs todo }
  | some bit =>
    { s with
      registry := s.registry.updateOutput p.name bit
      outputReads := Function.update s.outputReads p.name (some p.address)
      phase := .outputs todo }

variable (p : ModbusRegisterPoint)

def readError : Text :=
  "read failed (FC0"++(if p.inputRegister then "4" else "3").toList++")"

def readRegister (device : Device) : Except Text (List UInt16×Json) :=
  match device.words with
  | none => .error (readError p)
  | some words =>
    match decode p.format words with
    | .ok value => .ok (words,value)
    | .error error => .error error

def pollRegister (todo : List ModbusRegisterPoint)
    (device : Device) : System :=
  match readRegister decode p device with
  | .error error =>
    { s with
      registry := s.registry.updateRegisterError p.name error
      phase := .registers todo }
  | .ok (words,value) =>
    { s with
      registry := s.registry.updateRegister p.name words value
      registerReads := Function.update s.registerReads p.name (some p.shape)
      phase := .registers todo }

def pollStep (device : Device) : System :=
  match s.phase with
  | .idle =>
    if s.registry.isEmpty then s else { s with phase := .inputs s.registry.inputs }
  | .inputs [] => { s with phase := .outputs s.registry.outputs }
  | .inputs (p::todo) => pollInput s p todo device
  | .resolving p usedFc todo =>
    { s with
      registry := s.registry.setResolvedSource p.name
        (if usedFc = 2 then .kDiscreteInput else .kCoil)
      phase := .inputs todo }
  | .outputs [] => { s with phase := .registers s.registry.registers }
  | .outputs (p::todo) => pollOutput s p todo device
  | .registers [] => { s with phase := .idle }
  | .registers (p::todo) => pollRegister decode s p todo device

structure Declaration where
  name : Text
  shape : Shape
  owner : ℤ
  writable : Bool
  unit : Text

def Declaration.point (d : Declaration) : ModbusRegisterPoint where
  name := d.name
  address := d.shape.address
  owner := d.owner
  format := d.shape.format
  inputRegister := d.shape.inputRegister
  writable := d.writable
  unit := d.unit

inductive Event where
  | poll (device : Device)
  | registerInput (name : Text) (address : ℤ) (source : ModbusSource) (owner : ℤ)
  | registerOutput (name : Text) (address owner : ℤ)
  | registerRegister (declared : Declaration)
  | clearOwner (owner : ℤ)

def step : Event → System
  | .poll device => pollStep decode s device
  | .registerInput name address source owner =>
    { s with registry := s.registry.registerInput name address source owner }
  | .registerOutput name address owner =>
    { s with registry := s.registry.registerOutput name address owner }
  | .registerRegister declared =>
    { s with registry := s.registry.registerRegister declared.point }
  | .clearOwner owner => { s with registry := s.registry.clearOwner owner }

end Steps

/-- A space that a function code reads is the one the source asks for. -/
def Admits : ModbusSource → ℕ → Prop
  | .kAuto, _ => True
  | .kDiscreteInput, usedFc => usedFc = 2
  | .kCoil, usedFc => usedFc = 1

def InputFits (p : ModbusPoint) (origin : ℤ×ℕ) : Prop :=
  p.address = origin.1 ∧ Admits p.source origin.2

def OutputFits (p : ModbusPoint) (origin : ℤ) : Prop := p.address = origin

def RegisterFits (p : ModbusRegisterPoint) (origin : Shape) : Prop := p.shape = origin

/-- Each valid point holds a value that was read from where the point is now. -/
structure Genuine (s : System) : Prop where
  inputs : Backed ModbusPoint.name ModbusPoint.valid InputFits s.inputReads s.registry.inputs
  outputs : Backed ModbusPoint.name ModbusPoint.valid OutputFits s.outputReads s.registry.outputs
  registers : Backed ModbusRegisterPoint.name ModbusRegisterPoint.valid RegisterFits
    s.registerReads s.registry.registers

/-- What the poller has read fits the point that it finds under the name. -/
def Current (decode : RegisterFormat → List UInt16 → Except Text Json) (s : System) : Event → Prop
  | .poll device =>
    match s.phase with
    | .inputs (p::_) => ∀ bit usedFc, readInput p device = some (bit,usedFc) →
      ∀ q ∈ s.registry.inputs, q.name = p.name → InputFits q (p.address,usedFc)
    | .outputs (p::_) => ∀ bit, device.coil = some bit →
      ∀ q ∈ s.registry.outputs, q.name = p.name → OutputFits q p.address
    | .registers (p::_) => ∀ words value, readRegister decode p device = .ok (words,value) →
      ∀ q ∈ s.registry.registers, q.name = p.name → RegisterFits q p.shape
    | _ => True
  | _ => True

structure Sound (s : System) : Prop extends Genuine s where
  inputNames : (s.registry.inputs.map ModbusPoint.name).Nodup
  outputNames : (s.registry.outputs.map ModbusPoint.name).Nodup
  registerNames : (s.registry.registers.map ModbusRegisterPoint.name).Nodup
  resolving : ∀ p usedFc todo, s.phase = .resolving p usedFc todo →
    (usedFc = 1 ∨ usedFc = 2) ∧ s.inputReads p.name = some (p.address,usedFc)

section Points
variable {Origin : Type} {Fits : ModbusPoint → Origin → Prop} {reads : Text → Option Origin}
  {points : List ModbusPoint}

variable (name : Text) (address : ℤ) (value : Bool) (source : ModbusSource) (usedFc : ℕ) (owner : ℤ)

theorem redeclare_name (p : ModbusPoint) : (redeclare address source owner p).name = p.name := by
  rw [redeclare]
  split_ifs <;> rfl

theorem declare_nodup (h : (points.map ModbusPoint.name).Nodup) :
    ((upsertUnlocked points name address source owner).map ModbusPoint.name).Nodup :=
  upsert_nodup ModbusPoint.name (redeclare address source owner)
    { name := name, address := address, source := source, owner := owner } points
    (fun p _ => redeclare_name address source owner p) h

variable {owner}

theorem declare_backed (hf : ∀ p origin, Fits p origin → Fits { p with owner := owner } origin)
    (hn : (points.map ModbusPoint.name).Nodup)
    (h : Backed ModbusPoint.name ModbusPoint.valid Fits reads points) :
    Backed ModbusPoint.name ModbusPoint.valid Fits reads
      (upsertUnlocked points name address source owner) := by
  refine backed_upsert _
    { name := name, address := address, source := source, owner := owner } hn h
    (fun p _ => redeclare_name address source owner p) ?_ rfl
  intro p hv
  rw [redeclare] at hv ⊢
  split_ifs at hv ⊢
  exact ⟨hv,fun origin => hf p origin⟩

theorem update_map (hn : (points.map ModbusPoint.name).Nodup) :
    updateUnlocked points name value usedFc =
      points.map (change (fun p => p.name = name) (readBack value usedFc)) :=
  amend_map _ _ _ name _ (by simp) hn

theorem update_nodup (hn : (points.map ModbusPoint.name).Nodup) :
    ((updateUnlocked points name value usedFc).map ModbusPoint.name).Nodup :=
  amend_nodup _ _ _ name _ (by simp) (fun _ _ => rfl) hn

theorem update_backed_iff (origin : Origin)
    (hf : ∀ p, Fits (readBack value usedFc p) origin ↔ Fits p origin)
    (hn : (points.map ModbusPoint.name).Nodup)
    (h : Backed ModbusPoint.name ModbusPoint.valid Fits reads points) :
    Backed ModbusPoint.name ModbusPoint.valid Fits (Function.update reads name (some origin))
        (updateUnlocked points name value usedFc) ↔
      ∀ q ∈ points, q.name = name → Fits q origin := by
  rw [update_map name value _ hn]
  exact backed_update name _ _ h (fun _ => rfl) (fun _ => rfl) hf

theorem filter_nodup {Row : Type} {name : Row → Text} (kept : Row → Bool) {rows : List Row}
    (h : (rows.map name).Nodup) : ((rows.filter kept).map name).Nodup :=
  h.sublist (filter_sublist.map name)

end Points

section Registers
variable {reads : Text → Option Shape} {regs : List ModbusRegisterPoint}

theorem replaced_name (point p : ModbusRegisterPoint) : (replaced point p).name = point.name := by
  rw [replaced]
  split_ifs <;> rfl

theorem declare_register_nodup (point : ModbusRegisterPoint)
    (h : (regs.map name).Nodup) :
    ((upsert (fun p => p.name = point.name) (replaced point) point regs).map name).Nodup :=
  upsert_nodup _ _ point regs (fun p hp => by rw [replaced_name,hp]) h

theorem declare_register_backed {point : ModbusRegisterPoint} (hpn : point.valid = false)
    (hn : (regs.map name).Nodup)
    (h : Backed name valid RegisterFits reads regs) :
    Backed name valid RegisterFits reads
      (upsert (fun p => p.name = point.name) (replaced point) point regs) := by
  refine backed_upsert _ point hn h (fun p hp => by rw [replaced_name,hp]) ?_ hpn
  intro p hv
  rw [replaced] at hv ⊢
  split_ifs at hv ⊢ with hs
  · refine ⟨hv,fun orig ho => ?_⟩
    rw [RegisterFits] at ho ⊢
    rw [← ho,hs]
    rfl
  · rw [hpn] at hv
    cases hv

theorem amend_register_nodup (name : Text) {f : ModbusRegisterPoint → ModbusRegisterPoint}
    (hf : ∀ p, (f p).name = p.name)
    (hn : (regs.map ModbusRegisterPoint.name).Nodup) :
    ((amend (fun p => p.name = name) f regs).map ModbusRegisterPoint.name).Nodup :=
  amend_nodup _ _ f name regs (by simp) (fun p _ => hf p) hn

end Registers

theorem read_input_code {p : ModbusPoint} {device : Device} {bit : Bool} {usedFc : ℕ}
    (h : readInput p device = some (bit,usedFc)) : usedFc = 1 ∨ usedFc = 2 := by
  rw [readInput] at h
  split at h
  · cases h
    exact .inr rfl
  · split at h
    · cases h
      exact .inl rfl
    · cases h

section Polling
variable (decode : RegisterFormat → List UInt16 → Except Text Json) {s : System} (device : Device)
  (p : ModbusPoint) (todo : List ModbusPoint)

/-- A reading stored by the poller keeps the points genuine exactly if it fits. -/
theorem input_genuine_iff (h : Sound s) {bit : Bool} {usedFc : ℕ}
    (hr : readInput p device = some (bit,usedFc)) :
    Genuine (pollInput s p todo device) ↔
      ∀ q ∈ s.registry.inputs, q.name = p.name → InputFits q (p.address,usedFc) := by
  have hb := update_backed_iff p.name bit usedFc (p.address,usedFc)
    (fun _ => Iff.rfl) h.inputNames h.inputs
  rw [pollInput,hr]
  exact ⟨fun hg => hb.mp hg.inputs, fun hf => ⟨hb.mpr hf,h.outputs,h.registers⟩⟩

theorem output_genuine_iff (h : Sound s) {bit : Bool} (hr : device.coil = some bit) :
    Genuine (pollOutput s p todo device) ↔
      ∀ q ∈ s.registry.outputs, q.name = p.name → OutputFits q p.address := by
  have hb := update_backed_iff p.name bit 1 p.address (fun _ => Iff.rfl) h.outputNames h.outputs
  rw [pollOutput,hr]
  exact ⟨fun hg => hb.mp hg.outputs, fun hf => ⟨h.inputs,hb.mpr hf,h.registers⟩⟩

theorem register_genuine_iff {p : ModbusRegisterPoint} (todo : List ModbusRegisterPoint)
    (h : Sound s) {words : List UInt16} {value : Json}
    (hr : readRegister decode p device = .ok (words,value)) :
    Genuine (pollRegister decode s p todo device) ↔
      ∀ q ∈ s.registry.registers, q.name = p.name → RegisterFits q p.shape := by
  have hb := backed_update p.name p.shape
    (fun q : ModbusRegisterPoint => { q with raw := words,value := value,valid := true,error := [] })
    h.registers (fun _ => rfl) (fun _ => rfl) (fun _ => Iff.rfl)
  rw [← amend_map name _ _ p.name s.registry.registers (by simp) h.registerNames] at hb
  rw [pollRegister,hr]
  exact ⟨fun hg => hb.mp hg.registers, fun hf => ⟨h.inputs,h.outputs,hb.mpr hf⟩⟩

theorem sought_auto (name : Text) (q : ModbusPoint)
    (h : (decide (q.name = name) && decide (q.source = .kAuto)) = true) : q.name = name := by
  simp at h
  exact h.1

/-- The source that a reading resolves an automatic point to admits that reading. -/
theorem resolved_backed {usedFc : ℕ} {todo : List ModbusPoint} (h : Sound s)
    (hp : s.phase = .resolving p usedFc todo) :
    Backed ModbusPoint.name ModbusPoint.valid InputFits s.inputReads
      (s.registry.setResolvedSource p.name
        (if usedFc = 2 then .kDiscreteInput else .kCoil)).inputs := by
  obtain ⟨hc,hr⟩ := h.resolving p usedFc todo hp
  rw [setResolvedSource,amend_map ModbusPoint.name _ _ p.name s.registry.inputs
    (sought_auto p.name) h.inputNames]
  refine backed_change h.inputs (fun _ _ => rfl) ?_
  intro q hq hv
  have hn := sought_auto p.name q hq
  refine ⟨hv,fun orig ho hf => ⟨hf.1,?_⟩⟩
  rw [hn,hr] at ho
  cases ho
  rcases hc with rfl | rfl
  · exact rfl
  · exact rfl

theorem register_error_backed (name error : Text) (h : Sound s) :
    Backed ModbusRegisterPoint.name ModbusRegisterPoint.valid RegisterFits s.registerReads
      (s.registry.updateRegisterError name error).registers := by
  rw [updateRegisterError,amend_map ModbusRegisterPoint.name _ _ name
    s.registry.registers (by simp) h.registerNames]
  exact backed_change h.registers (fun _ _ => rfl) (fun _ _ hv => ⟨hv,fun _ _ hf => hf⟩)

theorem Sound.in_phase (h : Sound s) (phase : Phase)
    (hp : ∀ p usedFc todo, phase ≠ .resolving p usedFc todo) :
    Sound { s with phase := phase } :=
  ⟨⟨h.inputs,h.outputs,h.registers⟩,h.inputNames,h.outputNames,h.registerNames,
    fun p usedFc todo hr => absurd hr (hp p usedFc todo)⟩

variable {p}

theorem sound_input (h : Sound s)
    (hc : ∀ bit usedFc, readInput p device = some (bit,usedFc) → ∀ q ∈ s.registry.inputs, q.name = p.name → InputFits q (p.address,usedFc)) :
    Sound (pollInput s p todo device) := by
  cases hr : readInput p device with
  | none =>
    rw [pollInput,hr]
    exact h.in_phase _ (fun _ _ _ => Phase.noConfusion)
  | some read =>
    obtain ⟨bit,usedFc⟩ := read
    have hg := (input_genuine_iff device p todo h hr).mpr (hc bit usedFc hr)
    have hcd := read_input_code hr
    rw [pollInput,hr] at hg ⊢
    refine ⟨hg,update_nodup _ bit _ h.inputNames,h.outputNames,h.registerNames,?_⟩
    intro q code rest hp
    dsimp only at hp ⊢
    split_ifs at hp
    cases hp
    exact ⟨hcd,Function.update_self _ _ _⟩

theorem sound_output (h : Sound s)
    (hc : ∀ bit, device.coil = some bit → ∀ q ∈ s.registry.outputs, q.name = p.name → OutputFits q p.address) :
    Sound (pollOutput s p todo device) := by
  cases hr : device.coil with
  | none =>
    rw [pollOutput,hr]
    exact h.in_phase _ (fun _ _ _ => Phase.noConfusion)
  | some bit =>
    have hg := (output_genuine_iff device p todo h hr).mpr (hc bit hr)
    rw [pollOutput,hr] at hg ⊢
    exact ⟨hg,h.inputNames,update_nodup p.name bit 1 h.outputNames,h.registerNames,
      fun _ _ _ hp => by cases hp⟩

theorem sound_register {p : ModbusRegisterPoint} (todo : List ModbusRegisterPoint) (h : Sound s)
    (hc : ∀ words value, readRegister decode p device = .ok (words,value) →
      ∀ q ∈ s.registry.registers, q.name = p.name → RegisterFits q p.shape) :
    Sound (pollRegister decode s p todo device) := by
  cases hr : readRegister decode p device with
  | error error =>
    rw [pollRegister,hr]
    exact ⟨⟨h.inputs,h.outputs,register_error_backed _ error h⟩,h.inputNames,h.outputNames,
      amend_register_nodup _ (fun _ => rfl) h.registerNames,
      fun _ _ _ hp => by cases hp⟩
  | ok read =>
    obtain ⟨words,value⟩ := read
    have hg := (register_genuine_iff decode device todo h hr).mpr (hc words value hr)
    rw [pollRegister,hr] at hg ⊢
    exact ⟨hg,h.inputNames,h.outputNames,
      amend_register_nodup _ (fun _ => rfl) h.registerNames,
      fun _ _ _ hp => by cases hp⟩

theorem sound_resolving {usedFc : ℕ} {todo : List ModbusPoint} (h : Sound s)
    (hp : s.phase = .resolving p usedFc todo) : Sound (pollStep decode s device) := by
  rw [pollStep,hp]
  exact ⟨⟨resolved_backed p h hp,h.outputs,h.registers⟩,
    amend_nodup ModbusPoint.name _ _ p.name s.registry.inputs (sought_auto p.name)
      (fun _ _ => rfl) h.inputNames,
    h.outputNames,h.registerNames,fun _ _ _ hn => by cases hn⟩

variable {decode device}

theorem sound_poll (h : Sound s) (hc : Current decode s (.poll device)) :
    Sound (pollStep decode s device) := by
  rw [Current] at hc
  cases hp : s.phase with
  | idle =>
    rw [pollStep,hp]
    dsimp only
    split_ifs
    · exact h
    · exact h.in_phase _ (fun _ _ _ => Phase.noConfusion)
  | inputs todo =>
    rw [hp] at hc
    rw [pollStep,hp]
    cases todo with
    | nil => exact h.in_phase _ (fun _ _ _ => Phase.noConfusion)
    | cons p todo => exact sound_input device todo h hc
  | resolving p usedFc todo => exact sound_resolving decode device h hp
  | outputs todo =>
    rw [hp] at hc
    rw [pollStep,hp]
    cases todo with
    | nil => exact h.in_phase _ (fun _ _ _ => Phase.noConfusion)
    | cons p todo => exact sound_output device todo h hc
  | registers todo =>
    rw [hp] at hc
    rw [pollStep,hp]
    cases todo with
    | nil => exact h.in_phase _ (fun _ _ _ => Phase.noConfusion)
    | cons p todo => exact sound_register decode device todo h hc

end Polling

section Runs
variable (decode : RegisterFormat → List UInt16 → Except Text Json)

theorem sound_clear {s : System} (own : ℤ) (h : Sound s) :
    Sound { s with registry := s.registry.clearOwner own } :=
  ⟨⟨backed_sub h.inputs (fun _ hp => mem_of_mem_filter hp),
      backed_sub h.outputs (fun _ hp => mem_of_mem_filter hp),
      backed_sub h.registers (fun _ hp => mem_of_mem_filter hp)⟩,
    filter_nodup _ h.inputNames,filter_nodup _ h.outputNames,
    filter_nodup _ h.registerNames,h.resolving⟩

theorem sound_step (s : System) (e : Event) (h : Sound s) (hc : Current decode s e) :
    Sound (step decode s e) := by
  cases e with
  | poll device => exact sound_poll h hc
  | registerInput name addr src owner =>
    exact ⟨⟨declare_backed name addr src (fun _ _ hf => hf) h.inputNames
        h.inputs,h.outputs,h.registers⟩,
      declare_nodup name addr src owner h.inputNames,h.outputNames,h.registerNames,
      h.resolving⟩
  | registerOutput name addr owner =>
    exact ⟨⟨h.inputs,declare_backed name addr .kCoil (fun _ _ hf => hf)
        h.outputNames h.outputs,h.registers⟩,
      h.inputNames,declare_nodup name addr .kCoil owner h.outputNames,h.registerNames,
      h.resolving⟩
  | registerRegister declared =>
    exact ⟨⟨h.inputs,h.outputs,declare_register_backed rfl h.registerNames
        h.registers⟩,
      h.inputNames,h.outputNames,declare_register_nodup declared.point h.registerNames,
      h.resolving⟩
  | clearOwner owner => exact sound_clear owner h

/-- A reading that does not fit the point it is stored under makes that point lie. -/
theorem stale_not_genuine (s : System) (e : Event) (h : Sound s) (hs : ¬Current decode s e) :
    ¬Genuine (step decode s e) := by
  intro hg
  apply hs
  cases e with
  | poll device =>
    rw [Current]
    rw [step,pollStep] at hg
    cases hp : s.phase with
    | idle => trivial
    | resolving p usedFc todo => trivial
    | inputs todo =>
      cases todo with
      | nil => trivial
      | cons p todo =>
        rw [hp] at hg
        intro bit usedFc hr
        exact (input_genuine_iff device p todo h hr).mp hg
    | outputs todo =>
      cases todo with
      | nil => trivial
      | cons p todo =>
        rw [hp] at hg
        intro bit hr
        exact (output_genuine_iff device p todo h hr).mp hg
    | registers todo =>
      cases todo with
      | nil => trivial
      | cons p todo =>
        rw [hp] at hg
        intro words value hr
        exact (register_genuine_iff decode device todo h hr).mp hg
  | registerInput name addr src owner => trivial
  | registerOutput name addr owner => trivial
  | registerRegister declared => trivial
  | clearOwner owner => trivial

theorem start_sound : Sound System.start :=
  ⟨⟨by simp [Backed,System.start,empty],by simp [Backed,System.start,empty],
      by simp [Backed,System.start,empty]⟩,
    nodup_nil,nodup_nil,nodup_nil,fun _ _ _ hp => by cases hp⟩

/-- Every valid point holds a reading of its own place, in every state of a run, exactly if
the poller never stores a reading under a name that has come to mean another place. -/
theorem genuine_iff (events : List Event) :
    (∀ before after, events = before++after →
      Genuine (run (step decode) System.start before)) ↔
      Meets (step decode) (Current decode) System.start events :=
  always_iff_meets _ _ Sound _ (sound_step decode)
    (fun _ h => h.toGenuine) (stale_not_genuine _) _ _ start_sound

end Runs

def movedInput : List Event :=
  [.registerInput "Door" 10 .kCoil 1,.poll ⟨none,none,none⟩,
    .registerInput "Door" 20 .kCoil 1,.poll ⟨none,some true,none⟩]

def moved : System := run (step (fun _ _ => .ok .null)) System.start movedInput

theorem moved_input_stale :
    moved.registry.inputs = [⟨"Door",20,1,true,true,.kCoil,1⟩] ∧
      moved.inputReads "Door" = some (10,1) ∧ ¬Genuine moved := by
  refine ⟨rfl,rfl,?_⟩
  intro h
  obtain ⟨origin,hr,hf⟩ := h.inputs ⟨"Door",20,1,true,true,.kCoil,1⟩ mem_cons_self rfl
  have ht : moved.inputReads "Door" = some (10,1) := rfl
  rw [ht] at hr
  cases hr
  exact absurd hf.1 (by decide)

end EMaster.ModbusRegistry
