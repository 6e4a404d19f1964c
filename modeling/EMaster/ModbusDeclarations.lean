import EMaster.ModbusPoller

/-!
# Points declared again

A script that is run again registers the same names. Next to the registry the last
declaration under each name is remembered. A point that is declared again as before should
keep what was read for it.
-/

set_option autoImplicit false

namespace EMaster.ModbusRegistry
open NamedRows Runs List Registry ModbusPoint

inductive Call where
  | registerInput (name : Text) (address : ℤ) (source : ModbusSource) (owner : ℤ)
  | registerOutput (name : Text) (address owner : ℤ)
  | registerRegister (point : ModbusRegisterPoint)
  | updateInput (name : Text) (value : Bool) (functionCode : ℕ)
  | updateOutput (name : Text) (value : Bool)
  | updateRegister (name : Text) (raw : List UInt16) (value : Json)
  | updateRegisterError (name error : Text)
  | setResolvedSource (name : Text) (source : ModbusSource)
  | clearOwner (owner : ℤ)

structure Declared where
  registry : Registry
  inputs : Text → Option (ℤ×ModbusSource)
  outputs : Text → Option ℤ
  registers : Text → Option Shape

namespace Declared

def start : Declared := ⟨.empty,fun _ => none,fun _ => none,fun _ => none⟩

def call (s : Declared) : Call → Declared
  | .registerInput name address source owner =>
    { s with
      registry := s.registry.registerInput name address source owner
      inputs := Function.update s.inputs name (some (address,source)) }
  | .registerOutput name address owner =>
    { s with
      registry := s.registry.registerOutput name address owner
      outputs := Function.update s.outputs name (some address) }
  | .registerRegister point =>
    { s with
      registry := s.registry.registerRegister point
      registers := Function.update s.registers point.name (some point.shape) }
  | .updateInput name value functionCode =>
    { s with registry := s.registry.updateInput name value functionCode }
  | .updateOutput name value => { s with registry := s.registry.updateOutput name value }
  | .updateRegister name raw value =>
    { s with registry := s.registry.updateRegister name raw value }
  | .updateRegisterError name error =>
    { s with registry := s.registry.updateRegisterError name error }
  | .setResolvedSource name source =>
    { s with registry := s.registry.setResolvedSource name source }
  | .clearOwner owner => { s with registry := s.registry.clearOwner owner }

end Declared

def ModbusPoint.reading (p : ModbusPoint) : Bool×Bool×ℕ := (p.value,p.valid,p.functionCode)

def ModbusRegisterPoint.reading (p : ModbusRegisterPoint) : List UInt16×Json×Bool×Text :=
  (p.raw,p.value,p.valid,p.error)

/-- Exactly the rows of one owner are gone; the others are as they were, in order. -/
def Cleared {Row : Type} (ownerOf : Row → ℤ) (owner : ℤ) (rows kept : List Row) : Prop :=
  kept.Sublist rows ∧ ∀ row, row ∈ kept ↔ row ∈ rows ∧ ownerOf row ≠ owner

structure Tidy (s : Declared) : Prop where
  inputNames : (s.registry.inputs.map ModbusPoint.name).Nodup
  outputNames : (s.registry.outputs.map ModbusPoint.name).Nodup
  registerNames : (s.registry.registers.map ModbusRegisterPoint.name).Nodup
  inputsCleared : ∀ owner, Cleared ModbusPoint.owner owner s.registry.inputs
    (s.registry.clearOwner owner).inputs
  outputsCleared : ∀ owner, Cleared ModbusPoint.owner owner s.registry.outputs
    (s.registry.clearOwner owner).outputs
  registersCleared : ∀ owner, Cleared ModbusRegisterPoint.owner owner s.registry.registers
    (s.registry.clearOwner owner).registers
  inputsKept : ∀ p ∈ s.registry.inputs, ∀ address source owner,
    s.inputs p.name = some (address,source) →
      ∃ q ∈ (s.registry.registerInput p.name address source owner).inputs,
        q.name = p.name ∧ q.reading = p.reading
  outputsKept : ∀ p ∈ s.registry.outputs, ∀ address owner, s.outputs p.name = some address →
    ∃ q ∈ (s.registry.registerOutput p.name address owner).outputs,
      q.name = p.name ∧ q.reading = p.reading
  registersKept : ∀ p ∈ s.registry.registers, ∀ point, point.name = p.name →
    s.registers p.name = some point.shape →
      ∃ q ∈ (s.registry.registerRegister point).registers, q.name = p.name ∧ q.reading = p.reading

/-- No input that was declared automatic holds a reading after its source was resolved. -/
def Unresolved (s : Declared) : Prop :=
  ∀ p ∈ s.registry.inputs, p.valid = true →
    ∀ address, s.inputs p.name = some (address,.kAuto) → p.source = .kAuto

def InputDeclared (p : ModbusPoint) (declared : ℤ×ModbusSource) : Prop :=
  p.address = declared.1 ∧ (p.source = declared.2 ∨ declared.2 = .kAuto) ∧
    (p.valid = false → p.reading = (false,false,0))

def OutputDeclared (p : ModbusPoint) (declared : ℤ) : Prop :=
  p.address = declared ∧ p.source = .kCoil

/-- Each row is as it was declared, up to the source of an automatic input. -/
structure Noted (s : Declared) : Prop where
  inputNames : (s.registry.inputs.map ModbusPoint.name).Nodup
  outputNames : (s.registry.outputs.map ModbusPoint.name).Nodup
  registerNames : (s.registry.registers.map ModbusRegisterPoint.name).Nodup
  inputs : Backed ModbusPoint.name (fun _ => true) InputDeclared s.inputs s.registry.inputs
  outputs : Backed ModbusPoint.name (fun _ => true) OutputDeclared s.outputs s.registry.outputs
  registers : Backed ModbusRegisterPoint.name (fun _ => true) RegisterFits s.registers
    s.registry.registers

theorem filter_cleared {Row : Type} (ownerOf : Row → ℤ) (own : ℤ) (rows : List Row) :
    Cleared ownerOf own rows (rows.filter (fun row => ownerOf row ≠ own)) :=
  ⟨filter_sublist,by simp⟩

theorem redeclare_declared (addr : ℤ) (src : ModbusSource) (own : ℤ) {p : ModbusPoint}
    (h : p.valid = false → p.reading = (false,false,0)) :
    InputDeclared (redeclare addr src own p) (addr,src) := by
  rw [redeclare]
  split_ifs with hm
  · exact ⟨rfl,.inl rfl,fun _ => rfl⟩
  · push Not at hm
    exact ⟨hm.1,.inl hm.2,h⟩

theorem redeclare_coil (address own : ℤ) (p : ModbusPoint) :
    OutputDeclared (redeclare address .kCoil own p) address := by
  rw [redeclare]
  split_ifs with hm
  · exact ⟨rfl,rfl⟩
  · push Not at hm
    exact hm

theorem replaced_shape (point p : ModbusRegisterPoint) :
    RegisterFits (replaced point p) point.shape := by
  rw [RegisterFits,replaced]
  split_ifs <;> rfl

theorem redeclare_same (owner : ℤ) (p : ModbusPoint) :
    redeclare p.address p.source owner p = { p with owner := owner } := by
  simp [redeclare]

section Calls
variable {s : Declared}

theorem noted_start : Noted Declared.start :=
  ⟨nodup_nil,nodup_nil,nodup_nil,forall_mem_nil _,forall_mem_nil _,forall_mem_nil _⟩

theorem noted_register_input (h : Noted s) (name : Text) (address : ℤ) (source : ModbusSource)
    (owner : ℤ) : Noted (s.call (.registerInput name address source owner)) where
  inputNames := declare_nodup name address source owner h.inputNames
  outputNames := h.outputNames
  registerNames := h.registerNames
  inputs := by
    refine backed_declare (redeclare address source owner)
      { name := name, address := address, source := source, owner := owner } (address,source)
      h.inputNames h.inputs (fun p _ => redeclare_name address source owner p) ?_ ?_
    · intro p hp
      obtain ⟨declared,_,_,_,hb⟩ := h.inputs p hp rfl
      exact redeclare_declared address source owner hb
    · exact ⟨rfl,.inl rfl,fun _ => rfl⟩
  outputs := h.outputs
  registers := h.registers

theorem noted_register_output (h : Noted s) (name : Text) (address owner : ℤ) :
    Noted (s.call (.registerOutput name address owner)) where
  inputNames := h.inputNames
  outputNames := declare_nodup name _ _ owner h.outputNames
  registerNames := h.registerNames
  inputs := h.inputs
  outputs := backed_declare (redeclare address .kCoil owner)
    { name := name, address := address, source := .kCoil, owner := owner } address
    h.outputNames h.outputs (fun p _ => redeclare_name address .kCoil owner p)
    (fun p _ => redeclare_coil address owner p) ⟨rfl,rfl⟩
  registers := h.registers

theorem noted_register_register (h : Noted s) (point : ModbusRegisterPoint) :
    Noted (s.call (.registerRegister point)) where
  inputNames := h.inputNames
  outputNames := h.outputNames
  registerNames := declare_register_nodup point h.registerNames
  inputs := h.inputs
  outputs := h.outputs
  registers := backed_declare (replaced point) point point.shape
    h.registerNames h.registers (fun p hp => by rw [replaced_name,hp])
    (fun p _ => replaced_shape point p) rfl

theorem noted_update_input (h : Noted s) (name : Text) (value : Bool) (functionCode : ℕ) :
    Noted (s.call (.updateInput name value functionCode)) where
  inputNames := update_nodup name value functionCode h.inputNames
  outputNames := h.outputNames
  registerNames := h.registerNames
  inputs := by
    show Backed _ _ _ _ (updateUnlocked s.registry.inputs name value functionCode)
    rw [update_map name value functionCode h.inputNames]
    refine backed_change h.inputs (fun _ _ => rfl) ?_
    exact fun p _ _ => ⟨rfl,fun declared _ hp => ⟨hp.1,hp.2.1,nofun⟩⟩
  outputs := h.outputs
  registers := h.registers

theorem noted_update_output (h : Noted s) (name : Text) (value : Bool) :
    Noted (s.call (.updateOutput name value)) where
  inputNames := h.inputNames
  outputNames := update_nodup name value 1 h.outputNames
  registerNames := h.registerNames
  inputs := h.inputs
  outputs := by
    show Backed _ _ _ _ (updateUnlocked s.registry.outputs name value 1)
    rw [update_map name value 1 h.outputNames]
    exact backed_change h.outputs (fun _ _ => rfl) (fun p _ _ => ⟨rfl,fun _ _ hp => hp⟩)
  registers := h.registers

theorem amended_registers (h : Noted s) (name : Text)
    {f : ModbusRegisterPoint → ModbusRegisterPoint} (hn : ∀ p, (f p).name = p.name)
    (hs : ∀ p, (f p).shape = p.shape) :
    Noted { s with
      registry := { s.registry with
        registers := amend (fun p => p.name = name) f s.registry.registers } } where
  inputNames := h.inputNames
  outputNames := h.outputNames
  registerNames := amend_register_nodup name hn h.registerNames
  inputs := h.inputs
  outputs := h.outputs
  registers := by
    show Backed _ _ _ _ (amend _ f s.registry.registers)
    rw [amend_map _ _ f name _ (by simp) h.registerNames]
    refine backed_change h.registers (fun p _ => hn p) ?_
    intro p _ _
    refine ⟨rfl,fun declared _ hp => ?_⟩
    rw [RegisterFits,hs]
    exact hp

theorem noted_resolved (h : Noted s) (name : Text) (src : ModbusSource) :
    Noted (s.call (.setResolvedSource name src)) where
  inputNames := amend_nodup ModbusPoint.name _ _ name s.registry.inputs (sought_auto name)
    (fun _ _ => rfl) h.inputNames
  outputNames := h.outputNames
  registerNames := h.registerNames
  inputs := by
    show Backed _ _ _ _ (s.registry.setResolvedSource name src).inputs
    rw [setResolvedSource,amend_map ModbusPoint.name _ _ name s.registry.inputs
      (sought_auto name) h.inputNames]
    refine backed_change h.inputs (fun _ _ => rfl) ?_
    intro p hp _
    refine ⟨rfl,fun declared _ hf => ⟨hf.1,.inr ?_,hf.2.2⟩⟩
    -- Only a point that is still automatic is resolved, and it was declared so.
    have ha : p.source = .kAuto := by
      simp at hp
      exact hp.2
    rcases hf.2.1 with hs | hd
    · rw [← hs,ha]
    · exact hd
  outputs := h.outputs
  registers := h.registers

theorem noted_cleared (h : Noted s) (own : ℤ) : Noted (s.call (.clearOwner own)) where
  inputNames := filter_nodup _ h.inputNames
  outputNames := filter_nodup _ h.outputNames
  registerNames := filter_nodup _ h.registerNames
  inputs := backed_sub h.inputs (fun _ hp => mem_of_mem_filter hp)
  outputs := backed_sub h.outputs (fun _ hp => mem_of_mem_filter hp)
  registers := backed_sub h.registers (fun _ hp => mem_of_mem_filter hp)

theorem noted_call (h : Noted s) (call : Call) : Noted (s.call call) := by
  cases call with
  | registerInput name addr src owner => exact noted_register_input h name addr src owner
  | registerOutput name addr owner => exact noted_register_output h name addr owner
  | registerRegister point => exact noted_register_register h point
  | updateInput name value functionCode => exact noted_update_input h name value functionCode
  | updateOutput name value => exact noted_update_output h name value
  | updateRegister name raw value =>
    exact amended_registers h name (fun _ => rfl) (fun _ => rfl)
  | updateRegisterError name error =>
    exact amended_registers h name (fun _ => rfl) (fun _ => rfl)
  | setResolvedSource name src => exact noted_resolved h name src
  | clearOwner owner => exact noted_cleared h owner

end Calls

theorem noted_run (calls : List Call) : Noted (run Declared.call Declared.start calls) :=
  run_invariant _ _ Noted (fun _ call h _ => noted_call h call)
    _ calls noted_start (meets_of_forall _ _ _ _ (fun _ _ _ => trivial))

section Again
variable {s : Declared} {p : ModbusPoint}

theorem upsert_again {points : List ModbusPoint} (hn : (points.map name).Nodup)
    (hp : p ∈ points) (address : ℤ) (source : ModbusSource) (owner : ℤ) (q : ModbusPoint) :
    q ∈ upsertUnlocked points p.name address source owner ∧ q.name = p.name ↔
      q = redeclare address source owner p :=
  upsert_found name (redeclare address source owner)
    { name := p.name, address := address, source := source, owner := owner } p points hn hp
    rfl (fun o _ => redeclare_name address source owner o) q

theorem output_kept (h : Noted s) (p : ModbusPoint) (hp : p ∈ s.registry.outputs)
    (addr own : ℤ) (hd : s.outputs p.name = some addr) :
    ∃ q ∈ (s.registry.registerOutput p.name addr own).outputs,
      q.name = p.name ∧ q.reading = p.reading := by
  obtain ⟨declared,hn,ha,hs⟩ := h.outputs p hp rfl
  rw [hd] at hn
  cases hn
  obtain ⟨hm,hnm⟩ := (upsert_again h.outputNames hp addr _ own _).mpr rfl
  refine ⟨redeclare addr .kCoil own p,hm,hnm,?_⟩
  rw [← ha,← hs,redeclare_same]
  rfl

theorem register_kept (h : Noted s) (p : ModbusRegisterPoint) (hp : p ∈ s.registry.registers)
    (point : ModbusRegisterPoint) (hnm : point.name = p.name)
    (hd : s.registers p.name = some point.shape) :
    ∃ q ∈ (s.registry.registerRegister point).registers,
      q.name = p.name ∧ q.reading = p.reading := by
  obtain ⟨shape,hn,hs⟩ := h.registers p hp rfl
  rw [hd] at hn
  cases hn
  obtain ⟨hm,hna⟩ := (upsert_found ModbusRegisterPoint.name (replaced point) point p
    s.registry.registers h.registerNames hp hnm.symm
    (fun o ho => by rw [replaced_name,ho]) _).mpr rfl
  refine ⟨replaced point p,hm,hna.trans hnm,?_⟩
  rw [replaced,if_pos (show p.shape = point.shape from hs)]
  rfl

theorem input_kept (h : Noted s) (hu : Unresolved s) (p : ModbusPoint)
    (hp : p ∈ s.registry.inputs) (addr : ℤ) (src : ModbusSource) (own : ℤ)
    (hd : s.inputs p.name = some (addr,src)) :
    ∃ q ∈ (s.registry.registerInput p.name addr src own).inputs,
      q.name = p.name ∧ q.reading = p.reading := by
  obtain ⟨declared,hn,ha,hsr,hb⟩ := h.inputs p hp rfl
  rw [hd] at hn
  cases hn
  obtain ⟨hm,hnm⟩ := (upsert_again h.inputNames hp addr src own _).mpr rfl
  refine ⟨redeclare addr src own p,hm,hnm,?_⟩
  by_cases hs : p.source = src
  · rw [← show p.address = addr from ha,← hs,redeclare_same]
    rfl
  · -- The point was resolved; it has no reading to lose.
    have hat : src = .kAuto := hsr.resolve_left hs
    have hi : p.valid = false := by
      by_contra hv
      rw [Bool.not_eq_false] at hv
      rw [hat] at hd hs
      exact hs (hu p hp hv addr hd)
    rw [hb hi,redeclare,if_pos (.inr hs)]
    rfl

theorem resolved_lost (h : Noted s) (hp : p ∈ s.registry.inputs) (hv : p.valid = true) (addr : ℤ)
    (hs : p.source ≠ .kAuto) (own : ℤ) :
    ¬∃ q ∈ (s.registry.registerInput p.name addr .kAuto own).inputs,
      q.name = p.name ∧ q.reading = p.reading := by
  rintro ⟨q,hq,hn,hr⟩
  have hq' := (upsert_again h.inputNames hp addr _ own q).mp ⟨hq,hn⟩
  rw [hq',redeclare,if_pos (.inr hs)] at hr
  simp [reading,hv] at hr

end Again

/-- After any calls: names are unique, an owner is cleared exactly, and a declaration that
is made again keeps the reading, if and only if no automatic input that holds a reading
has been resolved. -/
theorem tidy_iff (calls : List Call) :
    Tidy (run Declared.call Declared.start calls) ↔
      Unresolved (run Declared.call Declared.start calls) := by
  have h := noted_run calls
  constructor
  · intro ht p hp hv address hd
    by_contra hs
    exact resolved_lost h hp hv address hs p.owner (ht.inputsKept p hp address .kAuto p.owner hd)
  · intro hu
    exact
      { inputNames := h.inputNames
        outputNames := h.outputNames
        registerNames := h.registerNames
        inputsCleared := fun owner => filter_cleared ModbusPoint.owner owner _
        outputsCleared := fun owner => filter_cleared ModbusPoint.owner owner _
        registersCleared := fun owner => filter_cleared ModbusRegisterPoint.owner owner _
        inputsKept := input_kept h hu
        outputsKept := output_kept h
        registersKept := register_kept h }

def cardTaken : Call := .registerInput "CardTaken" 1024 .kAuto 7

def resolvedCalls : List Call :=
  [cardTaken,.updateInput "CardTaken" true 1,.setResolvedSource "CardTaken" .kCoil]

def resolvedPoint : ModbusPoint where
  name := "CardTaken"
  address := 1024
  owner := 7
  value := true
  valid := true
  source := .kCoil
  functionCode := 1

/-- The coil answered and the point was resolved to it; then the same script is run again. -/
theorem resolved_input_lost :
    ¬Tidy (run Declared.call Declared.start resolvedCalls) ∧
      (run Declared.call Declared.start (resolvedCalls++[cardTaken])).registry.inputs =
        [{ name := "CardTaken",address := 1024,owner := 7 }] := by
  refine ⟨fun ht => ?_,by decide⟩
  have hp : resolvedPoint ∈ (run Declared.call Declared.start resolvedCalls).registry.inputs := by
    decide
  exact resolved_lost (noted_run resolvedCalls) hp rfl 1024 (by decide) 7
    (ht.inputsKept resolvedPoint hp 1024 .kAuto 7 (by decide))

end EMaster.ModbusRegistry
