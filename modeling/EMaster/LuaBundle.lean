import EMaster.NamedRows
import EMaster.Text
import EMaster.WireReader

/-!
# The payload of a Lua package

A whole application in one payload: its modules, each compiled on its own, and the name of
the one to start with. Strings are byte strings here. `source_path` serves diagnostics and
does not travel.
-/

set_option autoImplicit false

namespace EMaster
namespace Lua
open Wire List

/-- A text of the source as the bytes of a string. -/
def str (text : String) : Bytes := text.toList.map (fun c => UInt8.ofNat c.toNat)

def decimal (n : ℕ) : Bytes := (Text.ofNat n).map (fun c => UInt8.ofNat c.toNat)

structure Module where
  (name sourcePath bytecode : Bytes)
  deriving DecidableEq, Repr

structure LuaBundle where
  modules : List Module
  entry : Bytes
  deriving DecidableEq, Repr

namespace LuaBundle

def kMaxModules : ℕ := 4096
def kMaxModuleBytes : ℕ := 16*1024*1024

def kSignature : Bytes := [0x1b,0x4c,0x75,0x61]

def empty : LuaBundle := ⟨[],[]⟩

def addModule (bundle : LuaBundle) (name sourcePath bytecode : Bytes) : LuaBundle :=
  { bundle with
    modules := NamedRows.upsert (fun existing => existing.name = name)
      (fun existing => { existing with sourcePath := sourcePath,bytecode := bytecode })
      ⟨name,sourcePath,bytecode⟩ bundle.modules }

def setEntry (bundle : LuaBundle) (name : Bytes) : LuaBundle := { bundle with entry := name }

def entryBytecode (bundle : LuaBundle) : Option Bytes :=
  (bundle.modules.find? (fun module => module.name = bundle.entry)).map (·.bytecode)

def serialiseModule (module : Module) : Bytes :=
  putLE 2 module.name.length++(module.name++ (putLE 4 module.bytecode.length++module.bytecode))

def serialise (bundle : LuaBundle) : Bytes :=
  putLE 4 bundle.modules.length++(bundle.modules.flatMap serialiseModule++
    (putLE 2 bundle.entry.length++bundle.entry))

def parseModule (data : Bytes) (offset : ℕ) : Except (Stop Bytes) (Module×ℕ) := do
  let (nameLength,offset) ← readLE 2 data offset (str "bundle is truncated (module name length)")
  require (nameLength ≠ 0) (str "bundle is truncated (module name length)")
  let (name,offset) ← readBytes data offset nameLength (str "bundle is truncated (module name)")
  let (codeLength,offset) ← readLE 4 data offset (str "bundle is truncated (module length)")
  require (codeLength ≠ 0 ∧ codeLength ≤ kMaxModuleBytes)
    (str "bundle module has an implausible length")
  let (code,offset) ← readBytes data offset codeLength (str "bundle is truncated (module body)")
  require (4 ≤ code.length ∧ code.take 4 = kSignature)
    (str "bundle module \""++name++str "\" is not compiled Lua bytecode")
  .ok (⟨name,[],code⟩,offset)

def parseModules (data : Bytes) : ℕ → ℕ → Except (Stop Bytes) (List Module×ℕ)
  | 0, offset => .ok ([],offset)
  | count+1, offset => do
    let (module,offset) ← parseModule data offset
    let (modules,offset) ← parseModules data count offset
    .ok (module::modules,offset)

def parse (data : Bytes) : Except (Stop Bytes) LuaBundle := do
  let (count,offset) ← readLE 4 data 0 (str "bundle is truncated (no module count)")
  require (count ≠ 0 ∧ count ≤ kMaxModules) (str "bundle declares an implausible module count")
  let (modules,offset) ← parseModules data count offset
  let (entryLength,offset) ← readLE 2 data offset (str "bundle is truncated (entry name)")
  require (entryLength ≠ 0) (str "bundle is truncated (entry name)")
  let (entry,offset) ← readBytes data offset entryLength (str "bundle is truncated (entry name)")
  require (offset = data.length)
    (str "bundle has "++decimal (data.length-offset)++str " unexpected trailing bytes")
  require ((entryBytecode ⟨modules,entry⟩).isSome)
    (str "bundle entry \""++entry++str "\" is not one of its modules")
  .ok ⟨modules,entry⟩

def ModuleFits (module : Module) : Prop :=
  (1 ≤ module.name.length ∧ module.name.length ≤ 65535) ∧
    module.bytecode.length ≤ kMaxModuleBytes ∧
    4 ≤ module.bytecode.length ∧ module.bytecode.take 4 = kSignature

structure WellFormed (bundle : LuaBundle) : Prop where
  count : 1 ≤ bundle.modules.length ∧ bundle.modules.length ≤ kMaxModules
  modules : ∀ module ∈ bundle.modules, ModuleFits module
  entry : ∃ module ∈ bundle.modules, module.name = bundle.entry

variable (data : Bytes) (bundle : LuaBundle) (off : ℕ)

theorem parse_module_iff (next : ℕ) (module : Module) :
    parseModule data off = .ok (module,next) ↔
      ModuleFits module ∧ module.sourcePath = [] ∧
        Holds data off (serialiseModule module) next := by
  constructor
  · intro h
    simp only [parseModule,bind_ok,require_ok,exists_const,Prod.exists,read_number_iff,
      read_bytes_iff,Except.ok.injEq,Prod.mk.injEq] at h
    obtain ⟨nameLength,p1,⟨hnm,h1⟩,hna,name,p2,⟨hn,h2⟩,codeLength,p3,⟨hcd,h3⟩,hl,
      code,p4,⟨hc,h4⟩,hs,rfl,rfl⟩ := h
    subst hn hc
    have hf : 1 ≤ name.length ∧ name.length ≤ 65535 := ⟨by omega,by omega⟩
    refine ⟨⟨hf,hl.2,hs⟩,rfl,?_⟩
    rw [serialiseModule,holds_append]
    refine ⟨p1,h1,(holds_append _ _ _ _ _).mpr ⟨p2,h2,(holds_append _ _ _ _ _).mpr ⟨p3,h3,h4⟩⟩⟩
  · obtain ⟨name,sourcePath,code⟩ := module
    rintro ⟨⟨hnm,hl,hs⟩,hsr,h⟩
    simp only at hnm hl hs hsr
    subst hsr
    simp only [serialiseModule,holds_append] at h
    obtain ⟨p1,h1,p2,h2,p3,h3,h4⟩ := h
    have hm : kMaxModuleBytes < 256^4 := by decide
    simp only [parseModule,bind_ok,require_ok,exists_const,Prod.exists,read_number_iff,
      read_bytes_iff,Except.ok.injEq,Prod.mk.injEq]
    exact ⟨name.length,p1,⟨by omega,h1⟩,by omega,name,p2,⟨rfl,h2⟩,code.length,p3,⟨by omega,h3⟩,
      ⟨by omega,hl⟩,code,next,⟨rfl,h4⟩,hs,rfl,rfl⟩

theorem parse_modules_iff (count off next : ℕ) (modules : List Module)
    (ho : off ≤ data.length) :
    parseModules data count off = .ok (modules,next) ↔
      modules.length = count ∧
        (∀ module ∈ modules, ModuleFits module ∧ module.sourcePath = []) ∧
        Holds data off (modules.flatMap serialiseModule) next := by
  induction count generalizing off modules with
  | zero =>
    cases modules with
    | nil => simp [parseModules,holds_nil data off next ho,eq_comm]
    | cons module modules => simp [parseModules]
  | succ count ih =>
    simp only [parseModules,bind_ok,Prod.exists,parse_module_iff,Except.ok.injEq,Prod.mk.injEq]
    constructor
    · rintro ⟨module,p1,⟨hf,hs,h1⟩,rest,p2,hr,rfl,rfl⟩
      obtain ⟨hl,ha,h2⟩ := (ih p1 rest h1.2.2).mp hr
      refine ⟨by simp [hl],?_,?_⟩
      · intro m hm
        obtain rfl | hm := mem_cons.mp hm
        · exact ⟨hf,hs⟩
        · exact ha m hm
      · exact (holds_append _ _ _ _ _).mpr ⟨p1,h1,h2⟩
    · rintro ⟨hl,ha,h⟩
      cases modules with
      | nil => cases hl
      | cons module rest =>
        obtain ⟨p1,h1,h2⟩ := (holds_append _ _ _ _ _).mp h
        have hh := ha module mem_cons_self
        have hr := (ih p1 rest h1.2.2).mpr ⟨by simpa using hl,
          fun m hm => ha m (mem_cons_of_mem _ hm),h2⟩
        exact ⟨module,p1,⟨hh.1,hh.2,h1⟩,rest,next,hr,rfl,rfl⟩

theorem entry_found :
    (entryBytecode bundle).isSome ↔ ∃ module ∈ bundle.modules, module.name = bundle.entry := by
  simp [entryBytecode]

/-- The parser accepts a buffer just when it is the serialised form of what it hands out,
and then that is a well-formed bundle. -/
theorem parse_iff :
    parse data = .ok bundle ↔
      WellFormed bundle ∧ (∀ module ∈ bundle.modules, module.sourcePath = []) ∧
        data = serialise bundle := by
  constructor
  · intro h
    simp only [parse,bind_ok,require_ok,exists_const,Prod.exists,read_number_iff,
      read_bytes_iff,Except.ok.injEq] at h
    obtain ⟨count,p1,⟨hc,h1⟩,hcn,modules,p2,hmd,entryLength,p3,⟨he,h3⟩,he0,entry,p4,
      ⟨hen,h4⟩,hed,hfn,rfl⟩ := h
    obtain ⟨hl,ha,h2⟩ := (parse_modules_iff _ _ _ _ _ h1.2.2).mp hmd
    subst hl hen hed
    have hsm : 1 ≤ modules.length := by omega
    refine ⟨⟨⟨hsm,hcn.2⟩,fun m hm => (ha m hm).1,(entry_found _).mp hfn⟩,
      fun m hm => (ha m hm).2,?_⟩
    rw [← holds_whole,serialise]
    exact (holds_append _ _ _ _ _).mpr ⟨p1,h1,(holds_append _ _ _ _ _).mpr ⟨p2,h2,
      (holds_append _ _ _ _ _).mpr ⟨p3,h3,h4⟩⟩⟩
  · rintro ⟨hf,hs,hd⟩
    obtain ⟨module,hmm,hn⟩ := hf.entry
    have hen := (hf.modules module hmm).1
    rw [hn] at hen
    have hmx : kMaxModules < 256^4 := by decide
    have hcn := hf.count
    rw [← holds_whole,serialise] at hd
    simp only [holds_append] at hd
    obtain ⟨p1,h1,p2,h2,p3,h3,h4⟩ := hd
    have hmd := (parse_modules_iff data bundle.modules.length p1 p2 bundle.modules
      h1.2.2).mpr ⟨rfl,fun m hm => ⟨hf.modules m hm,hs m hm⟩,h2⟩
    simp only [parse,bind_ok,require_ok,exists_const,Prod.exists,read_number_iff,
      read_bytes_iff,Except.ok.injEq]
    exact ⟨bundle.modules.length,p1,⟨by omega,h1⟩,⟨by omega,by omega⟩,bundle.modules,p2,hmd,
      bundle.entry.length,p3,⟨by omega,h3⟩,by omega,bundle.entry,data.length,⟨rfl,h4⟩,rfl,
      (entry_found bundle).mpr hf.entry,rfl⟩

theorem parse_module_inside : Inside (parseModule data off) := by
  refine inside_bind (inside_number _ _ _ _) fun r1 => ?_
  refine inside_bind (inside_require _ _) fun _ => ?_
  refine inside_bind (inside_bytes _ _ _ _) fun r2 => ?_
  refine inside_bind (inside_number _ _ _ _) fun r3 => ?_
  refine inside_bind (inside_require _ _) fun _ => ?_
  refine inside_bind (inside_bytes _ _ _ _) fun r4 => ?_
  exact inside_bind (inside_require _ _) fun _ => inside_ok _

theorem parse_modules_inside (count off : ℕ) : Inside (parseModules data count off) := by
  induction count generalizing off with
  | zero => exact inside_ok _
  | succ count ih =>
    exact inside_bind (parse_module_inside data off) fun r1 =>
      inside_bind (ih r1.2) fun _ => inside_ok _

theorem parse_inside : Inside (parse data) := by
  refine inside_bind (inside_number _ _ _ _) fun r1 => ?_
  refine inside_bind (inside_require _ _) fun _ => ?_
  refine inside_bind (parse_modules_inside _ _ _) fun r2 => ?_
  refine inside_bind (inside_number _ _ _ _) fun r3 => ?_
  refine inside_bind (inside_require _ _) fun _ => ?_
  refine inside_bind (inside_bytes _ _ _ _) fun r4 => ?_
  refine inside_bind (inside_require _ _) fun _ => ?_
  exact inside_bind (inside_require _ _) fun _ => inside_ok _

/-- A bundle put together by calls, in their order, and the entry set at the end. -/
def assemble (calls : List Module) (entry : Bytes) : LuaBundle :=
  (calls.foldl (fun bundle call => bundle.addModule call.name call.sourcePath call.bytecode)
    empty).setEntry entry

def shipped (bundle : LuaBundle) : LuaBundle :=
  ⟨bundle.modules.map (fun module => { module with sourcePath := [] }),bundle.entry⟩

theorem shipped_bytes : serialise bundle.shipped = serialise bundle := by
  rw [serialise,serialise,shipped,flatMap_map,length_map]
  rfl

variable {bundle}

theorem shipped_formed (h : WellFormed bundle) : WellFormed bundle.shipped := by
  refine ⟨by simpa [shipped] using h.count,?_,?_⟩
  · intro module hm
    obtain ⟨orig,ho,rfl⟩ := mem_map.mp hm
    exact h.modules orig ho
  · obtain ⟨module,hm,hn⟩ := h.entry
    exact ⟨{ module with sourcePath := [] },mem_map.mpr ⟨module,hm,rfl⟩,hn⟩

/-- A well-formed bundle comes back from its bytes with its entry and its modules in their
order, every accepted buffer is the one its bundle is written as, and the parser touches no
byte outside its input. -/
theorem bundle_round_trip :
    (∀ (calls : List Module) (entry : Bytes), WellFormed (assemble calls entry) →
      ∃ parsed, parse (serialise (assemble calls entry)) = .ok parsed ∧
        parsed.entry = (assemble calls entry).entry ∧
        parsed.modules.map (fun m => (m.name,m.bytecode)) =
          (assemble calls entry).modules.map (fun m => (m.name,m.bytecode))) ∧
      (∀ (data : Bytes) (bundle : LuaBundle), parse data = .ok bundle → serialise bundle = data) ∧
      ∀ data : Bytes, parse data ≠ .error .outside := by
  refine ⟨fun calls entry h => ⟨(assemble calls entry).shipped,?_,rfl,?_⟩,?_,parse_inside⟩
  · refine (parse_iff _ _).mpr ⟨shipped_formed h,?_,(shipped_bytes _).symm⟩
    intro module hm
    obtain ⟨origin,_,rfl⟩ := List.mem_map.mp hm
    rfl
  · simp [shipped]
  · intro data bundle h
    exact ((parse_iff data bundle).mp h).2.2.symm

/-- Two modules, the first of them added twice. -/
def twoModules : List Module :=
  [⟨str "core.access",str "core/access.lua",kSignature⟩,
    ⟨str "main",str "main.lua",kSignature++[0x54,0]⟩,
    ⟨str "core.access",str "core/access.lua",kSignature++[0x53]⟩]

theorem two_modules_round_trip :
    ∃ parsed, parse (serialise (assemble twoModules (str "main"))) = .ok parsed ∧
      parsed.entry = str "main" ∧
      parsed.modules.map (fun m => (m.name,m.bytecode)) =
        [(str "core.access",kSignature++[0x53]),(str "main",kSignature++[0x54,0])] :=
  bundle_round_trip.1 twoModules (str "main") ⟨by decide,by unfold ModuleFits; decide,by decide⟩

end LuaBundle
end Lua
end EMaster
