import EMaster.Json
import EMaster.SortedMap

/-!
# Configuration that Lua projects declare

A project declares a schema. Its values are kept in memory and in a table, the defaults come from
the schema, and a read leaves out what the schema declares to be secret. A function of the library
that throws gives `none`.
-/

set_option autoImplicit false

namespace EMaster.DynamicConfig
open List

def kMasked : Json := .str "********"

def asBool : Json → Option Bool
  | .bool b => some b
  | _ => none

/-- The value under a key or the default. It throws if there is no object, or a value of another
type. -/
def value {α : Type} (read : Json → Option α) (j : Json) (key : String) (fallback : α) : Option α :=
  match j with
  | .obj _ =>
    match j.field key.toList with
    | none => some fallback
    | some entry => read entry
  | _ => none

def arrayField (j : Json) (key : String) : List Json :=
  match j.field key.toList with
  | some (.arr items) => items
  | _ => []

variable {j : Json} {key : Text}

theorem field_size {en : Json} (h : j.field key = some en) : sizeOf en < sizeOf j := by
  cases j with
  | obj members =>
    obtain ⟨member,hf,rfl⟩ := Option.map_eq_some_iff.mp h
    have hm := sizeOf_lt_of_mem (mem_of_find?_eq_some hf)
    simp only [Json.obj.sizeOf_spec]
    cases member
    simp only [Prod.mk.sizeOf_spec] at hm ⊢
    omega
  | _ => cases h

variable {item : Json}

theorem items_size {items : List Json} (h : j.field key = some (.arr items)) (hi : item ∈ items) : sizeOf item < sizeOf j := by
  have hf := field_size h
  have hl := sizeOf_lt_of_mem hi
  simp only [Json.arr.sizeOf_spec] at hf
  omega

theorem item_size {key : String} (h : item ∈ arrayField j key) : sizeOf item < sizeOf j := by
  rw [arrayField] at h
  split at h
  · exact items_size ‹_› h
  · exact absurd h not_mem_nil

def collectFields (schema : Json) : List Json :=
  arrayField schema "fields"++
    (arrayField schema "groups").attach.flatMap fun group => collectFields group.1
termination_by sizeOf schema
decreasing_by exact item_size group.2

def flatSchema (fields : List Json) : Json := .obj [("fields",.arr fields)]

theorem flat_schema_fields (fields : List Json) : collectFields (flatSchema fields) = fields := by
  rw [collectFields]
  simp [flatSchema,arrayField,Json.field]

variable (field : Json)

def keyOf : Option Text := value Json.asText field "key" []

def isSecret : Option Bool := do
  let type ← value Json.asText field "type" "string"
  if type = "password" ∨ type = "secret" then some true
  else value asBool field "secret" false

def itemSchema : Json := (field.field "item_schema").getD (.obj [])

/-! ## The manager -/

structure Row where
  version : ℤ
  (schema values : Text)

structure Manager where
  (schemas values : Text → Option Json)
  rows : Text → Option Row

structure Database where
  (opens reads writes : Bool)

variable (codec : Json.Codec) (db : Database)

def loadProject (m : Manager) (project : Text) : Manager :=
  if (m.schemas project).isSome ∨ ¬db.opens ∨ ¬db.reads then m
  else
    match m.rows project with
    | none => m
    | some row =>
      match codec.parse row.schema with
      | .error _ => m
      | .ok schema =>
        let m := { m with schemas := Function.update m.schemas project (some schema) }
        match codec.parse row.values with
        | .error _ => m
        | .ok values => { m with values := Function.update m.values project (some values) }

end EMaster.DynamicConfig
