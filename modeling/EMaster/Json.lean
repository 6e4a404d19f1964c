import EMaster.Text

/-!
# JSON values

Values as the JSON library hands them over, with the lookups the program makes.
Reading and writing text belongs to the library and is a parameter.
-/

set_option autoImplicit false

namespace EMaster

inductive Json where
  | null
  | bool (b : Bool)
  | int (n : ℤ)
  | float (literal : Text)
  | str (text : Text)
  | arr (items : List Json)
  | obj (fields : List (Text×Json))

namespace Json

structure Codec where
  (parse readStream : Text → Except Text Json)
  dump : Json → Text

def isObject : Json → Bool
  | .obj _ => true
  | _ => false

def asText : Json → Option Text
  | .str text => some text
  | _ => none

def field (j : Json) (key : Text) : Option Json :=
  match j with
  | .obj fields => (fields.find? (fun f => f.1 = key)).map (·.2)
  | _ => none

/-- The string under a key, or the default where the key is missing; nothing where the
library throws, because the value is no object or the entry no string. -/
def valueText (j : Json) (key fallback : Text) : Option Text :=
  match j with
  | .obj _ =>
    match j.field key with
    | none => some fallback
    | some entry => entry.asText
  | _ => none

def textField (j : Json) (key : Text) : Text := ((j.field key).bind asText).getD []

def stringArray (j : Json) (key : Text) : List Text :=
  match j.field key with
  | some (.arr items) => items.filterMap asText
  | _ => []

end Json
end EMaster
