import EMaster.RustConfig
import EMaster.Runs

/-!
# Declared schemas and stored values

The manager keeps the schema and the values of an application in two maps that different
operations write.
-/

set_option autoImplicit false

namespace EMaster.ApplicationConfig
open RustConfig RustText List Function

inductive FieldType where
  | string
  | password
  | number
  | integer
  | boolean
  | url
  | port
  deriving DecidableEq, Repr

inductive ConfigError where
  | invalidSchema
  | unknownField (name : Text)
  | missingField (name : Text)
  | wrongType (name : Text)
  | invalidValue (name : Text)
  | io (message : Text)
  | unread (failure : Failure)
  deriving DecidableEq, Repr

variable {F : Type}

structure Field (F : Type) where
  id : Text
  fieldType : FieldType
  required : Bool
  default : Option (Value F)

structure Schema (F : Type) where
  (application version : Text)
  fields : List (Field F)

def FieldType.accepts : FieldType → Value F → Bool
  | .string, .string _ | .password, .string _ => true
  | .number, .number _ => true
  | .integer, .integer _ | .port, .integer _ => true
  | .boolean, .boolean _ => true
  | .url, .string text => "http://".toList.isPrefixOf text || "https://".toList.isPrefixOf text
  | _, _ => false

def validateType (field : Field F) (value : Value F) : Option ConfigError :=
  if !field.fieldType.accepts value then some (.wrongType field.id)
  else
    match field.fieldType, value with
    | .port, .integer n =>
      if 1 ≤ n.val ∧ n.val ≤ 65535 then none else some (.invalidValue field.id)
    | _, _ => none

def validateFields (seen : List Text) : List (Field F) → Option ConfigError
  | [] => none
  | field::rest =>
    if trim field.id = [] ∨ field.id ∈ seen then some .invalidSchema
    else
      match field.default.bind (validateType field) with
      | some e => some e
      | none => validateFields (field.id::seen) rest

def Schema.validate (schema : Schema F) : Option ConfigError :=
  if trim schema.application = [] ∨ trim schema.version = [] ∨ schema.fields.isEmpty then
    some .invalidSchema
  else validateFields [] schema.fields

def Schema.defaultEntries (schema : Schema F) : List (Text×Value F) :=
  schema.fields.filterMap (fun field => field.default.map (fun value => (field.id,value)))

def Schema.defaults (schema : Schema F) : Values F :=
  schema.defaultEntries.foldl (fun m entry => m.insert entry.1 entry.2) SortedMap.empty

def get (values : Values F) (key : Text) : Option (Value F) :=
  (values.entries.find? (fun entry => entry.1 = key)).map Prod.snd

def checkField (values : Values F) (field : Field F) : Option ConfigError :=
  match get values field.id with
  | some value => validateType field value
  | none =>
    if field.required ∧ field.default.isNone then some (.missingField field.id) else none

def Schema.validateValues (schema : Schema F) (values : Values F) : Option ConfigError :=
  match schema.validate with
  | some e => some e
  | none =>
    match values.keys.find? (fun key => !schema.fields.any (fun field => field.id = key)) with
    | some key => some (.unknownField key)
    | none => schema.fields.findSome? (checkField values)

structure Manager (F : Type) where
  schemas : Text → Option (Schema F)
  values : Text → Option (Values F)

/-- A file is its text, or the message why it could not be read. -/
inductive Op (F : Type) where
  | declare (schema : Schema F)
  | set (application : Text) (values : Values F)
  | reload (application : Text) (file : Except Text Text)

def Manager.declare (m : Manager F) (schema : Schema F) : Manager F×Option ConfigError :=
  match schema.validate with
  | some e => (m,some e)
  | none =>
    let app := schema.application
    (⟨Function.update m.schemas app (some schema),
      Function.update m.values app (some ((m.values app).getD schema.defaults))⟩,none)

def Manager.set (m : Manager F) (app : Text) (values : Values F) : Manager F×Option ConfigError :=
  match m.schemas app with
  | none => (m,some (.unknownField app))
  | some schema =>
    match schema.validateValues values with
    | some e => (m,some e)
    | none => ({ m with values := Function.update m.values app (some values) },none)

def Manager.reloadJson (floats : F64 F) (m : Manager F) (app : Text)
    (file : Except Text Text) : Manager F×Option ConfigError :=
  match m.schemas app with
  | none => (m,some (.unknownField app))
  | some _ =>
    match file with
    | .error message => (m,some (.io message))
    | .ok text =>
      match decodeJson floats text with
      | .error failure => (m,some (.unread failure))
      | .ok values => m.set app values

def step (floats : F64 F) (m : Manager F) : Op F → Manager F
  | .declare schema => (m.declare schema).1
  | .set app values => (m.set app values).1
  | .reload app file => (m.reloadJson floats app file).1

/-- Every value is one of a declared field and of the declared type. -/
def Fits (schema : Schema F) (values : Values F) : Prop :=
  ∀ entry ∈ values.entries,
    ∃ field ∈ schema.fields, field.id = entry.1 ∧ validateType field entry.2 = none

def Conforms (m : Manager F) : Prop :=
  ∀ app values, m.values app = some values → ∃ schema, m.schemas app = some schema ∧
    Fits schema values

/-- The values an application already has fit the schema that is declared for it. -/
def Carries (m : Manager F) : Op F → Prop
  | .declare schema => schema.validate = none → ∀ values, m.values schema.application = some values →
      Fits schema values
  | _ => True

variable (schema : Schema F) (values : Values F)

theorem get_entry {en : Text×Value F} (h : en ∈ values.entries) : get values en.1 = some en.2 := by
  rw [get]
  cases hf : values.entries.find? (fun o => o.1 = en.1) with
  | none =>
    have hne := List.find?_eq_none.mp hf en h
    simp at hne
  | some o =>
    have hn : (values.entries.map Prod.fst).Nodup := values.sorted.imp (fun hl => hl.ne)
    rw [inj_on_of_nodup_map hn (mem_of_find?_eq_some hf) h
      (by simpa using List.find?_some hf),Option.map_some]

theorem fits_validated (h : schema.validateValues values = none) : Fits schema values := by
  rw [Schema.validateValues] at h
  cases hv : schema.validate <;> rw [hv] at h
  · dsimp only at h
    cases hk : values.keys.find? (fun key => !schema.fields.any (fun field => field.id = key)) <;>
      rw [hk] at h
    · intro en he
      have ha := List.find?_eq_none.mp hk en.1 (mem_map_of_mem he)
      obtain ⟨field,hf,hid⟩ : ∃ field ∈ schema.fields, field.id = en.1 := by simpa using ha
      have hc := List.findSome?_eq_none_iff.mp h field hf
      rw [checkField,hid,get_entry values he] at hc
      exact ⟨field,hf,hid,hc⟩
    · exact nomatch h
  · exact nomatch h

theorem default_checked (seen : List Text) (fields : List (Field F)) (field : Field F)
    (value : Value F) (h : validateFields seen fields = none) (hf : field ∈ fields)
    (hv : field.default = some value) : validateType field value = none := by
  induction fields generalizing seen with
  | nil => exact absurd hf not_mem_nil
  | cons first rest ih =>
    rw [validateFields] at h
    split_ifs at h
    cases hd : first.default.bind (validateType first) <;> rw [hd] at h
    · rcases mem_cons.mp hf with rfl | hr
      · rw [hv] at hd
        exact hd
      · exact ih _ h hr
    · exact nomatch h

theorem fits_defaults (h : schema.validate = none) : Fits schema schema.defaults := by
  rw [Schema.validate] at h
  split_ifs at h
  intro en he
  rcases SortedMap.mem_insert_all _ _ en he with hn | hm
  · exact absurd hn not_mem_nil
  · obtain ⟨field,hf,hd⟩ := mem_filterMap.mp hm
    obtain ⟨value,hv,rfl⟩ := Option.map_eq_some_iff.mp hd
    exact ⟨field,hf,rfl,default_checked _ _ field value h hf hv⟩

variable (floats : F64 F) (m : Manager F)

theorem conforms_put (app : Text) {schema : Schema F} {values : Values F} (h : Conforms m)
    (hs : Fits schema values) : Conforms ⟨update m.schemas app (some schema),
      update m.values app (some values)⟩ := by
  intro o vs hv
  dsimp only at hv ⊢
  by_cases ho : o = app
  · subst ho
    rw [update_self] at hv ⊢
    obtain rfl := Option.some.inj hv
    exact ⟨schema,rfl,hs⟩
  · rw [update_of_ne ho] at hv ⊢
    exact h o vs hv

theorem conforms_set (app : Text) (vs : Values F) (h : Conforms m) : Conforms (m.set app vs).1 := by
  rw [Manager.set]
  cases hs : m.schemas app with
  | none => exact h
  | some schema =>
    dsimp only
    cases hv : schema.validateValues vs with
    | some e => exact h
    | none =>
      have hp := conforms_put m app h (fits_validated schema vs hv)
      rwa [← hs,update_eq_self] at hp

theorem conforms_step {op : Op F} (h : Conforms m) (ho : Carries m op) :
    Conforms (step floats m op) := by
  cases op with
  | declare schema =>
    rw [step,Manager.declare]
    cases hv : schema.validate with
    | some e => exact h
    | none =>
      refine conforms_put m schema.application h ?_
      cases hol : m.values schema.application with
      | none => exact fits_defaults schema hv
      | some vs => exact ho hv vs hol
  | set app vs => exact conforms_set m app vs h
  | reload app file =>
    simp only [step,Manager.reloadJson]
    cases m.schemas app with
    | none => exact h
    | some schema =>
      cases file with
      | error msg => exact h
      | ok text =>
        dsimp only
        cases decodeJson floats text with
        | error failure => exact h
        | ok vs => exact conforms_set m app vs h

theorem carries_breaks {op : Op F} (ho : ¬Carries m op) : ¬Conforms (step floats m op) := by
  intro h
  cases op with
  | declare schema =>
    refine ho fun hv vs hol => ?_
    rw [step,Manager.declare,hv] at h
    obtain ⟨found,hf,hft⟩ := h schema.application vs (by simp [hol])
    simp only [update_self,Option.some.injEq] at hf
    rwa [← hf] at hft
  | set app vs => exact ho trivial
  | reload app file => exact ho trivial

/-- The stored values fit the declared schemas exactly as long as no schema is declared that the
values its application already has do not fit. -/
theorem values_conform_iff (ops : List (Op F)) :
    (∀ before after, ops = before++after →
      Conforms (Runs.run (step floats) ⟨fun _ => none,fun _ => none⟩ before)) ↔
    Runs.Meets (step floats) Carries ⟨fun _ => none,fun _ => none⟩ ops :=
  Runs.always_iff_meets (step floats) Carries Conforms Conforms
    (fun m _ h ho => conforms_step floats m h ho) (fun _ h => h)
    (fun m _ _ ho => carries_breaks floats m ho) _ ops (fun _ _ h => nomatch h)

def declared (fieldType : FieldType) (default : Value Ratio) : Schema Ratio :=
  ⟨"plc","1",[⟨"port",fieldType,false,some default⟩]⟩

def redeclared : List (Op Ratio) :=
  [.declare (declared .string (.string "x")),.declare (declared .boolean (.boolean true))]

/-- The second schema makes the text a truth value, and the text stays. -/
theorem old_value_visible :
    ¬∀ before after, redeclared = before++after →
      Conforms (Runs.run (step ratios) ⟨fun _ => none,fun _ => none⟩ before) := by
  intro h
  obtain ⟨schema,hs,hf⟩ := h redeclared [] rfl "plc" (declared .string (.string "x")).defaults rfl
  obtain rfl := Option.some.inj hs
  obtain ⟨field,hm,_,hv⟩ := hf ("port",.string "x") (List.mem_singleton.mpr rfl)
  obtain rfl := List.mem_singleton.mp hm
  cases hv

end EMaster.ApplicationConfig
