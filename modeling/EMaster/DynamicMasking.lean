import EMaster.DynamicConfig
import Mathlib.Data.List.Forall2

/-!
# What a masked read tells of the secrets

Two documents are alike where they differ in declared secrets only, at whatever depth. The masked
read walks the fields and groups of the schema and never the items of an array group.
-/

set_option autoImplicit false

namespace EMaster.DynamicConfig
open List

def setMember (key : Text) (v : Json) : Json → Json
  | .obj members => .obj (members.map fun member => if member.1 = key then (key,v) else member)
  | other => other

def maskFields : List Json → Json → Option Json
  | [], result => some result
  | field::rest, result => do
    if ← isSecret field then
      let key ← keyOf field
      maskFields rest (if (result.field key).isSome then setMember key kMasked result else result)
    else maskFields rest result

/-- The values of a project as they are read, nothing where the library throws. -/
def readValues (codec : Json.Codec) (db : Database) (m : Manager) (project : Text)
    (maskSecrets : Bool) : Option Json :=
  let m := loadProject codec db m project
  match m.values project with
  | none => some .null
  | some result =>
    if maskSecrets then maskFields (collectFields ((m.schemas project).getD .null)) result
    else some result

/-! ## Documents that differ in secrets -/

def SecretKey (schema : Json) (key : Text) : Prop :=
  ∃ field ∈ collectFields schema, isSecret field = some true ∧ keyOf field = some key

def ArrayGroup (schema field : Json) (key : Text) : Prop :=
  field ∈ collectFields schema ∧ keyOf field = some key ∧
    value Json.asText field "type" "string".toList = some "array_group".toList

/-- Two values under a key of an object, where `inner` says when two items are alike. -/
inductive AlikeMember (inner : Json → Json → Json → Prop) (schema : Json) (key : Text) :
    Json → Json → Prop
  | same (v : Json) : AlikeMember inner schema key v v
  | secret (v w : Json) (h : SecretKey schema key) : AlikeMember inner schema key v w
  | items (field : Json) (vs ws : List Json) (h : ArrayGroup schema field key)
      (hitems : List.Forall₂ (inner (itemSchema field)) vs ws) :
      AlikeMember inner schema key (.arr vs) (.arr ws)

/-- Documents that differ in declared secrets only, at most that many array groups deep. -/
def AlikeAt : ℕ → Json → Json → Json → Prop
  | 0, _, v, w => v = w
  | depth+1, schema, v, w => v = w ∨ ∃ xs ys, v = .obj xs ∧ w = .obj ys ∧
      List.Forall₂ (fun x y => x.1 = y.1 ∧ AlikeMember (AlikeAt depth) schema x.1 x.2 y.2) xs ys

def Alike (schema v w : Json) : Prop := ∃ depth, AlikeAt depth schema v w

/-- A secret is declared, by a field or inside the items of an array group. -/
inductive DeclaresSecret : Json → Prop
  | here (schema : Json) (key : Text) (h : SecretKey schema key) : DeclaresSecret schema
  | inside (schema field : Json) (key : Text) (h : ArrayGroup schema field key)
      (hitem : DeclaresSecret (itemSchema field)) : DeclaresSecret schema

theorem forall₂_eq {α : Type} (R : α → α → Prop) (h : ∀ x y, R x y → x = y) (xs ys : List α)
    (ha : List.Forall₂ R xs ys) : xs = ys :=
  forall₂_eq_eq_eq ▸ ha.imp h

theorem alike_at_same (depth : ℕ) (schema v w : Json) (hn : ¬DeclaresSecret schema)
    (h : AlikeAt depth schema v w) : v = w := by
  induction depth generalizing schema v w with
  | zero => exact h
  | succ depth ih =>
    rcases h with rfl | ⟨xs,ys,rfl,rfl,ha⟩
    · rfl
    · congr 1
      refine forall₂_eq _ ?_ xs ys ha
      rintro ⟨key,x⟩ ⟨_,y⟩ ⟨rfl,hm⟩
      cases hm with
      | same => rfl
      | secret _ _ hs => exact absurd (.here schema key hs) hn
      | items field vs ws hg hit =>
        have hi : ¬DeclaresSecret (itemSchema field) :=
          fun hi => hn (.inside schema field key hg hi)
        rw [forall₂_eq _ (fun a b => ih (itemSchema field) a b hi) vs ws hit]

variable {schema : Json}

theorem alike_differ (h : DeclaresSecret schema) :
    ∃ depth v w, AlikeAt depth schema v w ∧ v ≠ w := by
  induction h with
  | here schema key hs =>
    refine ⟨1,.obj [(key,.bool false)],.obj [(key,.bool true)],.inr ⟨_,_,rfl,rfl,?_⟩,by simp⟩
    exact .cons ⟨rfl,.secret _ _ hs⟩ .nil
  | inside schema field key hg _ ih =>
    obtain ⟨depth,v,w,ha,hd⟩ := ih
    refine ⟨depth+1,.obj [(key,.arr [v])],.obj [(key,.arr [w])],.inr ⟨_,_,rfl,rfl,?_⟩,
      by simpa using hd⟩
    exact .cons ⟨rfl,.items field [v] [w] hg (.cons ha .nil)⟩ .nil

/-! ## What masking hides -/

def maskedKeys : List Json → Option (List Text)
  | [] => some []
  | field::rest => do
    if ← isSecret field then
      let key ← keyOf field
      (maskedKeys rest).map (key::·)
    else maskedKeys rest

def hide (keys : List Text) (members : List (Text×Json)) : List (Text×Json) :=
  members.map fun member => if member.1 ∈ keys then (member.1,kMasked) else member

variable (key : Text)

theorem hide_cons (keys : List Text) (members : List (Text×Json)) :
    hide keys (hide [key] members) = hide (key::keys) members := by
  simp only [hide,map_map]
  apply map_congr_left
  intro member _
  by_cases hky : member.1 = key <;> by_cases hk : member.1 ∈ keys <;> simp [Function.comp,hky,hk]

theorem set_member_hides (members : List (Text×Json)) :
    (if ((Json.obj members).field key).isSome then setMember key kMasked (.obj members)
      else .obj members) = .obj (hide [key] members) := by
  by_cases hs : ((Json.obj members).field key).isSome
  · rw [if_pos hs,setMember,hide]
    congr 1
    apply map_congr_left
    intro member _
    by_cases hk : member.1 = key <;> simp [hk]
  · have hn : ∀ v, (key,v) ∉ members := by simpa [Json.field] using hs
    rw [if_neg hs,hide]
    congr 1
    refine ((map_congr_left fun member hm => ?_).trans (map_id members)).symm
    have ho : member.1 ≠ key := fun hk => hn member.2 (hk ▸ hm)
    simp [ho]

theorem mask_fields_object (fields : List Json) (members : List (Text×Json)) :
    maskFields fields (.obj members) =
      (maskedKeys fields).map fun keys => .obj (hide keys members) := by
  induction fields generalizing members with
  | nil => simp [maskFields,maskedKeys,hide]
  | cons field rest ih =>
    rw [maskFields,maskedKeys]
    cases isSecret field with
    | none => rfl
    | some secret =>
      cases secret with
      | false => exact ih members
      | true =>
        cases keyOf field with
        | none => rfl
        | some key =>
          show maskFields rest _ = Option.map _ ((maskedKeys rest).map _)
          rw [set_member_hides,ih,Option.map_map]
          simp only [Function.comp_def,hide_cons]

theorem mem_masked_keys (fields : List Json) (keys : List Text) (key : Text)
    (h : maskedKeys fields = some keys) :
    key ∈ keys ↔ ∃ field ∈ fields, isSecret field = some true ∧ keyOf field = some key := by
  induction fields generalizing keys with
  | nil => simp [← Option.some.inj h]
  | cons field rest ih =>
    rw [maskedKeys] at h
    cases hs : isSecret field with
    | none => simp [hs] at h
    | some secret =>
      cases secret with
      | false => simp [hs, ih keys (by simpa [hs] using h)]
      | true =>
        cases hk : keyOf field with
        | none => simp [hs,hk] at h
        | some own =>
          simp only [hs,hk] at h
          obtain ⟨others,hr,rfl⟩ := Option.map_eq_some_iff.mp h
          simp [hs,hk,ih others hr,eq_comm]

theorem hide_same {keys : List Text} {xs ys : List (Text×Json)}
    (h : List.Forall₂ (fun x y => x.1 = y.1 ∧ (x.2 = y.2 ∨ x.1 ∈ keys)) xs ys) :
    hide keys xs = hide keys ys := by
  induction h with
  | nil => rfl
  | @cons x y xs ys hxy _ ih =>
    simp only [hide,map_cons] at ih ⊢
    rw [ih]
    congr 1
    obtain ⟨key,v⟩ := x
    obtain ⟨_,w⟩ := y
    obtain ⟨rfl,rfl | hk⟩ := hxy
    · rfl
    · simp [show key ∈ keys from hk]

/-- The project has this schema and these values, in memory or read from the database. -/
def Holds (codec : Json.Codec) (db : Database) (m : Manager) (project : Text)
    (schema v : Json) : Prop :=
  (loadProject codec db m project).schemas project = some schema ∧
    (loadProject codec db m project).values project = some v

variable {v : Json}

theorem read_masked {codec : Json.Codec} {db : Database} {m : Manager} {project : Text}
    (h : Holds codec db m project schema v) :
    readValues codec db m project true = maskFields (collectFields schema) v := by
  simp only [readValues,h.1,h.2,if_true,Option.getD_some]

/-- No array group shows secrets that its items hold: each is a secret itself or its items declare
none. -/
def Covered (schema : Json) : Prop :=
  ∀ field key, ArrayGroup schema field key →
    SecretKey schema key ∨ ¬DeclaresSecret (itemSchema field)

theorem mask_alike {w : Json} (h : Alike schema v w)
    (hc : maskedKeys (collectFields schema) = none ∨ Covered schema) :
    maskFields (collectFields schema) v = maskFields (collectFields schema) w := by
  obtain ⟨depth,h⟩ := h
  cases depth with
  | zero => rw [show v = w from h]
  | succ depth =>
    rcases h with rfl | ⟨xs,ys,rfl,rfl,ha⟩
    · rfl
    · rw [mask_fields_object,mask_fields_object]
      cases hk : maskedKeys (collectFields schema) with
      | none => rfl
      | some keys =>
        have hcv := hc.resolve_left (by simp [hk])
        rw [Option.map_some,Option.map_some,hide_same (ha.imp ?_)]
        rintro ⟨key,x⟩ ⟨_,y⟩ ⟨rfl,hm⟩
        refine ⟨rfl,?_⟩
        have hs := mem_masked_keys _ keys key hk
        cases hm with
        | same => exact .inl rfl
        | secret _ _ h => exact .inr (hs.mpr h)
        | items field vs ws hg hi =>
          rcases hcv field key hg with h | hn
          · exact .inr (hs.mpr h)
          · have heq := forall₂_eq _ (fun a b => alike_at_same depth _ a b hn) vs ws hi
            exact .inl (congrArg Json.arr heq)

/-- Masked reads of documents that differ in declared secrets are the same for exactly the schemas
that a read throws on or that keep no secret in the items of an array group that is shown. -/
theorem masked_reads_alike_iff (codec : Json.Codec) (db : Database) (project : Text)
    (schema : Json) :
    (∀ m n v w, Holds codec db m project schema v → Holds codec db n project schema w →
      Alike schema v w → readValues codec db m project true = readValues codec db n project true) ↔
    maskedKeys (collectFields schema) = none ∨ Covered schema := by
  constructor
  · intro hr
    cases hk : maskedKeys (collectFields schema) with
    | none => exact .inl rfl
    | some keys =>
      right
      intro field key hg
      by_contra ho
      rw [not_or,not_not] at ho
      obtain ⟨depth,v,w,ha,hd⟩ := alike_differ ho.2
      have hsh : key ∉ keys := fun hky => ho.1 ((mem_masked_keys _ keys key hk).mp hky)
      let held (item : Json) : Manager :=
        ⟨fun _ => some schema,fun _ => some (.obj [(key,.arr [item])]),fun _ => none⟩
      have hh (item : Json) : Holds codec db (held item) project schema
          (.obj [(key,.arr [item])]) := by
        simp [Holds,loadProject,held]
      have hs := hr (held v) (held w) _ _ (hh v) (hh w) ⟨depth+1,.inr ⟨_,_,rfl,rfl,
        .cons ⟨rfl,.items field [v] [w] hg (.cons ha .nil)⟩ .nil⟩⟩
      rw [read_masked (hh v),
        read_masked (hh w),mask_fields_object,mask_fields_object,
        hk] at hs
      simp [hide,hsh] at hs
      exact hd hs
  · intro hc m n v w hm hn ha
    rw [read_masked hm,read_masked hn]
    exact mask_alike ha hc

def pinField : Json :=
  .obj [("key",.str "pin"),("type",.str "password")]

def accountsField : Json :=
  .obj [("key",.str "accounts"),("type",.str "array_group"),
    ("item_schema",flatSchema [pinField])]

def accounts (pin : String) : Json :=
  .obj [("accounts",.arr [.obj [("pin",.str pin.toList)]])]

def accountsHeld (pin : String) : Manager :=
  ⟨fun _ => some (flatSchema [accountsField]),fun _ => some (accounts pin),fun _ => none⟩

def readAccounts (pin : String) : Option Json :=
  readValues ⟨fun _ => .error [],fun _ => .error [],fun _ => []⟩ ⟨true,true,true⟩
    (accountsHeld pin) [] true

theorem accounts_alike (pin o : String) :
    Alike (flatSchema [accountsField]) (accounts pin) (accounts o) := by
  have hg : ArrayGroup (flatSchema [accountsField]) accountsField "accounts" := by
    rw [ArrayGroup,flat_schema_fields]
    exact ⟨mem_singleton_self _,rfl,rfl⟩
  have hs : SecretKey (flatSchema [pinField]) "pin" := by
    rw [SecretKey,flat_schema_fields]
    exact ⟨pinField,mem_singleton_self _,rfl,rfl⟩
  exact ⟨2,.inr ⟨_,_,rfl,rfl,.cons ⟨rfl,.items accountsField _ _ hg
    (.cons (.inr ⟨_,_,rfl,rfl,.cons ⟨rfl,.secret _ _ hs⟩ .nil⟩) .nil)⟩ .nil⟩⟩

/-- Two documents that differ in a password of an item are read as they are. -/
theorem item_password_shown :
    Alike (flatSchema [accountsField]) (accounts "1234") (accounts "9999") ∧
      readAccounts "1234" = some (accounts "1234") ∧ readAccounts "9999" = some (accounts "9999") ∧
      accounts "1234" ≠ accounts "9999" := by
  have hr (pin : String) : readAccounts pin = some (accounts pin) := by
    show maskFields (collectFields (flatSchema [accountsField])) (accounts pin) = _
    rw [flat_schema_fields]
    rfl
  exact ⟨accounts_alike _ _,hr _,hr _,by simp [accounts]⟩

end EMaster.DynamicConfig
