import Mathlib.Data.List.Forall2
import AgentVerse.Core.Json

/-!
# Strict schemas

`to_strict_schema`: the schema of a tool's arguments is made strict node by node, through the `definitions` of the
root, the alternatives of `oneOf`, `anyOf` and `allOf`, single `items` and `properties`. What the conversion makes of
one node is `Strictified`, in terms of the keys of the node.
-/

namespace AgentVerse

inductive StrictSchemaError where
  /-- An object of arbitrary keys. -/
  | openDictionary (path : String)
  /-- An optional field that is a bare `$ref` or an `allOf`, without a null signal. -/
  | ambiguousOptionalRef (path : String)
  deriving DecidableEq

def StrictSchemaError.display : StrictSchemaError → String
  | openDictionary path =>
    "tool schema at '" ++ path ++ "' is an open dictionary (arbitrary-key object), " ++
      "which is incompatible with strict mode — use an array of \x7bkey, value\x7d pairs instead"
  | ambiguousOptionalRef path =>
    "tool schema at '" ++ path ++ "' is an optional $ref-typed field with no null " ++
      "signal — schemars produces this identical shape for both a genuine " ++
      "nullable Option<T> and a non-nullable #[serde(default)] field, so it " ++
      "can't be made strict without guessing. Use Option<T> without a " ++
      "#[serde(default)] override for genuine nullability."

/-! ### The conversion -/

/-- `additionalProperties` is a schema or `true`. -/
def isOpenDictionary (obj : JsonFields) : Bool :=
  match obj.get? "additionalProperties" with
  | some (.object _) | some (.bool true) => true
  | _ => false

/-- The strings among the entries of `required`. -/
def existingRequired (obj : JsonFields) : List String :=
  match obj.get? "required" with
  | some (.array names) => names.toList.filterMap Json.asStr
  | _ => []

/-- The strict envelope around the properties of a node. -/
def close (obj properties : JsonFields) : JsonFields :=
  ((obj.insert "properties" (.object properties)).insert "required" (.ofList (properties.keys.map .string))).insert
    "additionalProperties" (.bool false)

/-- Close a node: around its properties, or around none if it is of type "object". -/
def closeNode (obj : JsonFields) : Option JsonFields → JsonFields
  | some properties => close obj properties
  | none => if obj.get? "type" = some (.string "object") then close obj .nil else obj

/-- Some alternative of `anyOf` is `null`. -/
def alreadyNullable (obj : JsonFields) : Bool :=
  match obj.get? "anyOf" with
  | some (.array variants) => variants.toList.any fun v => v.field "type" = .string "null"
  | _ => false

def anyType : Json := .ofList (["string", "number", "object", "array", "boolean", "null"].map .string)

def ensureNullableOrReject (propSchema : Json) (path : String) : Except StrictSchemaError Json :=
  match propSchema with
  | .object obj =>
    if obj.contains "type" then .ok propSchema
    else if alreadyNullable obj then .ok propSchema
    else if obj.contains "$ref" || obj.contains "allOf" then .error (.ambiguousOptionalRef path)
    else .ok (.object (obj.insert "type" anyType))
  | _ => .ok propSchema

mutual

def strictifyNode (path : String) : Json → Except StrictSchemaError Json
  | .object obj =>
    if isOpenDictionary obj then .error (.openDictionary path)
    else do
      let oneOf ← strictifyVariants path "oneOf" obj
      let anyOf ← strictifyVariants path "anyOf" obj
      let allOf ← strictifyVariants path "allOf" obj
      let items ← strictifyItems path obj
      let properties ← strictifyProperties path (existingRequired obj) obj
      let obj := (((obj.update "oneOf" oneOf).update "anyOf" anyOf).update "allOf" allOf).update "items" items
      return .object (closeNode obj properties)
  | node => .ok node

/-- The array of alternatives of a node. -/
def strictifyVariants (path combinator : String) : JsonFields → Except StrictSchemaError (Option Json)
  | .nil => .ok none
  | .cons key value rest =>
    if key = combinator then
      match value with
      | .array variants => do
        let variants ← strictifyEach path combinator 0 variants
        return some (.array variants)
      | _ => .ok none
    else strictifyVariants path combinator rest

def strictifyEach (path combinator : String) (i : Nat) : JsonItems → Except StrictSchemaError JsonItems
  | .nil => .ok .nil
  | .cons variant rest => do
    let variant ← strictifyNode (path ++ "." ++ combinator ++ "[" ++ toString i ++ "]") variant
    let rest ← strictifyEach path combinator (i + 1) rest
    return .cons variant rest

def strictifyItems (path : String) : JsonFields → Except StrictSchemaError (Option Json)
  | .nil => .ok none
  | .cons key value rest =>
    if key = "items" then do
      let items ← strictifyNode (path ++ ".items") value
      return some items
    else strictifyItems path rest

/-- The properties of a node, if they are an object. -/
def strictifyProperties (path : String) (required : List String) :
    JsonFields → Except StrictSchemaError (Option JsonFields)
  | .nil => .ok none
  | .cons key value rest =>
    if key = "properties" then
      match value with
      | .object properties => do
        let properties ← strictifyEntries path required properties
        return some properties
      | _ => .ok none
    else strictifyProperties path required rest

/-- The loop over the properties of a node. -/
def strictifyEntries (path : String) (required : List String) : JsonFields → Except StrictSchemaError JsonFields
  | .nil => .ok .nil
  | .cons key propSchema rest => do
    let propSchema ← strictifyNode (path ++ "." ++ key) propSchema
    let propSchema ←
      (if required.contains key then .ok propSchema else ensureNullableOrReject propSchema (path ++ "." ++ key))
    let rest ← strictifyEntries path required rest
    return .cons key propSchema rest

end

/-- The loop over the definitions of the root. -/
def strictifyDefinitions : JsonFields → Except StrictSchemaError JsonFields
  | .nil => .ok .nil
  | .cons key definition rest => do
    let definition ← strictifyNode ("definitions." ++ key) definition
    let rest ← strictifyDefinitions rest
    return .cons key definition rest

/-- A schema whose definitions are strict. -/
def strictDefinitions (schema : Json) : Except StrictSchemaError Json :=
  match schema with
  | .object obj =>
    match obj.get? "definitions" with
    | some (.object definitions) => do
      let definitions ← strictifyDefinitions definitions
      return .object (obj.replace "definitions" (.object definitions))
    | _ => .ok schema
  | _ => .ok schema

def toStrictSchema (schema : Json) : Except StrictSchemaError Json := do
  let schema ← strictDefinitions schema
  strictifyNode "$" schema

/-- The definition of a tool that is offered to a model, from the schema of the tool. -/
def toolDefinition (schema : Json) : Except StrictSchemaError ToolDefinition := do
  let parameters ← toStrictSchema (schema.field "input_schema")
  return ⟨(schema.field "name").asStr.getD "", (schema.field "description").asStr.getD "", parameters⟩

theorem toolDefinition_ok {schema : Json} {definition : ToolDefinition} (h : toolDefinition schema = .ok definition) :
    toStrictSchema (schema.field "input_schema") = .ok definition.parameters := by
  obtain ⟨parameters, hparameters, hres⟩ := bind_ok h
  obtain rfl := Except.ok.inj hres
  exact hparameters

/-! ### What becomes of a node -/

/-- The conversion of a node succeeds with a result. -/
def Strict (v v' : Json) : Prop := ∃ path, strictifyNode path v = .ok v'

/-- An array is made strict element by element. -/
def StrictVariants (v v' : Json) : Prop :=
  match v with
  | .array variants => ∃ variants', v' = .array variants' ∧ List.Forall₂ Strict variants.toList variants'.toList
  | _ => v' = v

/-- The schema of an optional property, after the node itself was made strict. -/
def Nullable (v v' : Json) : Prop := ∃ path, ensureNullableOrReject v path = .ok v'

def StrictEntry (required : List String) (e e' : String × Json) : Prop :=
  e'.1 = e.1 ∧ ∃ v, Strict e.2 v ∧ if required.contains e.1 then e'.2 = v else Nullable v e'.2

/-- The properties of a node. -/
def JsonFields.properties (obj : JsonFields) : JsonFields :=
  match obj.get? "properties" with
  | some (.object properties) => properties
  | _ => .nil

/-- A node has a map of properties, or none of them. -/
theorem JsonFields.properties_cases (obj : JsonFields) :
    obj.get? "properties" = some (.object obj.properties) ∨
      (∀ p, obj.get? "properties" ≠ some (.object p)) ∧ obj.properties = .nil := by
  unfold JsonFields.properties
  split
  · rename_i hget
    exact .inl hget
  · rename_i hno
    exact .inr ⟨hno, rfl⟩

/-- A node that the conversion closes. -/
def JsonFields.closes (obj : JsonFields) : Bool :=
  match obj.get? "properties" with
  | some (.object _) => true
  | _ => obj.get? "type" = some (.string "object")

def combinators : List String := ["oneOf", "anyOf", "allOf"]

def envelope : List String := ["properties", "required", "additionalProperties"]

/-- What the conversion makes of an object, key by key. -/
structure Strictified (obj obj' : JsonFields) : Prop where
  dictionary : isOpenDictionary obj = false
  variants : ∀ c ∈ combinators, Option.Rel StrictVariants (obj.get? c) (obj'.get? c)
  items : Option.Rel Strict (obj.get? "items") (obj'.get? "items")
  closed : obj.closes = true → ∃ properties,
    List.Forall₂ (StrictEntry (existingRequired obj)) obj.properties.toList properties.toList ∧
    obj'.get? "properties" = some (.object properties) ∧
    obj'.get? "required" = some (.ofList (properties.keys.map .string)) ∧
    obj'.get? "additionalProperties" = some (.bool false)
  left : ∀ k, k ∉ combinators → k ≠ "items" → (obj.closes = true → k ∉ envelope) → obj'.get? k = obj.get? k

theorem strictifyVariants_eq (path c : String) (obj : JsonFields) :
    strictifyVariants path c obj =
      match obj.get? c with
      | some (.array variants) => do
        let variants ← strictifyEach path c 0 variants
        return some (.array variants)
      | _ => .ok none := by
  induction obj with
  | nil => rfl
  | cons key value rest ih =>
    unfold strictifyVariants JsonFields.get?
    by_cases hkey : key = c
    · rw [if_pos hkey, if_pos hkey]
      cases value <;> rfl
    · rw [if_neg hkey, if_neg hkey, ih]

theorem strictifyItems_eq (path : String) (obj : JsonFields) :
    strictifyItems path obj =
      match obj.get? "items" with
      | some v => do
        let items ← strictifyNode (path ++ ".items") v
        return some items
      | none => .ok none := by
  induction obj with
  | nil => rfl
  | cons key value rest ih =>
    unfold strictifyItems JsonFields.get?
    by_cases hkey : key = "items"
    · rw [if_pos hkey, if_pos hkey]
    · rw [if_neg hkey, if_neg hkey, ih]

theorem strictifyProperties_eq (path : String) (required : List String) (obj : JsonFields) :
    strictifyProperties path required obj =
      match obj.get? "properties" with
      | some (.object properties) => do
        let properties ← strictifyEntries path required properties
        return some properties
      | _ => .ok none := by
  induction obj with
  | nil => rfl
  | cons key value rest ih =>
    unfold strictifyProperties JsonFields.get?
    by_cases hkey : key = "properties"
    · rw [if_pos hkey, if_pos hkey]
      cases value <;> rfl
    · rw [if_neg hkey, if_neg hkey, ih]

theorem strictifyEach_ok {path c : String} {i : Nat} {variants variants' : JsonItems}
    (h : strictifyEach path c i variants = .ok variants') :
    List.Forall₂ Strict variants.toList variants'.toList := by
  induction variants generalizing i variants' with
  | nil =>
    obtain rfl := Except.ok.inj h
    exact .nil
  | cons variant rest ih =>
    obtain ⟨v, hv, hres⟩ := bind_ok h
    obtain ⟨vs, hvs, hres⟩ := bind_ok hres
    obtain rfl := Except.ok.inj hres
    exact .cons ⟨_, hv⟩ (ih hvs)

theorem strictifyEntries_ok {path : String} {required : List String} {properties properties' : JsonFields}
    (h : strictifyEntries path required properties = .ok properties') :
    List.Forall₂ (StrictEntry required) properties.toList properties'.toList := by
  induction properties generalizing properties' with
  | nil =>
    obtain rfl := Except.ok.inj h
    exact .nil
  | cons key v rest ih =>
    obtain ⟨w, hw, hres⟩ := bind_ok h
    obtain ⟨w', hw', hres⟩ := bind_ok hres
    obtain ⟨rest', hrest, hres⟩ := bind_ok hres
    obtain rfl := Except.ok.inj hres
    refine .cons ⟨rfl, w, ⟨_, hw⟩, ?_⟩ (ih hrest)
    split at hw'
    · rw [if_pos ‹_›]
      exact (Except.ok.inj hw').symm
    · rw [if_neg ‹_›]
      exact ⟨_, hw'⟩

/-- The combinators, `items` and the envelope are different keys. -/
private theorem combinators_ne {c : String} (h : c ∈ combinators) : c ≠ "items" ∧ c ∉ envelope := by
  simp only [combinators, List.mem_cons, List.not_mem_nil, or_false] at h
  rcases h with rfl | rfl | rfl <;> decide

theorem get?_close_of_notMem {obj properties : JsonFields} {k : String} (h : k ∉ envelope) :
    (close obj properties).get? k = obj.get? k := by
  simp only [envelope, List.mem_cons, List.not_mem_nil, or_false, not_or] at h
  rw [close, JsonFields.get?_insert_of_ne h.2.2, JsonFields.get?_insert_of_ne h.2.1, JsonFields.get?_insert_of_ne h.1]

theorem get?_close (obj properties : JsonFields) :
    (close obj properties).get? "properties" = some (.object properties) ∧
    (close obj properties).get? "required" = some (.ofList (properties.keys.map .string)) ∧
    (close obj properties).get? "additionalProperties" = some (.bool false) := by
  refine ⟨?_, ?_, ?_⟩
  · rw [close, JsonFields.get?_insert_of_ne (by decide), JsonFields.get?_insert_of_ne (by decide),
      JsonFields.get?_insert_self]
  · rw [close, JsonFields.get?_insert_of_ne (by decide), JsonFields.get?_insert_self]
  · rw [close, JsonFields.get?_insert_self]

/-- Replacing the alternatives of a node. -/
private theorem variants_update {path c : String} {obj : JsonFields} {new : Option Json}
    (h : strictifyVariants path c obj = .ok new) :
    Option.Rel StrictVariants (obj.get? c) ((obj.update c new).get? c) := by
  rw [strictifyVariants_eq] at h
  split at h
  · rename_i variants hc
    obtain ⟨variants', hvariants, hres⟩ := bind_ok h
    obtain rfl := Except.ok.inj hres
    have hcontains : obj.contains c = true := by rw [JsonFields.contains, hc, Option.isSome_some]
    rw [hc, JsonFields.update, JsonFields.get?_replace_self hcontains]
    exact .some ⟨variants', rfl, strictifyEach_ok hvariants⟩
  · rename_i hc
    obtain rfl := Except.ok.inj h
    rw [JsonFields.update]
    cases hv : obj.get? c with
    | none => exact .none
    | some v =>
      refine .some ?_
      cases v with
      | array variants => exact absurd hv (hc variants)
      | _ => rfl

private theorem items_update {path : String} {obj : JsonFields} {new : Option Json}
    (h : strictifyItems path obj = .ok new) :
    Option.Rel Strict (obj.get? "items") ((obj.update "items" new).get? "items") := by
  rw [strictifyItems_eq] at h
  split at h
  · rename_i v hv
    obtain ⟨v', hv', hres⟩ := bind_ok h
    obtain rfl := Except.ok.inj hres
    have hcontains : obj.contains "items" = true := by rw [JsonFields.contains, hv, Option.isSome_some]
    rw [hv, JsonFields.update, JsonFields.get?_replace_self hcontains]
    exact .some ⟨_, hv'⟩
  · rename_i hv
    obtain rfl := Except.ok.inj h
    rw [JsonFields.update, hv]
    exact .none

/-- The steps of the conversion of an object. -/
theorem strictifyNode_object {path : String} {obj : JsonFields} {v' : Json}
    (h : strictifyNode path (.object obj) = .ok v') :
    ∃ oneOf anyOf allOf items properties,
      isOpenDictionary obj = false ∧ strictifyVariants path "oneOf" obj = .ok oneOf ∧
      strictifyVariants path "anyOf" obj = .ok anyOf ∧ strictifyVariants path "allOf" obj = .ok allOf ∧
      strictifyItems path obj = .ok items ∧
      strictifyProperties path (existingRequired obj) obj = .ok properties ∧
      v' = .object (closeNode ((((obj.update "oneOf" oneOf).update "anyOf" anyOf).update "allOf" allOf).update
        "items" items) properties) := by
  unfold strictifyNode at h
  split at h
  · cases h
  · obtain ⟨oneOf, hone, hres⟩ := bind_ok h
    obtain ⟨anyOf, hany, hres⟩ := bind_ok hres
    obtain ⟨allOf, hall, hres⟩ := bind_ok hres
    obtain ⟨items, hitems, hres⟩ := bind_ok hres
    obtain ⟨properties, hproperties, hres⟩ := bind_ok hres
    exact ⟨oneOf, anyOf, allOf, items, properties, Bool.eq_false_iff.mpr ‹_›, hone, hany, hall, hitems, hproperties,
      (Except.ok.inj hres).symm⟩

/-- Whether the conversion closes a node, and around which properties. -/
private theorem closeNode_cases {path : String} {obj new : JsonFields} {properties : Option JsonFields}
    (h : strictifyProperties path (existingRequired obj) obj = .ok properties)
    (htype : new.get? "type" = obj.get? "type") :
    (obj.closes = true ∧ ∃ properties', closeNode new properties = close new properties' ∧
      List.Forall₂ (StrictEntry (existingRequired obj)) obj.properties.toList properties'.toList) ∨
    (obj.closes = false ∧ closeNode new properties = new) := by
  rw [strictifyProperties_eq] at h
  unfold JsonFields.closes JsonFields.properties
  split at h
  · rename_i p hp
    obtain ⟨p', hp', hres⟩ := bind_ok h
    obtain rfl := Except.ok.inj hres
    exact .inl ⟨rfl, p', rfl, strictifyEntries_ok hp'⟩
  · rename_i hp
    obtain rfl := Except.ok.inj h
    by_cases hobject : obj.get? "type" = some (.string "object")
    · exact .inl ⟨decide_eq_true hobject, .nil, by rw [closeNode, htype, if_pos hobject], .nil⟩
    · exact .inr ⟨decide_eq_false hobject, by rw [closeNode, htype, if_neg hobject]⟩

/-- What the conversion makes of an object. -/
theorem strict_object {obj : JsonFields} {v' : Json} (h : Strict (.object obj) v') :
    ∃ obj', v' = .object obj' ∧ Strictified obj obj' := by
  obtain ⟨path, h⟩ := h
  obtain ⟨oneOf, anyOf, allOf, items, properties, hdictionary, hone, hany, hall, hitems, hproperties, rfl⟩ :=
    strictifyNode_object h
  -- `new` is the object before its properties are closed; each update leaves the other keywords alone.
  generalize hbefore :
    (((obj.update "oneOf" oneOf).update "anyOf" anyOf).update "allOf" allOf).update "items" items = new
  have hother : ∀ k, k ∉ combinators → k ≠ "items" → new.get? k = obj.get? k := by
    intro k hk hitems
    simp only [combinators, List.mem_cons, List.not_mem_nil, or_false, not_or] at hk
    rw [← hbefore, JsonFields.get?_update_of_ne hitems, JsonFields.get?_update_of_ne hk.2.2,
      JsonFields.get?_update_of_ne hk.2.1, JsonFields.get?_update_of_ne hk.1]
  have hvariants : ∀ c ∈ combinators, Option.Rel StrictVariants (obj.get? c) (new.get? c) := by
    intro c hc
    simp only [combinators, List.mem_cons, List.not_mem_nil, or_false] at hc
    rw [← hbefore]
    rcases hc with rfl | rfl | rfl
    · rw [JsonFields.get?_update_of_ne (by decide), JsonFields.get?_update_of_ne (by decide),
        JsonFields.get?_update_of_ne (by decide)]
      exact variants_update hone
    · rw [JsonFields.get?_update_of_ne (by decide), JsonFields.get?_update_of_ne (by decide)]
      have hone' : (obj.update "oneOf" oneOf).get? "anyOf" = obj.get? "anyOf" :=
        JsonFields.get?_update_of_ne (by decide)
      rw [← hone']
      refine variants_update (?_ : strictifyVariants path "anyOf" _ = .ok anyOf)
      rw [strictifyVariants_eq, hone', ← strictifyVariants_eq, hany]
    · rw [JsonFields.get?_update_of_ne (by decide)]
      have hboth : ((obj.update "oneOf" oneOf).update "anyOf" anyOf).get? "allOf" = obj.get? "allOf" := by
        rw [JsonFields.get?_update_of_ne (by decide), JsonFields.get?_update_of_ne (by decide)]
      rw [← hboth]
      refine variants_update (?_ : strictifyVariants path "allOf" _ = .ok allOf)
      rw [strictifyVariants_eq, hboth, ← strictifyVariants_eq, hall]
  have hsingle : Option.Rel Strict (obj.get? "items") (new.get? "items") := by
    have hthree : (((obj.update "oneOf" oneOf).update "anyOf" anyOf).update "allOf" allOf).get? "items" =
        obj.get? "items" := by
      rw [JsonFields.get?_update_of_ne (by decide), JsonFields.get?_update_of_ne (by decide),
        JsonFields.get?_update_of_ne (by decide)]
    rw [← hbefore, ← hthree]
    refine items_update (?_ : strictifyItems path _ = .ok items)
    rw [strictifyItems_eq, hthree, ← strictifyItems_eq, hitems]
  refine ⟨_, rfl, ?_⟩
  rcases closeNode_cases hproperties (hother "type" (by decide) (by decide)) with
    ⟨hcloses, properties', heq, hentries⟩ | ⟨hcloses, heq⟩
  · rw [heq]
    obtain ⟨hprops, hrequired, hadditional⟩ := get?_close new properties'
    refine ⟨hdictionary, fun c hc => ?_, ?_, fun _ => ⟨properties', hentries, hprops, hrequired, hadditional⟩,
      fun k hk hitems henvelope => ?_⟩
    · rw [get?_close_of_notMem (combinators_ne hc).2]
      exact hvariants c hc
    · rw [get?_close_of_notMem (by decide)]
      exact hsingle
    · rw [get?_close_of_notMem (henvelope hcloses), hother k hk hitems]
  · rw [heq]
    refine ⟨hdictionary, hvariants, hsingle, fun h => ?_, fun k hk hitems _ => hother k hk hitems⟩
    rw [hcloses] at h
    cases h

/-- A node that is no object is left alone. -/
theorem strict_other {v v' : Json} (hv : ∀ obj, v ≠ .object obj) (h : Strict v v') : v' = v := by
  obtain ⟨path, h⟩ := h
  cases v with
  | object obj => exact absurd rfl (hv obj)
  | _ => exact (Except.ok.inj h).symm

/-- An optional property is left alone, or it is an object without a type that is now of any type. -/
theorem nullable_cases {v v' : Json} (h : Nullable v v') :
    v' = v ∨ ∃ obj, v = .object obj ∧ obj.contains "type" = false ∧ v' = .object (obj.insert "type" anyType) := by
  obtain ⟨path, h⟩ := h
  unfold ensureNullableOrReject at h
  cases v with
  | object obj =>
    simp only at h
    split at h
    · exact .inl (Except.ok.inj h).symm
    · rename_i htype
      split at h
      · exact .inl (Except.ok.inj h).symm
      · split at h
        · cases h
        · exact .inr ⟨obj, rfl, Bool.eq_false_iff.mpr htype, (Except.ok.inj h).symm⟩
  | _ => exact .inl (Except.ok.inj h).symm

end AgentVerse
