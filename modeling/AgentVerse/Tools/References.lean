import AgentVerse.Tools.Locations

/-!
# References in a schema document

A `$ref` is local if it is empty or a fragment. The fragment is percent-encoded UTF-8; decoded, it is a JSON pointer or
a plain name. A pointer starts at the schema of the resource that the `$ref` is in, and a name stands for the schema of
that resource that has it as its `$anchor`, or behind a `#` as its `$id`. The conversion leaves `$id` and `$anchor`
alone, so that a `$ref` refers to the same location of the document and of the result (`refers_iff`).
-/

namespace AgentVerse

/-! ### Fragments -/

def hexDigit (c : Char) : Option Nat :=
  if '0' ≤ c ∧ c ≤ '9' then some (c.toNat - '0'.toNat)
  else if 'a' ≤ c ∧ c ≤ 'f' then some (c.toNat - 'a'.toNat + 10)
  else if 'A' ≤ c ∧ c ≤ 'F' then some (c.toNat - 'A'.toNat + 10)
  else none

/-- The bytes of a percent-encoded text. -/
def percentBytes : List Char → Option (List UInt8)
  | [] => some []
  | '%' :: a :: b :: l => do
    let high ← hexDigit a
    let low ← hexDigit b
    let bytes ← percentBytes l
    return UInt8.ofNat (16 * high + low) :: bytes
  | '%' :: _ => none
  | c :: l => do
    let bytes ← percentBytes l
    return String.utf8EncodeChar c ++ bytes

def percentDecode (text : List Char) : Option String :=
  (percentBytes text).bind fun bytes => String.fromUTF8? ⟨bytes.toArray⟩

/-- The fragment of a local reference, decoded. -/
def fragmentOf (ref : String) : Option String :=
  match ref.toList with
  | [] => some ""
  | '#' :: l => percentDecode l
  | _ => none

/-- `~1` and `~0` in a token. -/
def unescape : List Char → List Char
  | '~' :: '1' :: l => '/' :: unescape l
  | '~' :: '0' :: l => '~' :: unescape l
  | c :: l => c :: unescape l
  | [] => []

/-- The tokens of a fragment that is a JSON pointer. -/
def pointerTokens (fragment : String) : Option (List String) :=
  match fragment.toList with
  | [] => some []
  | '/' :: l => some ((l.splitOn '/').map fun token => .ofList (unescape token))
  | _ => none

/-- The location of a local `$ref` that is a JSON pointer, in a document that is one resource. -/
def refTarget (ref : String) : Option (List String) := (fragmentOf ref).bind pointerTokens

example : refTarget "#/$defs/a%20b~1%C3%A9" = some ["$defs", "a b/é"] := by decide +kernel

/-! ### Identified schemas -/

/-- Keywords whose value is a schema. -/
def schemaKeywords : List String :=
  ["items", "additionalItems", "contains", "additionalProperties", "propertyNames", "not", "if", "then", "else"]

/-- Keywords whose value is a map or a list of schemas. -/
def schemaCollections : List String :=
  ["properties", "patternProperties", "definitions", "$defs", "dependencies", "items"] ++ combinators

/-- The locations at which a schema document has schemas. -/
def schemaPath : List String → Bool
  | [] => true
  | [keyword] => schemaKeywords.contains keyword
  | keyword :: token :: pointer =>
    schemaKeywords.contains keyword && schemaPath (token :: pointer) ||
      schemaCollections.contains keyword && schemaPath pointer

/-- A schema of a document. -/
def SchemaAt (s : Json) (pointer : List String) (obj : JsonFields) : Prop :=
  schemaPath pointer = true ∧ ∃ place : Place, place.isNode = true ∧ locate .root s pointer = some (place, .object obj)

/-- The schema is a resource of its own: its `$id` is more than a fragment. -/
def JsonFields.embeds (obj : JsonFields) : Bool :=
  match obj.get? "$id" with
  | some (.string id) => id.toList.head?.any (· != '#')
  | _ => false

/-- The schema has a plain name. -/
def JsonFields.hasName (obj : JsonFields) (name : String) : Bool :=
  obj.get? "$anchor" = some (.string name) ||
    match obj.get? "$id" with
    | some (.string id) => fragmentOf id = some name
    | _ => false

def EmbedsAt (s : Json) (pointer : List String) : Prop := ∃ obj, SchemaAt s pointer obj ∧ obj.embeds = true

/-- The resource that a location is in starts at the innermost schema around it that is one, or at the root. -/
structure InResource (s : Json) (pointer base : List String) : Prop where
  around : base <+: pointer
  starts : base = [] ∨ EmbedsAt s base
  innermost : ∀ other, other <+: pointer → EmbedsAt s other → other.length ≤ base.length

/-- The schema at a location of a resource has a plain name. -/
def NamedAt (s : Json) (base pointer : List String) (name : String) : Prop :=
  InResource s pointer base ∧ ∃ obj, SchemaAt s pointer obj ∧ obj.hasName name = true

/-- A local `$ref` at a location refers to another. -/
def Refers (s : Json) (pointer : List String) (ref : String) (target : List String) : Prop :=
  ∃ fragment base, fragmentOf ref = some fragment ∧ InResource s pointer base ∧
    match pointerTokens fragment with
    | some tokens => target = base ++ tokens
    | none => NamedAt s base target fragment

/-! ### The result -/

/-- A node of the result is the image of an object, or it is no object and left alone. -/
theorem node_image {place : Place} {v v' : Json} (hnode : place.isNode = true) (h : Image place v v') :
    (v.isObject = false ∧ v' = v) ∨ ∃ obj obj', v = .object obj ∧ v' = .object obj' ∧
      (((place = .root ∨ place = .schema) ∧ Imaged obj obj') ∨ (place = .other ∧ obj' = obj)) := by
  cases hv : v.isObject with
  | false =>
    refine .inl ⟨rfl, ?_⟩
    cases place with
    | root => exact toStrictSchema_other hv h
    | schema => exact schemaImage_other hv h
    | other => exact h
    | _ => cases hnode
  | true =>
    cases v with
    | object obj =>
      refine .inr ?_
      cases place with
      | root =>
        obtain ⟨obj', rfl, himaged, -⟩ := toStrictSchema_object h
        exact ⟨obj, obj', rfl, rfl, .inl ⟨.inl rfl, himaged⟩⟩
      | schema =>
        obtain ⟨obj', rfl, himaged, -⟩ := schemaImage_object h
        exact ⟨obj, obj', rfl, rfl, .inl ⟨.inr rfl, himaged⟩⟩
      | other =>
        obtain rfl := h
        exact ⟨obj, obj, rfl, rfl, .inr ⟨rfl, rfl⟩⟩
      | _ => cases hnode
    | _ => cases hv

/-- A schema and its image have the same `$id` and `$anchor`. -/
structure SameNames (obj obj' : JsonFields) : Prop where
  id : obj'.get? "$id" = obj.get? "$id"
  anchor : obj'.get? "$anchor" = obj.get? "$anchor"

theorem sameNames_of_image {place : Place} {obj obj' : JsonFields}
    (h : ((place = .root ∨ place = .schema) ∧ Imaged obj obj') ∨ (place = .other ∧ obj' = obj)) :
    SameNames obj obj' := by
  rcases h with ⟨-, himaged⟩ | ⟨-, rfl⟩
  · exact ⟨himaged.left "$id" (by decide) (by decide) (by decide) (by decide) (by decide),
      himaged.left "$anchor" (by decide) (by decide) (by decide) (by decide) (by decide)⟩
  · exact ⟨rfl, rfl⟩

theorem SameNames.embeds {obj obj' : JsonFields} (h : SameNames obj obj') : obj'.embeds = obj.embeds := by
  rw [JsonFields.embeds, JsonFields.embeds, h.id]

theorem SameNames.hasName {obj obj' : JsonFields} (h : SameNames obj obj') (name : String) :
    obj'.hasName name = obj.hasName name := by
  rw [JsonFields.hasName, JsonFields.hasName, h.id, h.anchor]

section

variable {s t : Json} (h : toStrictSchema s = .ok t)

include h

/-- The object at a node of the result. -/
theorem object_preimage {pointer : List String} {place : Place} {obj' : JsonFields} (hnode : place.isNode = true)
    (hlocate : locate .root t pointer = some (place, .object obj')) :
    ∃ obj, locate .root s pointer = some (place, .object obj) ∧
      (((place = .root ∨ place = .schema) ∧ Imaged obj obj') ∨ (place = .other ∧ obj' = obj)) := by
  obtain ⟨v, hv⟩ := locate_preimage (image_root h) hlocate hnode
  obtain ⟨v', hv', himage⟩ := locate_image (image_root h) hv (by rintro rfl; cases hnode)
  rw [hlocate] at hv'
  obtain ⟨-, rfl⟩ := Prod.mk.inj (Option.some.inj hv')
  rcases node_image hnode himage with ⟨hobject, heq⟩ | ⟨obj, obj'', rfl, heq, hcases⟩
  · rw [← heq] at hobject
    cases hobject
  · obtain rfl := Json.object.inj heq
    exact ⟨obj, hv, hcases⟩

theorem object_image {pointer : List String} {place : Place} {obj : JsonFields} (hnode : place.isNode = true)
    (hlocate : locate .root s pointer = some (place, .object obj)) :
    ∃ obj', locate .root t pointer = some (place, .object obj') ∧
      (((place = .root ∨ place = .schema) ∧ Imaged obj obj') ∨ (place = .other ∧ obj' = obj)) := by
  obtain ⟨v', hv', himage⟩ := locate_image (image_root h) hlocate (by rintro rfl; cases hnode)
  rcases node_image hnode himage with ⟨hobject, -⟩ | ⟨obj₁, obj', heq, rfl, hcases⟩
  · cases hobject
  · obtain rfl := Json.object.inj heq
    exact ⟨obj', hv', hcases⟩

theorem SchemaAt.image {pointer : List String} {obj : JsonFields} (hat : SchemaAt s pointer obj) :
    ∃ obj', SchemaAt t pointer obj' ∧ SameNames obj obj' := by
  obtain ⟨hpath, place, hnode, hlocate⟩ := hat
  obtain ⟨obj', hobj', hcases⟩ := object_image h hnode hlocate
  exact ⟨obj', ⟨hpath, place, hnode, hobj'⟩, sameNames_of_image hcases⟩

theorem SchemaAt.preimage {pointer : List String} {obj' : JsonFields} (hat : SchemaAt t pointer obj') :
    ∃ obj, SchemaAt s pointer obj ∧ SameNames obj obj' := by
  obtain ⟨hpath, place, hnode, hlocate⟩ := hat
  obtain ⟨obj, hobj, hcases⟩ := object_preimage h hnode hlocate
  exact ⟨obj, ⟨hpath, place, hnode, hobj⟩, sameNames_of_image hcases⟩

theorem embedsAt_iff {pointer : List String} : EmbedsAt t pointer ↔ EmbedsAt s pointer := by
  constructor
  · rintro ⟨obj', hat, hembeds⟩
    obtain ⟨obj, hat, hsame⟩ := hat.preimage h
    exact ⟨obj, hat, hsame.embeds ▸ hembeds⟩
  · rintro ⟨obj, hat, hembeds⟩
    obtain ⟨obj', hat, hsame⟩ := hat.image h
    exact ⟨obj', hat, hsame.embeds.trans hembeds⟩

theorem inResource_iff {pointer base : List String} : InResource t pointer base ↔ InResource s pointer base := by
  constructor
  · rintro ⟨haround, hstarts, hinner⟩
    exact ⟨haround, hstarts.imp_right (embedsAt_iff h).mp, fun other ho he => hinner other ho ((embedsAt_iff h).mpr he)⟩
  · rintro ⟨haround, hstarts, hinner⟩
    exact ⟨haround, hstarts.imp_right (embedsAt_iff h).mpr, fun other ho he => hinner other ho ((embedsAt_iff h).mp he)⟩

theorem namedAt_iff {base pointer : List String} {name : String} :
    NamedAt t base pointer name ↔ NamedAt s base pointer name := by
  refine and_congr (inResource_iff h) ⟨?_, ?_⟩
  · rintro ⟨obj', hat, hname⟩
    obtain ⟨obj, hat, hsame⟩ := hat.preimage h
    exact ⟨obj, hat, hsame.hasName name ▸ hname⟩
  · rintro ⟨obj, hat, hname⟩
    obtain ⟨obj', hat, hsame⟩ := hat.image h
    exact ⟨obj', hat, (hsame.hasName name).trans hname⟩

/-- A `$ref` refers to the same location of the document and of the result. -/
theorem refers_iff {pointer target : List String} {ref : String} :
    Refers t pointer ref target ↔ Refers s pointer ref target := by
  unfold Refers
  refine exists_congr fun fragment => exists_congr fun base => and_congr_right fun _ => ?_
  refine and_congr (inResource_iff h) ?_
  split
  · rfl
  · exact namedAt_iff h

end

end AgentVerse
