import AgentVerse.Tools.Idempotence
import AgentVerse.Tools.References

/-!
# Validation

The instances of a schema, for the keywords `type`, `properties`, `required`, `additionalProperties`, `items`,
`enum`, `anyOf`, `allOf` and local `$ref` of JSON Schema (draft 7). An instance of the result of the conversion is a
complete instance of the document (`valid_iff_complete`): where the conversion closes a schema, an object has the
members that the schema names and no others.
-/

namespace AgentVerse

/-! ### Keywords -/

/-- How numbers are read: which floats are integers, and which values are equal. -/
structure Numbers where
  integral : String → Bool
  equal : Json → Json → Bool

def hasType (rd : Numbers) (i : Json) (name : String) : Bool :=
  match i with
  | .null => name = "null"
  | .bool _ => name = "boolean"
  | .int _ => name = "number" || name = "integer"
  | .float text => name = "number" || (name = "integer" && rd.integral text)
  | .string _ => name = "string"
  | .array _ => name = "array"
  | .object _ => name = "object"

def typeAllows (rd : Numbers) (obj : JsonFields) (i : Json) : Bool :=
  match obj.get? "type" with
  | none => true
  | some (.string name) => hasType rd i name
  | some (.array names) => (names.toList.filterMap Json.asStr).any (hasType rd i)
  | some _ => false

def enumAllows (rd : Numbers) (obj : JsonFields) (i : Json) : Bool :=
  match obj.get? "enum" with
  | some (.array values) => values.toList.any fun v => rd.equal v i
  | _ => true

/-- The members of an instance that is an object. -/
def Json.members : Json → JsonFields
  | .object f => f
  | _ => .nil

/-- The elements of an instance that is an array. -/
def Json.elements : Json → List Json
  | .array items => items.toList
  | _ => []

/-- The schema of a member of an object. -/
def JsonFields.memberSchema (obj : JsonFields) (key : String) : Option Json :=
  match obj.properties.get? key with
  | some p => some p
  | none => obj.get? "additionalProperties"

/-- The schema of an element of an array. -/
def JsonFields.elementSchema (obj : JsonFields) (n : Nat) : Option Json :=
  match obj.get? "items" with
  | some (.array schemas) => schemas.toList[n]?
  | items => items

/-- The alternatives, one of which must hold. -/
def JsonFields.choices (obj : JsonFields) : List Json :=
  match obj.get? "anyOf" with
  | some (.array variants) => variants.toList
  | _ => [.bool true]

/-- The schemas that must all hold. -/
def JsonFields.conjuncts (obj : JsonFields) : List Json :=
  match obj.get? "allOf" with
  | some (.array variants) => variants.toList
  | _ => []

/-- The schema that a local `$ref` names. -/
def refNode (doc : Json) (ref : String) : Option (Place × Json) :=
  ((refTarget ref).bind (locate .root doc)).filter fun x => x.1.isNode

/-! ### Instances -/

/-- Validity of an instance under a schema of a document. A `$ref` stands alone: what is beside it is ignored. -/
inductive Valid (rd : Numbers) (doc : Json) : Json → Json → Prop
  | any {i : Json} : Valid rd doc (.bool true) i
  | ref {obj : JsonFields} {ref : String} {place : Place} {v i : Json} :
      obj.get? "$ref" = some (.string ref) → refNode doc ref = some (place, v) → Valid rd doc v i →
      Valid rd doc (.object obj) i
  | object {obj : JsonFields} {variant i : Json} :
      (∀ ref, obj.get? "$ref" ≠ some (.string ref)) → typeAllows rd obj i = true → enumAllows rd obj i = true →
      (i.isObject = true → ∀ key ∈ existingRequired obj, i.members.contains key = true) →
      (∀ key x p, i.members.get? key = some x → obj.memberSchema key = some p → Valid rd doc p x) →
      (∀ n x p, i.elements[n]? = some x → obj.elementSchema n = some p → Valid rd doc p x) →
      variant ∈ obj.choices → Valid rd doc variant i → (∀ v ∈ obj.conjuncts, Valid rd doc v i) →
      Valid rd doc (.object obj) i

/-- Whether the conversion visits what stands at a place. -/
def Place.visited : Place → Bool
  | root | schema => true
  | map | list | keyword | other => false

/-- The place of the schemas inside of a schema. -/
def Place.inner (place : Place) : Place := if place.visited then .schema else .other

/-- The place of the schema of a member: that of `additionalProperties` is not visited. -/
def memberSchemaPlace (place : Place) (obj : JsonFields) (key : String) : Place :=
  if obj.properties.contains key then place.inner else .other

/-- The place of the schema of an element: those in an array are not visited. -/
def elementPlace (place : Place) (obj : JsonFields) : Place :=
  match obj.get? "items" with
  | some (.array _) => .other
  | _ => place.inner

/-- Whether the conversion closes an object at a place. -/
def closing (place : Place) (obj : JsonFields) : Bool := place.visited && obj.closes

/-- The complete instances of a schema that stands at a place of a document: where the conversion closes the schema,
an object has exactly the members that are named in `properties`, whatever `required` and `additionalProperties`
say. -/
inductive Complete (rd : Numbers) (doc : Json) : Place → Json → Json → Prop
  | any {place : Place} {i : Json} : Complete rd doc place (.bool true) i
  | ref {place place' : Place} {obj : JsonFields} {ref : String} {v i : Json} :
      obj.get? "$ref" = some (.string ref) → refNode doc ref = some (place', v) → Complete rd doc place' v i →
      Complete rd doc place (.object obj) i
  | object {place : Place} {obj : JsonFields} {variant i : Json} :
      (∀ ref, obj.get? "$ref" ≠ some (.string ref)) → typeAllows rd obj i = true → enumAllows rd obj i = true →
      (closing place obj = true → i.isObject = true →
        ∀ key, i.members.contains key = obj.properties.contains key) →
      (closing place obj = false → i.isObject = true →
        ∀ key ∈ existingRequired obj, i.members.contains key = true) →
      (∀ key x p, i.members.get? key = some x → obj.memberSchema key = some p →
        Complete rd doc (memberSchemaPlace place obj key) p x) →
      (∀ n x p, i.elements[n]? = some x → obj.elementSchema n = some p →
        Complete rd doc (elementPlace place obj) p x) →
      variant ∈ obj.choices → Complete rd doc place.inner variant i →
      (∀ v ∈ obj.conjuncts, Complete rd doc place.inner v i) →
      Complete rd doc place (.object obj) i

/-! ### Images -/

/-- What an object and its image have in common, keyword by keyword. -/
structure SameKeywords (place : Place) (obj obj' : JsonFields) : Prop where
  ref : obj'.get? "$ref" = obj.get? "$ref"
  type : ∀ rd i, typeAllows rd obj' i = typeAllows rd obj i
  enum : obj'.get? "enum" = obj.get? "enum"
  properties : ∀ key, Option.Rel (Image place.inner) (obj.properties.get? key) (obj'.properties.get? key)
  closed : closing place obj = true → (∀ key, key ∈ existingRequired obj' ↔ obj.properties.contains key = true) ∧
    obj'.get? "additionalProperties" = some (.bool false)
  opened : closing place obj = false → existingRequired obj' = existingRequired obj ∧
    obj'.get? "additionalProperties" = obj.get? "additionalProperties"
  elements : ∀ n, Option.Rel (Image (elementPlace place obj)) (obj.elementSchema n) (obj'.elementSchema n)
  choices : List.Forall₂ (Image place.inner) obj.choices obj'.choices
  conjuncts : List.Forall₂ (Image place.inner) obj.conjuncts obj'.conjuncts

theorem image_self {v : Json} (hv : v.isObject = false) : SchemaImage v v := by
  cases v with
  | object obj => cases hv
  | _ => exact ⟨_, ⟨"", rfl⟩, .inl rfl⟩

private theorem rel_refl {α : Type} {R : α → α → Prop} {o : Option α} (h : ∀ a, o = some a → R a a) :
    Option.Rel R o o := by
  cases o with
  | none => exact .none
  | some a => exact .some (h a rfl)

theorem sameKeywords_refl (obj : JsonFields) : SameKeywords .other obj obj := by
  have helement : elementPlace .other obj = .other := by
    unfold elementPlace
    split <;> rfl
  refine ⟨rfl, fun _ _ => rfl, rfl, fun key => rel_refl fun _ _ => rfl, fun h => (by cases h),
    fun _ => ⟨rfl, rfl⟩, fun n => ?_, ?_, ?_⟩
  · rw [helement]
    exact rel_refl fun _ _ => rfl
  · exact List.forall₂_same.mpr fun _ _ => rfl
  · exact List.forall₂_same.mpr fun _ _ => rfl

theorem typeAllows_anyType {rd : Numbers} {obj : JsonFields} (h : obj.get? "type" = some anyType) (i : Json) :
    typeAllows rd obj i = true := by
  unfold typeAllows
  rw [h]
  cases i <;> simp [anyType, Json.ofList, Json.asStr, hasType]

/-- An object that is not closed has no properties. -/
theorem properties_of_open {obj : JsonFields} (h : obj.closes = false) : obj.properties = .nil := by
  rcases obj.properties_cases with hget | ⟨-, hnil⟩
  · simp [JsonFields.closes, hget] at h
  · exact hnil

/-- The image of a schema that is visited. -/
theorem Imaged.sameKeywords {place : Place} (hplace : place.visited = true) {obj obj' : JsonFields}
    (h : Imaged obj obj') : SameKeywords place obj obj' := by
  have hinner : place.inner = .schema := by rw [Place.inner, hplace, if_pos rfl]
  have hclosing : closing place obj = obj.closes := by rw [closing, hplace, Bool.true_and]
  have hvariants : ∀ c ∈ combinators, ∀ d : List Json, List.Forall₂ SchemaImage d d →
      List.Forall₂ SchemaImage
        (match obj.get? c with | some (.array variants) => variants.toList | _ => d)
        (match obj'.get? c with | some (.array variants) => variants.toList | _ => d) := by
    intro c hc d hd
    cases hv : obj.get? c with
    | none =>
      rw [rel_none (h.variants c hc) hv]
      exact hd
    | some v =>
      obtain ⟨v', hv', hvariants⟩ := rel_left (h.variants c hc) hv
      rw [hv']
      cases v with
      | array variants =>
        obtain ⟨variants', rfl, hall⟩ := hvariants
        exact hall.imp fun _ _ => strict_image
      | _ =>
        obtain rfl := hvariants
        exact hd
  have hsame : obj.closes = false → obj'.properties = obj.properties := by
    intro hopen
    rw [JsonFields.properties, JsonFields.properties, h.opened hopen "properties" (by decide)]
  -- Keyword by keyword, in the order of `SameKeywords`.
  refine ⟨?_, fun rd i => ?_, ?_, fun key => ?_, fun hclosed => ?_, fun hopen => ?_, fun n => ?_, ?_, ?_⟩
  · exact h.left "$ref" (by decide) (by decide) (by decide) (by decide) (by decide)
  · rcases h.type with htype | ⟨hnone, hany⟩
    · rw [typeAllows, htype, typeAllows]
    · rw [typeAllows_anyType hany, typeAllows, hnone]
  · exact h.left "enum" (by decide) (by decide) (by decide) (by decide) (by decide)
  · rw [hinner]
    cases hclosed : obj.closes with
    | true =>
      obtain ⟨p', hentries, hp', -, -⟩ := h.closed hclosed
      have hprops : obj'.properties = p' := by rw [JsonFields.properties, hp']
      rw [hprops]
      exact rel_get? (hentries.imp fun _ _ => strictEntry_image) key
    | false =>
      rw [hsame hclosed]
      rw [properties_of_open hclosed]
      exact .none
  · rw [hclosing] at hclosed
    obtain ⟨p', hentries, hp', hrequired, hadditional⟩ := h.closed hclosed
    refine ⟨fun key => ?_, hadditional⟩
    rw [existingRequired_eq hrequired, entries_keys hentries, JsonFields.mem_keys_iff]
  · rw [hclosing] at hopen
    exact ⟨by rw [existingRequired, existingRequired, h.opened hopen "required" (by decide)],
      h.opened hopen "additionalProperties" (by decide)⟩
  · unfold elementPlace JsonFields.elementSchema
    cases hv : obj.get? "items" with
    | none =>
      rw [rel_none h.items hv]
      exact .none
    | some v =>
      obtain ⟨v', hv', hstrict⟩ := rel_left h.items hv
      rw [hv']
      cases v with
      | array schemas =>
        obtain rfl := strict_other (by simp) hstrict
        exact rel_refl fun _ _ => rfl
      | object f =>
        obtain ⟨f', rfl, -⟩ := strict_object hstrict
        rw [hinner]
        exact .some (strict_image hstrict)
      | _ =>
        obtain rfl := strict_other (by simp) hstrict
        rw [hinner]
        exact .some (strict_image hstrict)
  · rw [hinner]
    exact hvariants "anyOf" (by decide) [.bool true] (.cons (image_self rfl) .nil)
  · rw [hinner]
    exact hvariants "allOf" (by decide) [] .nil

/-- A node of the result is left alone, or it is an object that matches the one in the document. -/
theorem node_keywords {place : Place} {v v' : Json} (hnode : place.isNode = true) (h : Image place v v') :
    (v.isObject = false ∧ v' = v) ∨
      ∃ obj obj', v = .object obj ∧ v' = .object obj' ∧ SameKeywords place obj obj' := by
  rcases node_image hnode h with hother | ⟨obj, obj', rfl, rfl, ⟨hplace, himaged⟩ | ⟨rfl, rfl⟩⟩
  · exact .inl hother
  · exact .inr ⟨obj, obj', rfl, rfl, himaged.sameKeywords (by rcases hplace with rfl | rfl <;> rfl)⟩
  · exact .inr ⟨obj', obj', rfl, rfl, sameKeywords_refl obj'⟩

theorem isNode_inner (place : Place) : place.inner.isNode = true := by
  unfold Place.inner
  split <;> rfl

theorem isNode_elementPlace (place : Place) (obj : JsonFields) : (elementPlace place obj).isNode = true := by
  unfold elementPlace
  split
  · rfl
  · exact isNode_inner place

theorem isNode_memberSchemaPlace (place : Place) (obj : JsonFields) (key : String) :
    (memberSchemaPlace place obj key).isNode = true := by
  unfold memberSchemaPlace
  split
  · exact isNode_inner place
  · rfl

theorem refNode_eq_some {doc v : Json} {ref : String} {place : Place} :
    refNode doc ref = some (place, v) ↔
      ∃ pointer, refTarget ref = some pointer ∧ locate .root doc pointer = some (place, v) ∧ place.isNode = true := by
  rw [refNode, Option.filter_eq_some_iff, Option.bind_eq_some_iff]
  constructor
  · rintro ⟨⟨pointer, hpointer, hlocate⟩, hnode⟩
    exact ⟨pointer, hpointer, hlocate, hnode⟩
  · rintro ⟨pointer, hpointer, hlocate, hnode⟩
    exact ⟨⟨pointer, hpointer, hlocate⟩, hnode⟩

theorem SameKeywords.enumAllows {place : Place} {obj obj' : JsonFields} (h : SameKeywords place obj obj')
    (rd : Numbers) (i : Json) : enumAllows rd obj' i = enumAllows rd obj i := by
  rw [AgentVerse.enumAllows, AgentVerse.enumAllows, h.enum]

theorem SameKeywords.contains {place : Place} {obj obj' : JsonFields} (h : SameKeywords place obj obj')
    (key : String) : obj'.properties.contains key = obj.properties.contains key := by
  unfold JsonFields.contains
  cases hp : obj.properties.get? key with
  | none => rw [rel_none (h.properties key) hp]
  | some p =>
    obtain ⟨p', hp', -⟩ := rel_left (h.properties key) hp
    rw [hp']
    rfl

/-- The schema of a member, and its image. -/
theorem SameKeywords.memberSchema {place : Place} {obj obj' : JsonFields} (h : SameKeywords place obj obj')
    {key : String} (hkey : closing place obj = true → obj.properties.contains key = true) :
    Option.Rel (Image (memberSchemaPlace place obj key)) (obj.memberSchema key) (obj'.memberSchema key) := by
  unfold JsonFields.memberSchema memberSchemaPlace JsonFields.contains
  cases hp : obj.properties.get? key with
  | some p =>
    obtain ⟨p', hp', himage⟩ := rel_left (h.properties key) hp
    rw [hp']
    exact .some himage
  | none =>
    rw [rel_none (h.properties key) hp]
    have hopen : closing place obj = false := by
      refine Bool.eq_false_iff.mpr fun hclosed => ?_
      have hcontains := hkey hclosed
      rw [JsonFields.contains, hp] at hcontains
      cases hcontains
    simp only [(h.opened hopen).2, Option.isSome_none, Bool.false_eq_true, if_false]
    exact rel_refl fun _ _ => rfl

theorem isObject_of_member {i x : Json} {key : String} (h : i.members.get? key = some x) : i.isObject = true := by
  cases i with
  | object f => rfl
  | _ => cases h

/-- Related lists, element by element. -/
theorem rel_mem_left {α β : Type} {R : α → β → Prop} {l : List α} {l' : List β} (h : List.Forall₂ R l l') {a : α}
    (ha : a ∈ l) : ∃ b ∈ l', R a b := by
  induction h with
  | nil => cases ha
  | cons hab _ ih =>
    rcases List.mem_cons.mp ha with rfl | ha
    · exact ⟨_, List.mem_cons_self, hab⟩
    · obtain ⟨b, hb, hrel⟩ := ih ha
      exact ⟨b, List.mem_cons_of_mem _ hb, hrel⟩

theorem rel_mem_right {α β : Type} {R : α → β → Prop} {l : List α} {l' : List β} (h : List.Forall₂ R l l') {b : β}
    (hb : b ∈ l') : ∃ a ∈ l, R a b := by
  induction h with
  | nil => cases hb
  | cons hab _ ih =>
    rcases List.mem_cons.mp hb with rfl | hb
    · exact ⟨_, List.mem_cons_self, hab⟩
    · obtain ⟨a, ha, hrel⟩ := ih hb
      exact ⟨a, List.mem_cons_of_mem _ ha, hrel⟩

/-! ### Instances of the result -/

/-- An object that is an instance of a closed schema has the members that the schema names. -/
theorem contains_eq_of_closed {rd : Numbers} {t : Json} {obj : JsonFields} {i : Json} {key : String}
    (hadditional : obj.get? "additionalProperties" = some (.bool false))
    (hrequired : obj.properties.contains key = true → i.members.contains key = true)
    (hmembers : ∀ x p, i.members.get? key = some x → obj.memberSchema key = some p → Valid rd t p x) :
    i.members.contains key = obj.properties.contains key := by
  cases hkey : obj.properties.contains key with
  | true => exact hrequired hkey
  | false =>
    cases hx : i.members.get? key with
    | none => rw [JsonFields.contains, hx, Option.isSome_none]
    | some x =>
      have hnone : obj.properties.get? key = none := by simpa [JsonFields.contains] using hkey
      have hfalse := hmembers x (.bool false) hx (by rw [JsonFields.memberSchema, hnone, hadditional])
      cases hfalse

private theorem keys_of_closed {rd : Numbers} {t : Json} {place : Place} {obj obj' : JsonFields} {i : Json}
    (hsame : SameKeywords place obj obj') (hclosed : closing place obj = true) {key : String}
    (hrequired : key ∈ existingRequired obj' → i.members.contains key = true)
    (hmembers : ∀ x p, i.members.get? key = some x → obj'.memberSchema key = some p → Valid rd t p x) :
    i.members.contains key = obj.properties.contains key := by
  obtain ⟨hrequires, hadditional⟩ := hsame.closed hclosed
  have hcontains := hsame.contains key
  rw [contains_eq_of_closed hadditional
    (fun hkey => hrequired ((hrequires key).mpr (hcontains.symm.trans hkey))) hmembers, hcontains]

section

variable {s t : Json} (h : toStrictSchema s = .ok t) {rd : Numbers}

include h

theorem complete_of_valid {v' i : Json} (hvalid : Valid rd t v' i) :
    ∀ place v, place.isNode = true → Image place v v' → Complete rd s place v i := by
  induction hvalid with
  | any =>
    intro place v hnode himage
    rcases node_keywords hnode himage with ⟨-, rfl⟩ | ⟨obj, obj', -, heq, -⟩
    · exact .any
    · cases heq
  | ref href htarget _ ih =>
    intro place v hnode himage
    rcases node_keywords hnode himage with ⟨hobject, rfl⟩ | ⟨obj, obj', rfl, heq, hsame⟩
    · cases hobject
    · obtain rfl := Json.object.inj heq
      obtain ⟨pointer, hpointer, hlocate, hnode'⟩ := refNode_eq_some.mp htarget
      obtain ⟨w, hw⟩ := locate_preimage (image_root h) hlocate hnode'
      obtain ⟨w', hw', himage'⟩ := locate_image (image_root h) hw (by rintro rfl; cases hnode')
      rw [hlocate] at hw'
      obtain ⟨-, rfl⟩ := Prod.mk.inj (Option.some.inj hw')
      exact .ref (hsame.ref ▸ href) (refNode_eq_some.mpr ⟨pointer, hpointer, hw, hnode'⟩) (ih _ w hnode' himage')
  | object hplain htype henum hrequired hmembers helements hchoice hvariant hconjuncts ihm ihe ihv ihc =>
    intro place v hnode himage
    rcases node_keywords hnode himage with ⟨hobject, rfl⟩ | ⟨obj, obj', rfl, heq, hsame⟩
    · cases hobject
    · obtain rfl := Json.object.inj heq
      have hkeys := fun hclosed hobject key => keys_of_closed hsame hclosed (hrequired hobject key) (hmembers key)
      obtain ⟨variant, hmem, himage'⟩ := rel_mem_right hsame.choices hchoice
      refine .object (fun ref href => hplain ref (hsame.ref.trans href)) ((hsame.type rd _).symm.trans htype)
        ((hsame.enumAllows rd _).symm.trans henum) hkeys (fun hopen hobject key hkey => ?_)
        (fun key x p hx hp => ?_) (fun n x p hx hp => ?_) hmem (ihv _ variant (isNode_inner place) himage')
        fun w hw => ?_
      · exact hrequired hobject key ((hsame.opened hopen).1 ▸ hkey)
      · have hkey : closing place obj = true → obj.properties.contains key = true := fun hclosed => by
          rw [← hkeys hclosed (isObject_of_member hx) key, JsonFields.contains, hx, Option.isSome_some]
        obtain ⟨p', hp', himage'⟩ := rel_left (hsame.memberSchema hkey) hp
        exact ihm key x p' hx hp' _ p (isNode_memberSchemaPlace place obj key) himage'
      · obtain ⟨p', hp', himage'⟩ := rel_left (hsame.elements n) hp
        exact ihe n x p' hx hp' _ p (isNode_elementPlace place obj) himage'
      · obtain ⟨w', hw', himage'⟩ := rel_mem_left hsame.conjuncts hw
        exact ihc w' hw' _ w (isNode_inner place) himage'

theorem valid_of_complete {place : Place} {v i : Json} (hcomplete : Complete rd s place v i) :
    ∀ v', place.isNode = true → Image place v v' → Valid rd t v' i := by
  induction hcomplete with
  | any =>
    intro v' hnode himage
    rcases node_keywords hnode himage with ⟨-, rfl⟩ | ⟨obj, obj', heq, -, -⟩
    · exact .any
    · cases heq
  | ref href htarget _ ih =>
    intro v' hnode himage
    rcases node_keywords hnode himage with ⟨hobject, -⟩ | ⟨obj, obj', heq, rfl, hsame⟩
    · cases hobject
    · obtain rfl := Json.object.inj heq
      obtain ⟨pointer, hpointer, hlocate, hnode'⟩ := refNode_eq_some.mp htarget
      obtain ⟨w', hw', himage'⟩ := locate_image (image_root h) hlocate (by rintro rfl; cases hnode')
      exact .ref (hsame.ref.trans href) (refNode_eq_some.mpr ⟨pointer, hpointer, hw', hnode'⟩) (ih w' hnode' himage')
  | @object place obj variant i hplain htype henum hkeys hrequired _ _ hchoice _ _ ihm ihe ihv ihc =>
    intro v' hnode himage
    rcases node_keywords hnode himage with ⟨hobject, -⟩ | ⟨obj, obj', heq, rfl, hsame⟩
    · cases hobject
    · obtain rfl := Json.object.inj heq
      obtain ⟨variant', hmem, himage'⟩ := rel_mem_left hsame.choices hchoice
      refine .object (fun ref href => hplain ref (hsame.ref.symm.trans href)) ((hsame.type rd _).trans htype)
        ((hsame.enumAllows rd _).trans henum) (fun hobject key hkey => ?_) (fun key x p' hx hp' => ?_)
        (fun n x p' hx hp' => ?_) hmem (ihv variant' (isNode_inner _) himage') fun w' hw' => ?_
      · cases hclosed : closing place obj with
        | true => rw [hkeys hclosed hobject key, ← ((hsame.closed hclosed).1 key)]; exact hkey
        | false => exact hrequired hclosed hobject key ((hsame.opened hclosed).1 ▸ hkey)
      · have hkey : closing place obj = true → obj.properties.contains key = true := fun hclosed => by
          rw [← hkeys hclosed (isObject_of_member hx) key, JsonFields.contains, hx, Option.isSome_some]
        obtain ⟨p, hp, himage'⟩ := rel_right (hsame.memberSchema hkey) hp'
        exact ihm key x p hx hp p' (isNode_memberSchemaPlace place obj key) himage'
      · obtain ⟨p, hp, himage'⟩ := rel_right (hsame.elements n) hp'
        exact ihe n x p hx hp p' (isNode_elementPlace _ _) himage'
      · obtain ⟨w, hw, himage'⟩ := rel_mem_right hsame.conjuncts hw'
        exact ihc w hw w' (isNode_inner _) himage'

/-- The instances of the result are the complete instances of the document. -/
theorem valid_iff_complete {i : Json} : Valid rd t t i ↔ Complete rd s .root s i :=
  ⟨fun hvalid => complete_of_valid h hvalid .root s rfl (image_root h),
    fun hcomplete => valid_of_complete h hcomplete t rfl (image_root h)⟩

end

end AgentVerse
