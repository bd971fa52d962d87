import AgentVerse.Tools.StrictSchema

/-!
# Locations in a schema document

A location is given by the tokens of a JSON pointer. What stands there (`Place`) is a schema that the conversion
reaches, a map or a list of such schemas, the value of a keyword that it may overwrite, or something that it does not
look at. At every location of a schema document the result has the image of what is there (`locate_image`), and it
has nothing else that counts (`locate_preimage`).
-/

namespace AgentVerse

/-- What stands at a location of a schema document. -/
inductive Place where
  | root
  /-- A schema that the conversion reaches. -/
  | schema
  /-- The `properties` of such a schema, or the `definitions` of the root. -/
  | map
  /-- The alternatives of a combinator of such a schema. -/
  | list
  /-- The value of a keyword about types or objects. -/
  | keyword
  | other
  deriving DecidableEq

/-- Maps and lists of schemas are no schemas. -/
def Place.isNode : Place → Bool
  | root | schema | other => true
  | map | list | keyword => false

def Json.isObject : Json → Bool
  | .object _ => true
  | _ => false

def Json.isArray : Json → Bool
  | .array _ => true
  | _ => false

/-- A member of a schema that the conversion reaches. -/
def memberPlace (token : String) (v : Json) : Place :=
  if token ∈ combinators then (if v.isArray then .list else .other)
  else if token = "items" then .schema
  else if token = "properties" then (if v.isObject then .map else .keyword)
  else if token ∈ ["type", "required", "additionalProperties"] then .keyword
  else .other

def Place.member : Place → String → Json → Place
  | root, token, v => if token = "definitions" then (if v.isObject then map else other) else memberPlace token v
  | schema, token, v => memberPlace token v
  | map, _, _ => schema
  | keyword, _, _ => keyword
  | list, _, _ | other, _, _ => other

def Place.element : Place → Place
  | list => schema
  | keyword => keyword
  | root | schema | map | other => other

/-- The element whose index is written as a token. -/
def elementAt (token : String) (i : Nat) : List Json → Option Json
  | [] => none
  | v :: l => if token = toString i then some v else elementAt token (i + 1) l

def child (place : Place) (v : Json) (token : String) : Option (Place × Json) :=
  match v with
  | .object obj => (obj.get? token).map fun w => (place.member token w, w)
  | .array items => (elementAt token 0 items.toList).map fun w => (place.element, w)
  | _ => none

/-- What stands at a location. -/
def locate : Place → Json → List String → Option (Place × Json)
  | place, v, [] => some (place, v)
  | place, v, token :: pointer =>
    match child place v token with
    | some (place, w) => locate place w pointer
    | none => none

/-! ### The image of a node -/

def SchemaImage (v v' : Json) : Prop := ∃ w, Strict v w ∧ (v' = w ∨ Nullable w v')

def EntryImage (e e' : String × Json) : Prop := e'.1 = e.1 ∧ SchemaImage e.2 e'.2

def MapImage (v v' : Json) : Prop :=
  ∃ f f', v = .object f ∧ v' = .object f' ∧ List.Forall₂ EntryImage f.toList f'.toList

/-- What the conversion makes of what stands at a place. -/
def Image : Place → Json → Json → Prop
  | .root, v, v' => toStrictSchema v = .ok v'
  | .schema, v, v' => SchemaImage v v'
  | .map, v, v' => MapImage v v'
  | .list, v, v' => ∃ l l', v = .array l ∧ v' = .array l' ∧ List.Forall₂ SchemaImage l.toList l'.toList
  | .keyword, _, _ => True
  | .other, v, v' => v' = v

theorem image_root {s t : Json} (h : toStrictSchema s = .ok t) : Image .root s t := h

/-- What the conversion makes of an object, key by key, its definitions aside. -/
structure Imaged (obj obj' : JsonFields) : Prop where
  dictionary : isOpenDictionary obj = false
  variants : ∀ c ∈ combinators, Option.Rel StrictVariants (obj.get? c) (obj'.get? c)
  items : Option.Rel Strict (obj.get? "items") (obj'.get? "items")
  closed : obj.closes = true → ∃ properties,
    List.Forall₂ (StrictEntry (existingRequired obj)) obj.properties.toList properties.toList ∧
    obj'.get? "properties" = some (.object properties) ∧
    obj'.get? "required" = some (.ofList (properties.keys.map .string)) ∧
    obj'.get? "additionalProperties" = some (.bool false)
  opened : obj.closes = false → ∀ k ∈ envelope, obj'.get? k = obj.get? k
  type : obj'.get? "type" = obj.get? "type" ∨ (obj.get? "type" = none ∧ obj'.get? "type" = some anyType)
  left : ∀ k, k ∉ combinators → k ≠ "items" → k ∉ envelope → k ≠ "type" → k ≠ "definitions" →
    obj'.get? k = obj.get? k

theorem Strictified.imaged {obj obj' : JsonFields} (h : Strictified obj obj') : Imaged obj obj' where
  dictionary := h.dictionary
  variants := h.variants
  items := h.items
  closed := h.closed
  opened hopen k hk := by
    simp only [envelope, List.mem_cons, List.not_mem_nil, or_false] at hk
    refine h.left k ?_ ?_ fun hclosed => absurd hclosed (by simp [hopen])
    · rcases hk with rfl | rfl | rfl <;> decide
    · rcases hk with rfl | rfl | rfl <;> decide
  type := .inl (h.left "type" (by decide) (by decide) fun _ => by decide)
  left k hk hitems henvelope _ _ := h.left k hk hitems fun _ => henvelope

/-- A type that is added. -/
theorem Imaged.insert_type {obj obj' : JsonFields} (h : Imaged obj obj') (htype : obj'.contains "type" = false) :
    Imaged obj (obj'.insert "type" anyType) := by
  have hother : ∀ k, k ≠ "type" → (obj'.insert "type" anyType).get? k = obj'.get? k :=
    fun k hk => JsonFields.get?_insert_of_ne hk
  have hnone : obj.get? "type" = none := by
    rcases h.type with hsame | ⟨hnone, -⟩
    · simpa [JsonFields.contains, hsame] using htype
    · exact hnone
  refine ⟨h.dictionary, fun c hc => ?_, ?_, fun hclosed => ?_, fun hopen k hk => ?_, .inr ⟨hnone, by simp⟩,
    fun k hk hitems henvelope htype hdefinitions => ?_⟩
  · rw [hother c (by rintro rfl; exact absurd hc (by decide))]
    exact h.variants c hc
  · rw [hother _ (by decide)]
    exact h.items
  · obtain ⟨properties, hentries, hprops, hrequired, hadditional⟩ := h.closed hclosed
    refine ⟨properties, hentries, ?_, ?_, ?_⟩
    · rw [hother _ (by decide), hprops]
    · rw [hother _ (by decide), hrequired]
    · rw [hother _ (by decide), hadditional]
  · rw [hother k (by rintro rfl; exact absurd hk (by decide))]
    exact h.opened hopen k hk
  · rw [hother k htype]
    exact h.left k hk hitems henvelope htype hdefinitions

theorem schemaImage_object {obj : JsonFields} {v' : Json} (h : SchemaImage (.object obj) v') :
    ∃ obj', v' = .object obj' ∧ Imaged obj obj' ∧ obj'.get? "definitions" = obj.get? "definitions" := by
  obtain ⟨w, hw, hv'⟩ := h
  obtain ⟨obj', rfl, hobj'⟩ := strict_object hw
  have hdefinitions := hobj'.left "definitions" (by decide) (by decide) fun _ => by decide
  rcases hv' with rfl | hv'
  · exact ⟨obj', rfl, hobj'.imaged, hdefinitions⟩
  · rcases nullable_cases hv' with rfl | ⟨obj'', heq, htype, rfl⟩
    · exact ⟨obj', rfl, hobj'.imaged, hdefinitions⟩
    · obtain rfl := Json.object.inj heq
      exact ⟨_, rfl, hobj'.imaged.insert_type htype, by rw [JsonFields.get?_insert_of_ne (by decide), hdefinitions]⟩

theorem schemaImage_other {v v' : Json} (hv : v.isObject = false) (h : SchemaImage v v') : v' = v := by
  obtain ⟨w, hw, hv'⟩ := h
  have hobject : ∀ obj, v ≠ .object obj := by
    rintro obj rfl
    cases hv
  obtain rfl := strict_other hobject hw
  rcases hv' with rfl | hv'
  · rfl
  · rcases nullable_cases hv' with rfl | ⟨obj, rfl, -, -⟩
    · rfl
    · cases hv

theorem strictifyDefinitions_ok {definitions definitions' : JsonFields}
    (h : strictifyDefinitions definitions = .ok definitions') :
    List.Forall₂ EntryImage definitions.toList definitions'.toList := by
  induction definitions generalizing definitions' with
  | nil =>
    obtain rfl := Except.ok.inj h
    exact .nil
  | cons key v rest ih =>
    obtain ⟨w, hw, hres⟩ := bind_ok h
    obtain ⟨rest', hrest, hres⟩ := bind_ok hres
    obtain rfl := Except.ok.inj hres
    exact .cons ⟨rfl, w, ⟨_, hw⟩, .inl rfl⟩ (ih hrest)

/-- Replacing the definitions changes nothing else. -/
private theorem Imaged.of_replace {obj obj' : JsonFields} {definitions : Json}
    (h : Imaged (obj.replace "definitions" definitions) obj') : Imaged obj obj' := by
  have hsame : ∀ k, k ≠ "definitions" → (obj.replace "definitions" definitions).get? k = obj.get? k :=
    fun k hk => JsonFields.get?_replace_of_ne hk
  have hprops : (obj.replace "definitions" definitions).properties = obj.properties := by
    rw [JsonFields.properties, JsonFields.properties, hsame _ (by decide)]
  have hcloses : (obj.replace "definitions" definitions).closes = obj.closes := by
    rw [JsonFields.closes, JsonFields.closes, hsame _ (by decide), hsame _ (by decide)]
  have hrequired : existingRequired (obj.replace "definitions" definitions) = existingRequired obj := by
    rw [existingRequired, existingRequired, hsame _ (by decide)]
  refine ⟨?_, fun c hc => ?_, ?_, fun hclosed => ?_, fun hopen k hk => ?_, ?_,
    fun k hk hitems henvelope htype hdefinitions => ?_⟩
  · have hdictionary := h.dictionary
    rwa [isOpenDictionary, hsame _ (by decide)] at hdictionary
  · rw [← hsame c (by rintro rfl; exact absurd hc (by decide))]
    exact h.variants c hc
  · rw [← hsame _ (by decide)]
    exact h.items
  · obtain ⟨properties, hentries, hrest⟩ := h.closed (hcloses.trans hclosed)
    rw [hprops, hrequired] at hentries
    exact ⟨properties, hentries, hrest⟩
  · rw [← hsame k (by rintro rfl; exact absurd hk (by decide))]
    exact h.opened (hcloses.trans hopen) k hk
  · rw [← hsame _ (by decide)]
    exact h.type
  · rw [← hsame k hdefinitions]
    exact h.left k hk hitems henvelope htype hdefinitions

/-- The definitions of the root. -/
def DefinitionsImage (v v' : Json) : Prop := if v.isObject then MapImage v v' else v' = v

theorem toStrictSchema_object {obj : JsonFields} {v' : Json} (h : toStrictSchema (.object obj) = .ok v') :
    ∃ obj', v' = .object obj' ∧ Imaged obj obj' ∧
      Option.Rel DefinitionsImage (obj.get? "definitions") (obj'.get? "definitions") := by
  obtain ⟨v, hv, hnode⟩ := bind_ok h
  have hleft : ∀ {o o' : JsonFields}, Strictified o o' → o'.get? "definitions" = o.get? "definitions" :=
    fun ho => ho.left "definitions" (by decide) (by decide) fun _ => by decide
  by_cases hmap : ∃ definitions, obj.get? "definitions" = some (.object definitions)
  · obtain ⟨definitions, hdefinitions⟩ := hmap
    simp only [strictDefinitions, hdefinitions] at hv
    obtain ⟨definitions', hdefinitions', hres⟩ := bind_ok hv
    obtain rfl := Except.ok.inj hres
    obtain ⟨obj', rfl, hobj'⟩ := strict_object ⟨_, hnode⟩
    have hcontains : obj.contains "definitions" = true := by
      rw [JsonFields.contains, hdefinitions, Option.isSome_some]
    refine ⟨obj', rfl, hobj'.imaged.of_replace, ?_⟩
    rw [hdefinitions, hleft hobj', JsonFields.get?_replace_self hcontains]
    exact .some ⟨definitions, definitions', rfl, rfl, strictifyDefinitions_ok hdefinitions'⟩
  · have hsame : v = .object obj := by
      simp only [strictDefinitions] at hv
      split at hv
      · exact absurd ⟨_, ‹_›⟩ hmap
      · exact (Except.ok.inj hv).symm
    subst hsame
    obtain ⟨obj', rfl, hobj'⟩ := strict_object ⟨_, hnode⟩
    refine ⟨obj', rfl, hobj'.imaged, ?_⟩
    rw [hleft hobj']
    cases hdefinitions : obj.get? "definitions" with
    | none => exact .none
    | some d =>
      cases d with
      | object definitions => exact absurd ⟨_, hdefinitions⟩ hmap
      | _ => exact .some rfl

theorem toStrictSchema_other {v v' : Json} (hv : v.isObject = false) (h : toStrictSchema v = .ok v') : v' = v := by
  cases v with
  | object obj => cases hv
  | _ => exact (Except.ok.inj h).symm

/-! ### The members of a node -/

/-- Related lookups, from the left and from the right. -/
theorem rel_left {α β : Type} {R : α → β → Prop} {o : Option α} {o' : Option β} (h : Option.Rel R o o') {a : α}
    (ha : o = some a) : ∃ b, o' = some b ∧ R a b := by
  cases h with
  | none => cases ha
  | some hab =>
    obtain rfl := Option.some.inj ha
    exact ⟨_, rfl, hab⟩

theorem rel_right {α β : Type} {R : α → β → Prop} {o : Option α} {o' : Option β} (h : Option.Rel R o o') {b : β}
    (hb : o' = some b) : ∃ a, o = some a ∧ R a b := by
  cases h with
  | none => cases hb
  | some hab =>
    obtain rfl := Option.some.inj hb
    exact ⟨_, rfl, hab⟩

theorem rel_none {α β : Type} {R : α → β → Prop} {o : Option α} {o' : Option β} (h : Option.Rel R o o')
    (ho : o = none) : o' = none := by
  cases h with
  | none => rfl
  | some hab => cases ho

/-- Maps that agree key by key. -/
theorem rel_get? {f f' : JsonFields} {R : Json → Json → Prop}
    (h : List.Forall₂ (fun e e' => e'.1 = e.1 ∧ R e.2 e'.2) f.toList f'.toList) (key : String) :
    Option.Rel R (f.get? key) (f'.get? key) := by
  induction f generalizing f' with
  | nil =>
    cases f' with
    | nil => exact .none
    | cons k v rest => cases h
  | cons k v rest ih =>
    cases f' with
    | nil => cases h
    | cons k' v' rest' =>
      obtain ⟨⟨hk, hv⟩, hrest⟩ := List.forall₂_cons.mp h
      obtain rfl : k' = k := hk
      unfold JsonFields.get?
      by_cases hkey : k' = key
      · rw [if_pos hkey, if_pos hkey]
        exact .some hv
      · rw [if_neg hkey, if_neg hkey]
        exact ih hrest

theorem rel_elementAt {l l' : List Json} {R : Json → Json → Prop} (h : List.Forall₂ R l l') (token : String)
    (i : Nat) : Option.Rel R (elementAt token i l) (elementAt token i l') := by
  induction h generalizing i with
  | nil => exact .none
  | cons hv _ ih =>
    unfold elementAt
    by_cases htoken : token = toString i
    · rw [if_pos htoken, if_pos htoken]
      exact .some hv
    · rw [if_neg htoken, if_neg htoken]
      exact ih (i + 1)

theorem strict_image {v v' : Json} (h : Strict v v') : SchemaImage v v' := ⟨v', h, .inl rfl⟩

theorem strictEntry_image {required : List String} {e e' : String × Json} (h : StrictEntry required e e') :
    EntryImage e e' := by
  obtain ⟨hkey, w, hw, hv⟩ := h
  refine ⟨hkey, w, hw, ?_⟩
  split at hv
  · exact .inl hv
  · exact .inr hv

theorem variants_image {v v' : Json} (h : StrictVariants v v') :
    v'.isArray = v.isArray ∧ Image (if v.isArray then .list else .other) v v' := by
  cases v with
  | array variants =>
    obtain ⟨variants', rfl, hall⟩ := h
    exact ⟨rfl, variants, variants', rfl, rfl, hall.imp fun _ _ => strict_image⟩
  | _ =>
    obtain rfl := h
    exact ⟨rfl, rfl⟩

theorem isObject_of_map {v v' : Json} (h : MapImage v v') : v.isObject = true ∧ v'.isObject = true := by
  obtain ⟨f, f', rfl, rfl, -⟩ := h
  exact ⟨rfl, rfl⟩

/-- A member of a schema, and what becomes of it. -/
theorem member_image {obj obj' : JsonFields} (h : Imaged obj obj') {token : String} {v : Json}
    (hdefinitions : token ≠ "definitions") (hv : obj.get? token = some v) (hplace : memberPlace token v ≠ .keyword) :
    ∃ v', obj'.get? token = some v' ∧ memberPlace token v' = memberPlace token v ∧
      Image (memberPlace token v) v v' := by
  unfold memberPlace at hplace ⊢
  by_cases hc : token ∈ combinators
  · obtain ⟨v', hv', hvariants⟩ := rel_left (h.variants token hc) hv
    obtain ⟨harray, himage⟩ := variants_image hvariants
    simp only [if_pos hc]
    exact ⟨v', hv', by rw [harray], himage⟩
  · simp only [if_neg hc] at hplace ⊢
    by_cases hitems : token = "items"
    · subst hitems
      obtain ⟨v', hv', hstrict⟩ := rel_left h.items hv
      simp only [if_pos]
      exact ⟨v', hv', trivial, strict_image hstrict⟩
    · simp only [if_neg hitems] at hplace ⊢
      by_cases hprops : token = "properties"
      · subst hprops
        simp only [if_pos] at hplace ⊢
        cases v with
        | object p =>
          have hclosed : obj.closes = true := by simp [JsonFields.closes, hv]
          have hsame : obj.properties = p := by simp [JsonFields.properties, hv]
          obtain ⟨p', hentries, hp', -, -⟩ := h.closed hclosed
          rw [hsame] at hentries
          exact ⟨.object p', hp', rfl, p, p', rfl, rfl, hentries.imp fun _ _ => strictEntry_image⟩
        | _ => exact absurd rfl hplace
      · simp only [if_neg hprops] at hplace ⊢
        by_cases hkeyword : token ∈ ["type", "required", "additionalProperties"]
        · simp only [if_pos hkeyword] at hplace
          exact absurd rfl hplace
        · simp only [if_neg hkeyword]
          simp only [List.mem_cons, List.not_mem_nil, or_false, not_or] at hkeyword
          -- no key that the conversion writes
          refine ⟨v, ?_, trivial, rfl⟩
          rw [h.left token hc hitems (by simp [envelope, hprops, hkeyword]) hkeyword.1 hdefinitions, hv]

/-- A member of the result, and where it comes from: only the properties of a node without any may be new. -/
theorem member_preimage {obj obj' : JsonFields} (h : Imaged obj obj') {token : String} {v' : Json}
    (hdefinitions : token ≠ "definitions") (hv' : obj'.get? token = some v')
    (hplace : memberPlace token v' ≠ .keyword) :
    (∃ v, obj.get? token = some v ∧ memberPlace token v = memberPlace token v') ∨
      (memberPlace token v' = .map ∧ v' = .object .nil) := by
  unfold memberPlace at hplace ⊢
  by_cases hc : token ∈ combinators
  · obtain ⟨v, hv, hvariants⟩ := rel_right (h.variants token hc) hv'
    simp only [if_pos hc]
    exact .inl ⟨v, hv, by rw [(variants_image hvariants).1]⟩
  · simp only [if_neg hc] at hplace ⊢
    by_cases hitems : token = "items"
    · subst hitems
      obtain ⟨v, hv, -⟩ := rel_right h.items hv'
      exact .inl ⟨v, hv, by simp⟩
    · simp only [if_neg hitems] at hplace ⊢
      by_cases hprops : token = "properties"
      · subst hprops
        simp only [if_pos] at hplace ⊢
        cases hclosed : obj.closes with
        | true =>
          obtain ⟨p', hentries, hp', -, -⟩ := h.closed hclosed
          rw [hv'] at hp'
          obtain rfl := Option.some.inj hp'
          rcases obj.properties_cases with hp | ⟨-, hnil⟩
          · exact .inl ⟨_, hp, rfl⟩
          · -- an object without properties is given an empty map of them
            rw [hnil, JsonFields.toList, List.forall₂_nil_left_iff] at hentries
            cases p' with
            | nil => exact .inr ⟨rfl, rfl⟩
            | cons k w rest => cases hentries
        | false =>
          have hsame := h.opened hclosed "properties" (by decide)
          exact .inl ⟨v', by rw [← hsame, hv'], rfl⟩
      · simp only [if_neg hprops] at hplace ⊢
        by_cases hkeyword : token ∈ ["type", "required", "additionalProperties"]
        · simp only [if_pos hkeyword] at hplace
          exact absurd rfl hplace
        · simp only [if_neg hkeyword]
          simp only [List.mem_cons, List.not_mem_nil, or_false, not_or] at hkeyword
          refine .inl ⟨v', ?_, trivial⟩
          rw [← h.left token hc hitems (by simp [envelope, hprops, hkeyword]) hkeyword.1 hdefinitions, hv']

/-! ### The locations of a document -/

theorem child_object {place place' : Place} {obj : JsonFields} {token : String} {w : Json} :
    child place (.object obj) token = some (place', w) ↔ obj.get? token = some w ∧ place' = place.member token w := by
  rw [child, Option.map_eq_some_iff]
  constructor
  · rintro ⟨x, hx, heq⟩
    obtain ⟨rfl, rfl⟩ := Prod.mk.inj heq
    exact ⟨hx, rfl⟩
  · rintro ⟨hw, rfl⟩
    exact ⟨w, hw, rfl⟩

theorem child_array {place place' : Place} {items : JsonItems} {token : String} {w : Json} :
    child place (.array items) token = some (place', w) ↔
      elementAt token 0 items.toList = some w ∧ place' = place.element := by
  rw [child, Option.map_eq_some_iff]
  constructor
  · rintro ⟨x, hx, heq⟩
    obtain ⟨rfl, rfl⟩ := Prod.mk.inj heq
    exact ⟨hx, rfl⟩
  · rintro ⟨hw, rfl⟩
    exact ⟨w, hw, rfl⟩

/-- Below a schema that is no object, nothing is converted. -/
private theorem child_other {place place' : Place} {v w : Json} {token : String} (hv : v.isObject = false)
    (hplace : place.element = .other) (h : child place v token = some (place', w)) : place' = .other := by
  cases v with
  | object obj => cases hv
  | array items => rw [(child_array.mp h).2, hplace]
  | _ => cases h

/-- A token at the root or at a schema. -/
theorem Place.member_schema {place : Place} (h : place = .root ∨ place = .schema) {token : String}
    (htoken : token ≠ "definitions") (v : Json) : place.member token v = memberPlace token v := by
  rcases h with rfl | rfl
  · rw [Place.member, if_neg htoken]
  · rfl

theorem child_keyword {place : Place} {v w : Json} {token : String}
    (h : child .keyword v token = some (place, w)) : place = .keyword := by
  cases v with
  | object obj =>
    obtain ⟨x, -, hx⟩ := Option.map_eq_some_iff.mp h
    exact (Prod.mk.inj hx).1.symm
  | array items =>
    obtain ⟨x, -, hx⟩ := Option.map_eq_some_iff.mp h
    exact (Prod.mk.inj hx).1.symm
  | _ => cases h

/-- What a token leads to, and what becomes of it. -/
theorem child_image {place place' : Place} {v v' w : Json} {token : String} (h : Image place v v')
    (hchild : child place v token = some (place', w)) (hplace : place' ≠ .keyword) :
    ∃ w', child place v' token = some (place', w') ∧ Image place' w w' := by
  cases place with
  | root =>
    cases hv : v.isObject with
    | false =>
      obtain rfl := toStrictSchema_other hv h
      obtain rfl := child_other hv rfl hchild
      exact ⟨w, hchild, rfl⟩
    | true =>
      cases v with
      | object obj =>
        obtain ⟨obj', rfl, himaged, hdefinitions⟩ := toStrictSchema_object h
        obtain ⟨hw, rfl⟩ := child_object.mp hchild
        by_cases htoken : token = "definitions"
        · -- Only at the root the definitions are converted.
          subst htoken
          obtain ⟨w', hw', himage⟩ := rel_left hdefinitions hw
          simp only [Place.member, if_pos] at hplace ⊢
          unfold DefinitionsImage at himage
          split at himage
          · rename_i hobject
            have hobject' := (isObject_of_map himage).2
            refine ⟨w', child_object.mpr ⟨hw', by simp [Place.member, hobject, hobject']⟩, ?_⟩
            rw [if_pos hobject]
            exact himage
          · rename_i hobject
            subst himage
            exact ⟨w', child_object.mpr ⟨hw', rfl⟩, by simp [hobject, Image]⟩
        · rw [Place.member_schema (.inl rfl) htoken] at hplace ⊢
          obtain ⟨w', hw', hsame, himage⟩ := member_image himaged htoken hw hplace
          exact ⟨w', child_object.mpr ⟨hw', by rw [Place.member_schema (.inl rfl) htoken, hsame]⟩, himage⟩
      | _ => cases hv
  | schema =>
    cases hv : v.isObject with
    | false =>
      obtain rfl := schemaImage_other hv h
      obtain rfl := child_other hv rfl hchild
      exact ⟨w, hchild, rfl⟩
    | true =>
      cases v with
      | object obj =>
        obtain ⟨obj', rfl, himaged, hdefinitions⟩ := schemaImage_object h
        obtain ⟨hw, rfl⟩ := child_object.mp hchild
        by_cases htoken : token = "definitions"
        · subst htoken
          exact ⟨w, child_object.mpr ⟨by rw [hdefinitions, hw], rfl⟩, rfl⟩
        · obtain ⟨w', hw', hsame, himage⟩ := member_image himaged htoken hw hplace
          exact ⟨w', child_object.mpr ⟨hw', hsame.symm⟩, himage⟩
      | _ => cases hv
  | map =>
    obtain ⟨f, f', rfl, rfl, hentries⟩ := h
    obtain ⟨hw, rfl⟩ := child_object.mp hchild
    obtain ⟨w', hw', himage⟩ := rel_left (rel_get? hentries token) hw
    exact ⟨w', child_object.mpr ⟨hw', rfl⟩, himage⟩
  | list =>
    obtain ⟨l, l', rfl, rfl, hall⟩ := h
    obtain ⟨hw, rfl⟩ := child_array.mp hchild
    obtain ⟨w', hw', himage⟩ := rel_left (rel_elementAt hall token 0) hw
    exact ⟨w', child_array.mpr ⟨hw', rfl⟩, himage⟩
  | keyword => exact absurd (child_keyword hchild) hplace
  | other =>
    obtain rfl : v' = v := h
    have hother : place' = .other := by
      cases v' with
      | object obj => exact (child_object.mp hchild).2
      | array items => exact (child_array.mp hchild).2
      | _ => cases hchild
    subst hother
    exact ⟨w, hchild, rfl⟩

/-- What a token leads to in the result, and where it comes from. -/
theorem child_preimage {place place' : Place} {v v' w' : Json} {token : String} (h : Image place v v')
    (hchild : child place v' token = some (place', w')) (hplace : place' ≠ .keyword) :
    (∃ w, child place v token = some (place', w)) ∨ (place' = .map ∧ w' = .object .nil) := by
  cases place with
  | root =>
    cases hv : v.isObject with
    | false =>
      obtain rfl := toStrictSchema_other hv h
      exact .inl ⟨w', hchild⟩
    | true =>
      cases v with
      | object obj =>
        obtain ⟨obj', rfl, himaged, hdefinitions⟩ := toStrictSchema_object h
        obtain ⟨hw', rfl⟩ := child_object.mp hchild
        by_cases htoken : token = "definitions"
        · subst htoken
          obtain ⟨w, hw, himage⟩ := rel_right hdefinitions hw'
          refine .inl ⟨w, child_object.mpr ⟨hw, ?_⟩⟩
          unfold DefinitionsImage at himage
          split at himage
          · obtain ⟨hobject, hobject'⟩ := isObject_of_map himage
            simp [Place.member, hobject, hobject']
          · rw [himage]
        · rw [Place.member_schema (.inl rfl) htoken] at hplace ⊢
          -- The conversion adds one member that leads somewhere, an empty map of properties.
          rcases member_preimage himaged htoken hw' hplace with ⟨w, hw, hsame⟩ | hnew
          · exact .inl ⟨w, child_object.mpr ⟨hw, by rw [Place.member_schema (.inl rfl) htoken, hsame]⟩⟩
          · exact .inr hnew
      | _ => cases hv
  | schema =>
    cases hv : v.isObject with
    | false =>
      obtain rfl := schemaImage_other hv h
      exact .inl ⟨w', hchild⟩
    | true =>
      cases v with
      | object obj =>
        obtain ⟨obj', rfl, himaged, hdefinitions⟩ := schemaImage_object h
        obtain ⟨hw', rfl⟩ := child_object.mp hchild
        by_cases htoken : token = "definitions"
        · subst htoken
          exact .inl ⟨w', child_object.mpr ⟨by rw [← hdefinitions, hw'], rfl⟩⟩
        · rcases member_preimage himaged htoken hw' hplace with ⟨w, hw, hsame⟩ | hnew
          · exact .inl ⟨w, child_object.mpr ⟨hw, hsame.symm⟩⟩
          · exact .inr hnew
      | _ => cases hv
  | map =>
    obtain ⟨f, f', rfl, rfl, hentries⟩ := h
    obtain ⟨hw', rfl⟩ := child_object.mp hchild
    obtain ⟨w, hw, -⟩ := rel_right (rel_get? hentries token) hw'
    exact .inl ⟨w, child_object.mpr ⟨hw, rfl⟩⟩
  | list =>
    obtain ⟨l, l', rfl, rfl, hall⟩ := h
    obtain ⟨hw', rfl⟩ := child_array.mp hchild
    obtain ⟨w, hw, -⟩ := rel_right (rel_elementAt hall token 0) hw'
    exact .inl ⟨w, child_array.mpr ⟨hw, rfl⟩⟩
  | keyword => exact absurd (child_keyword hchild) hplace
  | other =>
    obtain rfl : v' = v := h
    exact .inl ⟨w', hchild⟩

theorem locate_keyword {place : Place} {v w : Json} {pointer : List String}
    (h : locate .keyword v pointer = some (place, w)) : place = .keyword := by
  induction pointer generalizing v with
  | nil => exact (Prod.mk.inj (Option.some.inj h)).1.symm
  | cons token pointer ih =>
    unfold locate at h
    split at h
    · rename_i place' x hx
      obtain rfl := child_keyword hx
      exact ih h
    · cases h

/-- At every location of the document that counts, the result has the image of what is there. -/
theorem locate_image {place place' : Place} {v v' w : Json} {pointer : List String} (h : Image place v v')
    (hlocate : locate place v pointer = some (place', w)) (hplace : place' ≠ .keyword) :
    ∃ w', locate place v' pointer = some (place', w') ∧ Image place' w w' := by
  induction pointer generalizing place v v' with
  | nil =>
    obtain ⟨rfl, rfl⟩ := Prod.mk.inj (Option.some.inj hlocate)
    exact ⟨v', rfl, h⟩
  | cons token pointer ih =>
    unfold locate at hlocate
    split at hlocate
    · rename_i place₁ x hx
      have hplace₁ : place₁ ≠ .keyword := by
        rintro rfl
        exact hplace (locate_keyword hlocate)
      obtain ⟨x', hx', himage⟩ := child_image h hx hplace₁
      obtain ⟨w', hw', himage'⟩ := ih himage hlocate
      refine ⟨w', ?_, himage'⟩
      unfold locate
      rw [hx']
      exact hw'
    · cases hlocate

/-- A node of the result stands where there is one in the document. -/
theorem locate_preimage {place place' : Place} {v v' w' : Json} {pointer : List String} (h : Image place v v')
    (hlocate : locate place v' pointer = some (place', w')) (hplace : place'.isNode = true) :
    ∃ w, locate place v pointer = some (place', w) := by
  induction pointer generalizing place v v' with
  | nil =>
    obtain ⟨rfl, rfl⟩ := Prod.mk.inj (Option.some.inj hlocate)
    exact ⟨v, rfl⟩
  | cons token pointer ih =>
    unfold locate at hlocate ⊢
    split at hlocate
    · rename_i place₁ x' hx'
      have hplace₁ : place₁ ≠ .keyword := by
        rintro rfl
        rw [locate_keyword hlocate] at hplace
        cases hplace
      rcases child_preimage h hx' hplace₁ with ⟨x, hx⟩ | ⟨rfl, rfl⟩
      -- the child of the document has an image, which can only be the child of the result
      · obtain ⟨y, hy, himage⟩ := child_image h hx hplace₁
        rw [hx'] at hy
        obtain ⟨-, rfl⟩ := Prod.mk.inj (Option.some.inj hy)
        rw [hx]
        exact ih himage hlocate
      -- a new map of properties is no node and is empty
      · cases pointer with
        | nil =>
          obtain ⟨rfl, -⟩ := Prod.mk.inj (Option.some.inj hlocate)
          cases hplace
        | cons token' pointer => cases hlocate
    · cases hlocate

end AgentVerse
