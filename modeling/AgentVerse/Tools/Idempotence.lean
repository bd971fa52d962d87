import AgentVerse.Tools.Closure

/-!
# Strict schemas are fixed points

A second conversion changes nothing (`toStrictSchema_idempotent`). The induction is on the size of the document: what
the conversion makes of an object is `AlreadyStrict`, that is, everything that the traversal reaches from it is a
fixed point, and it is closed if it is of the kind that is closed. The first conversion keeps the names of the
properties of every object, and the types of the required ones.
-/

namespace AgentVerse

/-! ### Sizes -/

theorem JsonFields.sizeOf_lt_of_mem {fields : JsonFields} {e : String × Json} (h : e ∈ fields.toList) :
    sizeOf e.2 < sizeOf fields := by
  induction fields with
  | nil => cases h
  | cons k v rest ih =>
    rcases List.mem_cons.mp h with rfl | h
    · simp
      omega
    · have := ih h
      simp
      omega

theorem JsonFields.mem_of_get? {fields : JsonFields} {key : String} {v : Json} (h : fields.get? key = some v) :
    (key, v) ∈ fields.toList := by
  induction fields with
  | nil => cases h
  | cons k w rest ih =>
    unfold JsonFields.get? at h
    by_cases hk : k = key
    · rw [if_pos hk] at h
      obtain rfl := Option.some.inj h
      rw [← hk]
      exact List.mem_cons_self
    · rw [if_neg hk] at h
      exact List.mem_cons_of_mem _ (ih h)

theorem JsonFields.sizeOf_lt_of_get? {fields : JsonFields} {key : String} {v : Json} (h : fields.get? key = some v) :
    sizeOf v < sizeOf fields :=
  sizeOf_lt_of_mem (mem_of_get? h)

theorem JsonItems.sizeOf_lt_of_mem {items : JsonItems} {v : Json} (h : v ∈ items.toList) :
    sizeOf v < sizeOf items := by
  induction items with
  | nil => cases h
  | cons w rest ih =>
    rcases List.mem_cons.mp h with rfl | h
    · simp
      omega
    · have := ih h
      simp
      omega

/-! ### Fixed points -/

/-- The conversion leaves a schema as it is. -/
def Fixed (v : Json) : Prop := ∀ path, strictifyNode path v = .ok v

/-- An object that the conversion leaves as it is, in terms of its parts. -/
structure AlreadyStrict (obj : JsonFields) : Prop where
  dictionary : isOpenDictionary obj = false
  variants : ∀ c ∈ combinators, ∀ variants, obj.get? c = some (.array variants) → ∀ v ∈ variants.toList, Fixed v
  items : ∀ v, obj.get? "items" = some v → Fixed v
  properties : obj.closes = true → obj.get? "properties" = some (.object obj.properties) ∧
    obj.get? "required" = some (.ofList (obj.properties.keys.map .string)) ∧
    obj.get? "additionalProperties" = some (.bool false) ∧ ∀ e ∈ obj.properties.toList, Fixed e.2

theorem strictifyEach_fixed {variants : JsonItems} (h : ∀ v ∈ variants.toList, Fixed v) (path c : String) (i : Nat) :
    strictifyEach path c i variants = .ok variants := by
  induction variants generalizing i with
  | nil => rfl
  | cons v rest ih =>
    have hrest := ih (fun w hw => h w (List.mem_cons_of_mem _ hw)) (i + 1)
    simp [strictifyEach, h v List.mem_cons_self _, hrest, bind, Except.bind, pure, Except.pure]

theorem strictifyEntries_fixed {properties : JsonFields} {required : List String}
    (h : ∀ e ∈ properties.toList, Fixed e.2) (hrequired : ∀ k ∈ properties.keys, k ∈ required) (path : String) :
    strictifyEntries path required properties = .ok properties := by
  induction properties with
  | nil => rfl
  | cons k v rest ih =>
    have hrest := ih (fun e he => h e (List.mem_cons_of_mem _ he)) fun k' hk' =>
      hrequired k' (List.mem_cons_of_mem _ hk')
    have hk : k ∈ required := hrequired k List.mem_cons_self
    simp [strictifyEntries, h (k, v) List.mem_cons_self _, hrest, hk, bind, Except.bind, pure, Except.pure]

theorem strictifyDefinitions_fixed {definitions : JsonFields} (h : ∀ e ∈ definitions.toList, Fixed e.2) :
    strictifyDefinitions definitions = .ok definitions := by
  induction definitions with
  | nil => rfl
  | cons k v rest ih =>
    have hrest := ih fun e he => h e (List.mem_cons_of_mem _ he)
    simp [strictifyDefinitions, h (k, v) List.mem_cons_self _, hrest, bind, Except.bind, pure, Except.pure]

private theorem filterMap_asStr (names : List String) : (names.map Json.string).filterMap Json.asStr = names := by
  induction names with
  | nil => rfl
  | cons name names ih =>
    rw [List.map_cons, List.filterMap_cons, ih]
    rfl

/-- The names of a list of strings. -/
theorem existingRequired_eq {obj : JsonFields} {names : List String}
    (h : obj.get? "required" = some (.ofList (names.map .string))) : existingRequired obj = names := by
  simp only [existingRequired, h, Json.ofList, JsonItems.toList_ofList, filterMap_asStr]

theorem close_eq_self {obj : JsonFields} (h : obj.get? "properties" = some (.object obj.properties))
    (hrequired : obj.get? "required" = some (.ofList (obj.properties.keys.map .string)))
    (hadditional : obj.get? "additionalProperties" = some (.bool false)) : close obj obj.properties = obj := by
  rw [close, JsonFields.insert_eq_self h, JsonFields.insert_eq_self hrequired, JsonFields.insert_eq_self hadditional]

/-- An object of fixed points is a fixed point. -/
theorem AlreadyStrict.fixed {obj : JsonFields} (h : AlreadyStrict obj) : Fixed (.object obj) := by
  intro path
  have hvariants : ∀ c ∈ combinators, ∃ new, strictifyVariants path c obj = .ok new ∧
      ∀ v, new = some v → obj.get? c = some v := by
    intro c hc
    rw [strictifyVariants_eq]
    split
    · rename_i variants hget
      refine ⟨some (.array variants), ?_, fun v hv => hv ▸ hget⟩
      rw [strictifyEach_fixed (h.variants c hc variants hget)]
      rfl
    · exact ⟨none, rfl, by simp⟩
  obtain ⟨oneOf, hone, hone'⟩ := hvariants "oneOf" (by decide)
  obtain ⟨anyOf, hany, hany'⟩ := hvariants "anyOf" (by decide)
  obtain ⟨allOf, hall, hall'⟩ := hvariants "allOf" (by decide)
  have hitems : ∃ new, strictifyItems path obj = .ok new ∧ ∀ v, new = some v → obj.get? "items" = some v := by
    rw [strictifyItems_eq]
    split
    · rename_i v hget
      refine ⟨some v, ?_, fun w hw => hw ▸ hget⟩
      rw [h.items v hget]
      rfl
    · exact ⟨none, rfl, by simp⟩
  obtain ⟨items, hitems, hitems'⟩ := hitems
  have hclose : ∃ new, strictifyProperties path (existingRequired obj) obj = .ok new ∧ closeNode obj new = obj := by
    cases hclosed : obj.closes with
    | true =>
      obtain ⟨hprops, hrequired, hadditional, hfixed⟩ := h.properties hclosed
      refine ⟨some obj.properties, ?_, close_eq_self hprops hrequired hadditional⟩
      rw [strictifyProperties_eq, hprops, existingRequired_eq hrequired]
      simp only [strictifyEntries_fixed hfixed fun _ hk => hk]
      rfl
    | false =>
      have hopen : (∀ p, obj.get? "properties" ≠ some (.object p)) ∧ obj.get? "type" ≠ some (.string "object") := by
        unfold JsonFields.closes at hclosed
        split at hclosed
        · cases hclosed
        · rename_i hget
          exact ⟨hget, by simpa using hclosed⟩
      refine ⟨none, ?_, by rw [closeNode, if_neg hopen.2]⟩
      rw [strictifyProperties_eq]
      split
      · exact absurd ‹_› (hopen.1 _)
      · rfl
  obtain ⟨properties, hproperties, hsame⟩ := hclose
  have hupdate :
      (((obj.update "oneOf" oneOf).update "anyOf" anyOf).update "allOf" allOf).update "items" items = obj := by
    rw [JsonFields.update_eq_self hone', JsonFields.update_eq_self hany', JsonFields.update_eq_self hall',
      JsonFields.update_eq_self hitems']
  simp [strictifyNode, h.dictionary, hone, hany, hall, hitems, hproperties, hupdate, hsame, bind, Except.bind, pure,
    Except.pure]

/-- A type may be added. -/
theorem AlreadyStrict.insert_type {obj : JsonFields} (h : AlreadyStrict obj) (htype : obj.contains "type" = false) :
    AlreadyStrict (obj.insert "type" anyType) := by
  have hother : ∀ k, k ≠ "type" → (obj.insert "type" anyType).get? k = obj.get? k :=
    fun k hk => JsonFields.get?_insert_of_ne hk
  have hprops : (obj.insert "type" anyType).properties = obj.properties := by
    rw [JsonFields.properties, JsonFields.properties, hother _ (by decide)]
  have hnone : obj.get? "type" = none := by simpa [JsonFields.contains] using htype
  have hcloses : (obj.insert "type" anyType).closes = obj.closes := by
    rw [JsonFields.closes, JsonFields.closes, hother _ (by decide), JsonFields.get?_insert_self, hnone]
    rfl
  refine ⟨?_, fun c hc variants hget => ?_, fun v hget => ?_, fun hclosed => ?_⟩
  · rw [isOpenDictionary, hother _ (by decide)]
    exact h.dictionary
  · rw [hother c (by rintro rfl; exact absurd hc (by decide))] at hget
    exact h.variants c hc variants hget
  · rw [hother _ (by decide)] at hget
    exact h.items v hget
  · rw [hprops, hother _ (by decide), hother _ (by decide), hother _ (by decide)]
    exact h.properties (hcloses.symm.trans hclosed)

/-- A result, or a result that was made nullable, is a fixed point. -/
private def Fixes (v : Json) : Prop := ∀ v', SchemaImage v v' → Fixed v'

private theorem fixed_of_list {l l' : List Json} (h : List.Forall₂ Strict l l') (hfixes : ∀ v ∈ l, Fixes v) :
    ∀ v' ∈ l', Fixed v' := by
  induction h with
  | nil => simp
  | cons hv _ ih =>
    intro v' hv'
    rcases List.mem_cons.mp hv' with rfl | hv'
    · exact hfixes _ List.mem_cons_self _ (strict_image hv)
    · exact ih (fun v hv => hfixes v (List.mem_cons_of_mem _ hv)) v' hv'

private theorem fixed_of_entries {l l' : List (String × Json)} (h : List.Forall₂ EntryImage l l')
    (hfixes : ∀ e ∈ l, Fixes e.2) : ∀ e' ∈ l', Fixed e'.2 := by
  induction h with
  | nil => simp
  | cons he _ ih =>
    intro e' he'
    rcases List.mem_cons.mp he' with rfl | he'
    · exact hfixes _ List.mem_cons_self _ he.2
    · exact ih (fun e he => hfixes e (List.mem_cons_of_mem _ he)) e' he'

/-- What the conversion makes of an object, if it makes fixed points of everything smaller. -/
private theorem alreadyStrict_of_strictified {obj obj' : JsonFields} (h : Strictified obj obj')
    (hfixes : ∀ v, sizeOf v < sizeOf obj → Fixes v) : AlreadyStrict obj' := by
  refine ⟨?_, fun c hc variants' hget => ?_, fun v' hget => ?_, fun hclosed' => ?_⟩
  · cases hclosed : obj.closes with
    | true =>
      obtain ⟨-, -, -, -, hadditional⟩ := h.closed hclosed
      rw [isOpenDictionary, hadditional]
    | false =>
      have hdictionary := h.dictionary
      rwa [isOpenDictionary, ← h.imaged.opened hclosed "additionalProperties" (by decide)] at hdictionary
  · obtain ⟨v, hv, hvariants⟩ := rel_right (h.variants c hc) hget
    cases v with
    | array variants =>
      obtain ⟨_, heq, hall⟩ := hvariants
      obtain rfl := Json.array.inj heq
      refine fixed_of_list hall fun w hw => hfixes w ?_
      have hitems := JsonItems.sizeOf_lt_of_mem hw
      have harray := JsonFields.sizeOf_lt_of_get? hv
      simp only [Json.array.sizeOf_spec] at harray
      omega
    | _ => cases hvariants
  · obtain ⟨v, hv, hstrict⟩ := rel_right h.items hget
    exact hfixes v (JsonFields.sizeOf_lt_of_get? hv) v' (strict_image hstrict)
  · have hclosed : obj.closes = true := by
      by_contra hopen
      have hopen := Bool.eq_false_iff.mpr hopen
      have htype := h.left "type" (by decide) (by decide) fun _ => by decide
      rw [JsonFields.closes, h.imaged.opened hopen "properties" (by decide), htype, ← JsonFields.closes,
        hopen] at hclosed'
      cases hclosed'
    obtain ⟨p', hentries, hp', hrequired, hadditional⟩ := h.closed hclosed
    have hsame : obj'.properties = p' := by rw [JsonFields.properties, hp']
    rw [hsame]
    refine ⟨hp', hrequired, hadditional, fixed_of_entries (hentries.imp fun _ _ => strictEntry_image) fun e he =>
      hfixes e.2 ?_⟩
    have hentry := JsonFields.sizeOf_lt_of_mem he
    rcases obj.properties_cases with hget | ⟨-, hnil⟩
    · have hobject := JsonFields.sizeOf_lt_of_get? hget
      simp only [Json.object.sizeOf_spec] at hobject
      omega
    · rw [hnil] at he
      cases he

/-- Every result of the conversion is a fixed point, also after it was made nullable. -/
theorem schemaImage_fixed (v v' : Json) (h : SchemaImage v v') : Fixed v' := by
  induction hn : sizeOf v using Nat.strongRecOn generalizing v v' with
  | ind n ih =>
    cases v with
    | object obj =>
      obtain ⟨w, hw, hv'⟩ := h
      obtain ⟨obj', rfl, hobj'⟩ := strict_object hw
      have hstrict : AlreadyStrict obj' := alreadyStrict_of_strictified hobj' fun x hx x' hx' =>
        ih (sizeOf x) (by simp only [Json.object.sizeOf_spec] at hn; omega) x x' hx' rfl
      rcases hv' with rfl | hv'
      · exact hstrict.fixed
      · rcases nullable_cases hv' with rfl | ⟨_, heq, htype, rfl⟩
        · exact hstrict.fixed
        · obtain rfl := Json.object.inj heq
          exact (hstrict.insert_type htype).fixed
    | _ =>
      obtain rfl := schemaImage_other rfl h
      exact fun _ => rfl

/-- A second conversion changes nothing. -/
theorem toStrictSchema_idempotent {s t : Json} (h : toStrictSchema s = .ok t) : toStrictSchema t = .ok t := by
  obtain ⟨v, hv, hnode⟩ := bind_ok h
  have hfixed : Fixed t := schemaImage_fixed v t (strict_image ⟨_, hnode⟩)
  have hdefinitions : strictDefinitions t = .ok t := by
    cases hs : s.isObject with
    | false =>
      obtain rfl := toStrictSchema_other hs h
      cases t with
      | object obj => cases hs
      | _ => rfl
    | true =>
      cases s with
      | object obj =>
        obtain ⟨obj', rfl, -, hrel⟩ := toStrictSchema_object h
        cases hget' : obj'.get? "definitions" with
        | none => simp only [strictDefinitions, hget']
        | some d' =>
          cases d' with
          | object definitions' =>
            obtain ⟨d, hd, himage⟩ := rel_right hrel hget'
            unfold DefinitionsImage at himage
            split at himage
            · obtain ⟨f, f', rfl, heq, hentries⟩ := himage
              obtain rfl := Json.object.inj heq
              have hall := fixed_of_entries hentries fun e _ v' hv' => schemaImage_fixed e.2 v' hv'
              simp only [strictDefinitions, hget', strictifyDefinitions_fixed hall, bind, Except.bind, pure,
                Except.pure, JsonFields.replace_eq_self hget']
            · rename_i hobject
              rw [← himage] at hobject
              exact absurd rfl hobject
          | _ => simp only [strictDefinitions, hget']
      | _ => cases hs
  simp only [toStrictSchema, hdefinitions]
  exact hfixed "$"

/-! ### What is kept -/

def Json.typeKeyword : Json → Option Json
  | .object obj => obj.get? "type"
  | _ => none

/-- The names of the properties are kept, and the types of the required ones. -/
structure Conserves (obj obj' : JsonFields) : Prop where
  names : obj'.properties.keys = obj.properties.keys
  types : ∀ key ∈ existingRequired obj, ∀ p, obj.properties.get? key = some p →
    ∃ p', obj'.properties.get? key = some p' ∧ p'.typeKeyword = p.typeKeyword

theorem strict_typeKeyword {v v' : Json} (h : Strict v v') : v'.typeKeyword = v.typeKeyword := by
  cases v with
  | object obj =>
    obtain ⟨obj', rfl, hobj'⟩ := strict_object h
    exact hobj'.left "type" (by decide) (by decide) fun _ => by decide
  | _ =>
    obtain rfl := strict_other (by simp) h
    rfl

/-- A required property is made strict and nothing else. -/
theorem entries_required {required : List String} {f f' : JsonFields} {key : String} {p : Json}
    (h : List.Forall₂ (StrictEntry required) f.toList f'.toList) (hkey : key ∈ required) (hp : f.get? key = some p) :
    ∃ p', f'.get? key = some p' ∧ Strict p p' := by
  induction f generalizing f' with
  | nil => cases hp
  | cons k v rest ih =>
    cases f' with
    | nil => cases h
    | cons k' v' rest' =>
      obtain ⟨⟨hk, w, hw, hv'⟩, hrest⟩ := List.forall₂_cons.mp h
      obtain rfl : k' = k := hk
      unfold JsonFields.get? at hp ⊢
      by_cases hsame : k' = key
      · subst hsame
        rw [if_pos rfl] at hp ⊢
        obtain rfl := Option.some.inj hp
        rw [if_pos (List.contains_iff_mem.mpr hkey)] at hv'
        obtain rfl : v' = w := hv'
        exact ⟨v', rfl, hw⟩
      · rw [if_neg hsame] at hp ⊢
        exact ih hrest hp

theorem Imaged.conserves {obj obj' : JsonFields} (h : Imaged obj obj') : Conserves obj obj' := by
  refine ⟨h.names, fun key hkey p hp => ?_⟩
  cases hclosed : obj.closes with
  | true =>
    obtain ⟨p', hentries, hp', -, -⟩ := h.closed hclosed
    have hsame : obj'.properties = p' := by rw [JsonFields.properties, hp']
    obtain ⟨q, hq, hstrict⟩ := entries_required hentries hkey hp
    exact ⟨q, by rw [hsame, hq], strict_typeKeyword hstrict⟩
  | false =>
    have hsame : obj'.properties = obj.properties := by
      rw [JsonFields.properties, JsonFields.properties, h.opened hclosed "properties" (by decide)]
    exact ⟨p, by rw [hsame, hp], rfl⟩

/-- The conversion is idempotent, and at every node of the document that is an object it keeps the names of the
properties and the types of the required ones. -/
theorem strict_conservative {s t : Json} (h : toStrictSchema s = .ok t) :
    toStrictSchema t = .ok t ∧ ∀ pointer place obj, place.isNode = true →
      locate .root s pointer = some (place, .object obj) →
      ∃ obj', locate .root t pointer = some (place, .object obj') ∧ Conserves obj obj' := by
  refine ⟨toStrictSchema_idempotent h, fun pointer place obj hnode hlocate => ?_⟩
  obtain ⟨obj', hobj', hcases⟩ := object_image h hnode hlocate
  refine ⟨obj', hobj', ?_⟩
  rcases hcases with ⟨-, himaged⟩ | ⟨-, rfl⟩
  · exact himaged.conserves
  · exact ⟨rfl, fun key _ p hp => ⟨p, hp, rfl⟩⟩

/-- The arguments of a request: the address, and a body of any shape that may be missing. -/
def requestArgs : Json :=
  .object (.cons "properties"
    (.object (.cons "body" (.object (.cons "default" .null .nil))
      (.cons "url" (.object (.cons "type" (.string "string") .nil)) .nil)))
    (.cons "required" (.ofList [.string "url"]) (.cons "type" (.string "object") .nil)))

theorem strict_conservative_requestArgs : ∃ t obj', toStrictSchema requestArgs = .ok t ∧ toStrictSchema t = .ok t ∧
    locate .root t [] = some (.root, .object obj') ∧ obj'.properties.keys = ["body", "url"] ∧
    ∃ url, obj'.properties.get? "url" = some url ∧ url.typeKeyword = some (.string "string") := by
  obtain ⟨hagain, hkeeps⟩ := strict_conservative (rfl : toStrictSchema requestArgs = .ok _)
  obtain ⟨obj', hobj', hconserves⟩ := hkeeps [] .root _ rfl rfl
  obtain ⟨url, hurl, htype⟩ := hconserves.types "url" (by decide) _ rfl
  exact ⟨_, obj', rfl, hagain, hobj', hconserves.names, url, hurl, htype⟩

end AgentVerse
