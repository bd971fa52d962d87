import AgentVerse.Tools.References

/-!
# Closed objects

Which objects of a strict schema are closed. A node leads on through its properties, its items and the alternatives of
its combinators, and it refers to others by its local `$ref`; what is reached from the root of the result stands where
the same is reached in the document (`reaches_iff`), and the conversion closes the nodes that it visits and takes for
objects.
-/

namespace AgentVerse

/-! ### What is reached -/

/-- The number of elements of an array. -/
def JsonFields.width (obj : JsonFields) (key : String) : Nat :=
  match obj.get? key with
  | some (.array items) => items.toList.length
  | _ => 0

/-- The locations that an object at a location leads to. -/
def JsonFields.leads (obj : JsonFields) (pointer : List String) : List (List String) :=
  obj.properties.keys.map (fun key => pointer ++ ["properties", key]) ++
  (if obj.contains "items" then [pointer ++ ["items"]] else []) ++
  ("items" :: combinators).flatMap (fun key =>
    (List.range (obj.width key)).map fun i => pointer ++ [key, toString i])

/-- The locations of the schemas that are reached from the root. -/
inductive ReachesSchema (s : Json) : List String → Prop
  | root : ReachesSchema s []
  | edge {pointer target : List String} {place place' : Place} {obj : JsonFields} {v : Json} :
      ReachesSchema s pointer → locate .root s pointer = some (place, .object obj) → target ∈ obj.leads pointer →
      locate .root s target = some (place', v) → place'.isNode = true → ReachesSchema s target
  | ref {pointer target : List String} {place place' : Place} {obj : JsonFields} {ref : String} {v : Json} :
      ReachesSchema s pointer → locate .root s pointer = some (place, .object obj) →
      obj.get? "$ref" = some (.string ref) → Refers s pointer ref target →
      locate .root s target = some (place', v) → place'.isNode = true → ReachesSchema s target

/-- The type is "object", or an array of "object" and possibly "null". -/
def JsonFields.describesObject (obj : JsonFields) : Bool :=
  match obj.get? "type" with
  | some (.string name) => name = "object"
  | some (.array names) =>
    names.toList.contains (.string "object") &&
      names.toList.all fun v => v = .string "object" || v = .string "null"
  | _ => false

/-- No other properties, and all of them required. -/
def ClosedObject (obj : JsonFields) : Prop :=
  obj.get? "additionalProperties" = some (.bool false) ∧
  ∃ names : List String, obj.get? "required" = some (.ofList (names.map .string)) ∧
    ∀ key, key ∈ names ↔ key ∈ obj.properties.keys

/-- Every schema of an object that is reached is closed. -/
def AllClosed (t : Json) : Prop :=
  ∀ pointer place obj, ReachesSchema t pointer → locate .root t pointer = some (place, .object obj) →
    obj.describesObject = true → ClosedObject obj

/-- What is reached is a node. -/
theorem ReachesSchema.isNode {s v : Json} {place : Place} {pointer : List String} (h : ReachesSchema s pointer)
    (hlocate : locate .root s pointer = some (place, v)) : place.isNode = true := by
  cases h with
  | root =>
    obtain ⟨rfl, -⟩ := Prod.mk.inj (Option.some.inj hlocate)
    rfl
  | edge _ _ _ htarget hnode | ref _ _ _ _ htarget hnode =>
    rw [htarget] at hlocate
    obtain ⟨rfl, -⟩ := Prod.mk.inj (Option.some.inj hlocate)
    exact hnode

/-! ### Images of nodes -/

theorem entries_keys {required : List String} {f f' : JsonFields}
    (h : List.Forall₂ (StrictEntry required) f.toList f'.toList) : f'.keys = f.keys := by
  unfold JsonFields.keys
  generalize f.toList = l, f'.toList = l' at h
  induction h with
  | nil => rfl
  | cons he _ ih => rw [List.map_cons, List.map_cons, he.1, ih]

/-- The names of the properties stay. -/
theorem Imaged.names {obj obj' : JsonFields} (h : Imaged obj obj') : obj'.properties.keys = obj.properties.keys := by
  cases hclosed : obj.closes with
  | true =>
    obtain ⟨p', hentries, hp', -, -⟩ := h.closed hclosed
    have hsame : obj'.properties = p' := by rw [JsonFields.properties, hp']
    rw [hsame, entries_keys hentries]
  | false => rw [JsonFields.properties, JsonFields.properties, h.opened hclosed "properties" (by decide)]

theorem Imaged.leads {obj obj' : JsonFields} (h : Imaged obj obj') (pointer : List String) :
    obj'.leads pointer = obj.leads pointer := by
  have hcontains : obj'.contains "items" = obj.contains "items" := by
    unfold JsonFields.contains
    cases hv : obj.get? "items" with
    | none => rw [rel_none h.items hv]
    | some v =>
      obtain ⟨v', hv', -⟩ := rel_left h.items hv
      rw [hv']
      rfl
  have hitems : obj'.width "items" = obj.width "items" := by
    unfold JsonFields.width
    cases hv : obj.get? "items" with
    | none => rw [rel_none h.items hv]
    | some v =>
      obtain ⟨v', hv', hstrict⟩ := rel_left h.items hv
      rw [hv']
      cases v with
      | object f =>
        obtain ⟨f', rfl, -⟩ := strict_object hstrict
        rfl
      | _ =>
        obtain rfl := strict_other (by simp) hstrict
        rfl
  have hvariants : ∀ c ∈ combinators, obj'.width c = obj.width c := by
    intro c hc
    unfold JsonFields.width
    cases hv : obj.get? c with
    | none => rw [rel_none (h.variants c hc) hv]
    | some v =>
      obtain ⟨v', hv', hvariants⟩ := rel_left (h.variants c hc) hv
      rw [hv']
      cases v with
      | array variants =>
        obtain ⟨variants', rfl, hall⟩ := hvariants
        exact hall.length_eq.symm
      | _ =>
        obtain rfl := hvariants
        rfl
  have hwidths : ("items" :: combinators).flatMap (fun key =>
      (List.range (obj'.width key)).map fun i => pointer ++ [key, toString i]) =
      ("items" :: combinators).flatMap (fun key =>
        (List.range (obj.width key)).map fun i => pointer ++ [key, toString i]) := by
    refine List.flatMap_congr fun key hkey => ?_
    rcases List.mem_cons.mp hkey with rfl | hkey
    · rw [hitems]
    · rw [hvariants key hkey]
  rw [JsonFields.leads, JsonFields.leads, h.names, hcontains, hwidths]

theorem Imaged.describesObject {obj obj' : JsonFields} (h : Imaged obj obj') :
    obj'.describesObject = obj.describesObject := by
  unfold JsonFields.describesObject
  rcases h.type with hsame | ⟨hnone, hany⟩
  · rw [hsame]
  · rw [hnone, hany]
    decide

/-- The image of a node is closed if the conversion closes it, or if the node was closed. -/
theorem Imaged.closedObject_iff {obj obj' : JsonFields} (h : Imaged obj obj') :
    ClosedObject obj' ↔ ClosedObject obj ∨ obj.closes = true := by
  cases hclosed : obj.closes with
  | true =>
    obtain ⟨p', -, hp', hrequired, hadditional⟩ := h.closed hclosed
    have hsame : obj'.properties = p' := by rw [JsonFields.properties, hp']
    exact ⟨fun _ => .inr rfl, fun _ => ⟨hadditional, p'.keys, hrequired, fun key => by rw [hsame]⟩⟩
  | false =>
    have hsame := h.opened hclosed
    rw [ClosedObject, ClosedObject, hsame "additionalProperties" (by decide), hsame "required" (by decide), h.names]
    simp

private theorem ref_eq {place : Place} {obj obj' : JsonFields}
    (hcases : ((place = .root ∨ place = .schema) ∧ Imaged obj obj') ∨ (place = .other ∧ obj' = obj)) :
    obj'.get? "$ref" = obj.get? "$ref" := by
  rcases hcases with ⟨-, himaged⟩ | ⟨-, rfl⟩
  · exact himaged.left "$ref" (by decide) (by decide) (by decide) (by decide) (by decide)
  · rfl

private theorem leads_eq {place : Place} {obj obj' : JsonFields}
    (hcases : ((place = .root ∨ place = .schema) ∧ Imaged obj obj') ∨ (place = .other ∧ obj' = obj))
    (pointer : List String) : obj'.leads pointer = obj.leads pointer := by
  rcases hcases with ⟨-, himaged⟩ | ⟨-, rfl⟩
  · exact himaged.leads pointer
  · rfl

/-! ### The result -/

/-- Every object schema that is reached is one that the conversion visits and takes for an object, or it is closed. -/
def Closable (s : Json) : Prop :=
  ∀ pointer place obj, ReachesSchema s pointer → locate .root s pointer = some (place, .object obj) →
    obj.describesObject = true → ((place = .root ∨ place = .schema) ∧ obj.closes = true) ∨ ClosedObject obj

section

variable {s t : Json} (h : toStrictSchema s = .ok t)

include h

/-- The same locations are reached in the document and in the result. -/
theorem reaches_iff {pointer : List String} : ReachesSchema t pointer ↔ ReachesSchema s pointer := by
  constructor
  -- an edge of the result is one of the document, since the nodes at both ends are images
  · intro hreaches
    induction hreaches with
    | root => exact .root
    | edge hpointer hlocate htarget htarget' hnode ih =>
      obtain ⟨obj, hobj, hcases⟩ := object_preimage h (hpointer.isNode hlocate) hlocate
      obtain ⟨w, hw⟩ := locate_preimage (image_root h) htarget' hnode
      rw [leads_eq hcases] at htarget
      exact .edge ih hobj htarget hw hnode
    | ref hpointer hlocate href hrefers htarget' hnode ih =>
      obtain ⟨obj, hobj, hcases⟩ := object_preimage h (hpointer.isNode hlocate) hlocate
      obtain ⟨w, hw⟩ := locate_preimage (image_root h) htarget' hnode
      exact .ref ih hobj (ref_eq hcases ▸ href) ((refers_iff h).mp hrefers) hw hnode
  · intro hreaches
    induction hreaches with
    | root => exact .root
    | edge hpointer hlocate htarget htarget' hnode ih =>
      obtain ⟨obj', hobj', hcases⟩ := object_image h (hpointer.isNode hlocate) hlocate
      obtain ⟨w', hw', -⟩ := locate_image (image_root h) htarget' (by rintro rfl; cases hnode)
      rw [← leads_eq hcases] at htarget
      exact .edge ih hobj' htarget hw' hnode
    | ref hpointer hlocate href hrefers htarget' hnode ih =>
      obtain ⟨obj', hobj', hcases⟩ := object_image h (hpointer.isNode hlocate) hlocate
      obtain ⟨w', hw', -⟩ := locate_image (image_root h) htarget' (by rintro rfl; cases hnode)
      exact .ref ih hobj' ((ref_eq hcases).trans href) ((refers_iff h).mpr hrefers) hw' hnode

/-- The conversion closes every object schema that is reached, or it is closed already. -/
theorem allClosed_iff : AllClosed t ↔ Closable s := by
  constructor
  · intro hall pointer place obj hreaches hlocate hobject
    obtain ⟨obj', hobj', hcases⟩ := object_image h (hreaches.isNode hlocate) hlocate
    rcases hcases with ⟨hvisited, himaged⟩ | ⟨-, rfl⟩
    · have hclosed := hall pointer place obj' ((reaches_iff h).mpr hreaches) hobj'
        (himaged.describesObject.trans hobject)
      rcases himaged.closedObject_iff.mp hclosed with hbefore | hcloses
      · exact .inr hbefore
      · exact .inl ⟨hvisited, hcloses⟩
    · exact .inr (hall pointer place obj' ((reaches_iff h).mpr hreaches) hobj' hobject)
  · intro hall pointer place obj' hreaches hlocate hobject
    obtain ⟨obj, hobj, hcases⟩ := object_preimage h (hreaches.isNode hlocate) hlocate
    have hreached := (reaches_iff h).mp hreaches
    rcases hcases with ⟨-, himaged⟩ | ⟨hother, rfl⟩
    · have hcondition := hall pointer place obj hreached hobj (himaged.describesObject.symm.trans hobject)
      rw [himaged.closedObject_iff]
      rcases hcondition with ⟨-, hcloses⟩ | hbefore
      · exact .inr hcloses
      · exact .inl hbefore
    · rcases hall pointer place obj' hreached hobj hobject with ⟨hvisited, -⟩ | hbefore
      · rw [hother] at hvisited
        simp at hvisited
      · exact hbefore

end

/-- The schema of a tool without arguments. -/
def emptyArgs : Json := .object (.cons "type" (.string "object") .nil)

/-- An argument that is an object of any shape or null. -/
def nullableArg : Json :=
  .object (.cons "properties"
    (.object (.cons "opts" (.object (.cons "type" (.ofList [.string "object", .string "null"]) .nil)) .nil))
    (.cons "required" (.ofList [.string "opts"]) (.cons "type" (.string "object") .nil)))

end AgentVerse
