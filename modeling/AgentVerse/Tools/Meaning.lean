import AgentVerse.Tools.Harmless

/-!
# Strict schemas and their meaning

Whether the conversion keeps the meaning of a document: every instance of the result is an instance of the document, and
there is one if the document has one. The instances of the result are the complete ones, so this is a matter of the
document alone. It is so if closing does no harm, and a document that has an instance, and of which closing changes
records only, keeps its meaning in no other case (`strict_meaning_kept`).
-/

namespace AgentVerse

open Relation

variable {rd : Numbers} {s : Json} {place : Place} {v i : Json} {obj : JsonFields}

/-! ### Records -/

/-- What is no object applies nothing. -/
theorem not_reach_object {place' : Place} (h : v.isObject = false) :
    ¬ ReflTransGen (Applies s) (place, v) (place', .object obj) := by
  intro hreach
  rcases ReflTransGen.cases_head hreach with heq | ⟨y, happlies, -⟩
  · cases heq
    cases h
  · cases happlies <;> cases h

theorem untouched_of_not_object (h : v.isObject = false) : Untouched s (place, v) :=
  fun _ _ hreach => absurd hreach (not_reach_object h)

theorem ClosedObject.declared (h : ClosedObject obj) {key : String} (hkey : key ∈ existingRequired obj) :
    obj.properties.contains key = true := by
  obtain ⟨-, names, hnames, hkeys⟩ := h
  rw [existingRequired_eq hnames] at hkey
  exact JsonFields.mem_keys_iff.mp ((hkeys key).mp hkey)

theorem Untouched.namesRequired (h : Untouched s (place, v)) : Throughout s NamesRequired (place, v) :=
  fun place obj hreach hfree hclosing _ hkey => (h place obj hreach hfree hclosing).declared hkey

theorem Untouched.closeable (h : Untouched s (place, v)) : Throughout s (Closeable rd s) (place, v) := by
  intro place' obj hreach hfree
  refine ⟨h.namesRequired place' obj hreach hfree, fun hclosing key p hp hnot => ?_, .inl fun _ _ hreach' =>
    h _ _ (hreach.trans hreach')⟩
  have hcontains : obj.properties.contains key = true := by rw [JsonFields.contains, hp, Option.isSome_some]
  exact absurd ((h place' obj hreach hfree hclosing).required hcontains) hnot

/-- The schema is one of objects, of which it constrains the members that it names. -/
structure JsonFields.IsRecord (rd : Numbers) (obj : JsonFields) : Prop where
  parts : obj.OnlyParts
  type : ∀ i, typeAllows rd obj i = true → i.isObject = true
  additional : ∀ f, obj.get? "additionalProperties" ≠ some (.object f)
  items : obj.get? "items" = none

/-- What closing changes of a schema are records, and the members and references that lead to them. -/
def OfRecords (rd : Numbers) (s : Json) : Place × Json → Prop :=
  Throughout s fun place obj => Untouched s (place, .object obj) ∨ (closing place obj = true ∧ obj.IsRecord rd)

/-- Records with a complete instance can be filled. -/
theorem fillable_of_complete (h : Complete rd s place v i) (hrecords : OfRecords rd s (place, v)) :
    ∃ i', Fillable rd s place v i' := by
  induction h with
  | @any place i => exact ⟨i, .untouched (untouched_of_not_object rfl) .any⟩
  | ref href htarget _ ih =>
    obtain ⟨i', hi'⟩ := ih (hrecords.step (.ref href htarget))
    exact ⟨i', .ref href htarget hi'⟩
  | @object place obj variant i hfree htype henum hkeys hrequired hmembers helements hchoice hvariant hconjuncts ihm =>
    rcases hrecords place obj .refl hfree with huntouched | ⟨hclosing, hrecord⟩
    · exact ⟨i, .untouched huntouched (valid_of_namesRequired (.object hfree htype henum hkeys hrequired hmembers helements
        hchoice hvariant hconjuncts) huntouched.namesRequired)⟩
    · have hobject := hrecord.type i htype
      have hparts : ∀ key, ∃ x, key ∈ wanted place obj → ∀ p, obj.memberSchema key = some p →
          Fillable rd s (memberSchemaPlace place obj key) p x := by
        intro key
        by_cases hkey : key ∈ wanted place obj
        · rw [wanted, if_pos hclosing, JsonFields.mem_keys_iff, ← hkeys hclosing hobject] at hkey
          obtain ⟨x, hx⟩ := Option.isSome_iff_exists.mp hkey
          cases hp : obj.memberSchema key with
          | none => exact ⟨.null, fun _ p h => by cases h⟩
          | some p =>
            obtain ⟨x', hx'⟩ := ihm key x p hx hp (hrecords.step (.member hfree hp))
            exact ⟨x', fun _ p' h => Option.some.inj h ▸ hx'⟩
        · exact ⟨.null, fun h => absurd h hkey⟩
      choose parts hparts using hparts
      cases i with
      | object f =>
        exact ⟨_, .object hfree hrecord.parts (((sameType_object f .nil).typeAllows rd obj).trans htype) hparts⟩
      | _ => cases hobject

theorem Complete.of_ref {place' : Place} {ref : String} (h : Complete rd s place (.object obj) i)
    (href : obj.get? "$ref" = some (.string ref)) (htarget : refNode s ref = some (place', v)) :
    Complete rd s place' v i := by
  cases h with
  | object hfree => exact absurd href (hfree _)
  | ref href' htarget' h =>
    obtain rfl := Json.string.inj (Option.some.inj (href'.symm.trans href))
    obtain ⟨rfl, rfl⟩ := Prod.mk.inj (Option.some.inj (htarget'.symm.trans htarget))
    exact h

theorem Valid.of_ref {place' : Place} {ref : String} (h : Valid rd s (.object obj) i)
    (href : obj.get? "$ref" = some (.string ref)) (htarget : refNode s ref = some (place', v)) : Valid rd s v i := by
  cases h with
  | object hfree => exact absurd href (hfree _)
  | ref href' htarget' h =>
    obtain rfl := Json.string.inj (Option.some.inj (href'.symm.trans href))
    obtain ⟨-, rfl⟩ := Prod.mk.inj (Option.some.inj (htarget'.symm.trans htarget))
    exact h

/-- A complete instance of a record, and its members. -/
theorem JsonFields.IsRecord.members (hrecord : obj.IsRecord rd) (hclosing : closing place obj = true)
    (hfree : obj.RefFree) (h : Complete rd s place (.object obj) i) :
    i.isObject = true ∧ (∀ key, i.members.contains key = obj.properties.contains key) ∧
      ∀ key x p, i.members.get? key = some x → obj.memberSchema key = some p →
        Complete rd s (memberSchemaPlace place obj key) p x := by
  cases h with
  | ref href => exact absurd href (hfree _)
  | object _ htype _ hkeys _ hmembers =>
    have hobject := hrecord.type i htype
    exact ⟨hobject, hkeys hclosing hobject, hmembers⟩

theorem Valid.members (h : Valid rd s (.object obj) i) (hfree : obj.RefFree) :
    (i.isObject = true → ∀ key ∈ existingRequired obj, i.members.contains key = true) ∧
      ∀ key x p, i.members.get? key = some x → obj.memberSchema key = some p → Valid rd s p x := by
  cases h with
  | ref href => exact absurd href (hfree _)
  | object _ _ _ hrequired hmembers => exact ⟨hrequired, hmembers⟩

/-- Closing changes nothing of a schema, or it has a complete instance that is one of the document. -/
def Met (rd : Numbers) (s : Json) (x : Place × Json) : Prop :=
  Untouched s x ∨ ∃ i, Complete rd s x.1 x.2 i ∧ Valid rd s x.2 i

/-- What a record leads to. -/
theorem JsonFields.IsRecord.met (hrecord : obj.IsRecord rd) (hclosing : closing place obj = true) (hfree : obj.RefFree)
    (hcomplete : Complete rd s place (.object obj) i) (hvalid : Valid rd s (.object obj) i) {y : Place × Json}
    (happlies : Applies s (place, .object obj) y) : Met rd s y := by
  cases happlies with
  | ref href => exact absurd href (hfree _)
  | @member _ _ key p _ hp =>
    obtain ⟨-, hkeys, hmembers⟩ := hrecord.members hclosing hfree hcomplete
    cases hdeclared : obj.properties.contains key with
    | true =>
      obtain ⟨x, hx⟩ := Option.isSome_iff_exists.mp ((hkeys key).trans hdeclared)
      exact .inr ⟨x, hmembers key x p hx hp, (hvalid.members hfree).2 key x p hx hp⟩
    | false =>
      -- The schema of other members is no object.
      refine .inl (untouched_of_not_object ?_)
      have hnone : obj.properties.get? key = none := by simpa [JsonFields.contains] using hdeclared
      rw [JsonFields.memberSchema, hnone] at hp
      cases p with
      | object f => exact absurd hp (hrecord.additional f)
      | _ => rfl
  | element _ hp =>
    rw [JsonFields.elementSchema, hrecord.items] at hp
    cases hp
  | choice _ hmem =>
    rw [hrecord.parts.choices, List.mem_singleton] at hmem
    exact .inl (untouched_of_not_object (hmem ▸ rfl))
  | conjunct _ hmem =>
    rw [hrecord.parts.conjuncts] at hmem
    cases hmem

/-- What records lead to, where there is a complete instance that is one of the document. -/
theorem met_of_reach (h : Met rd s (place, v)) (hrecords : OfRecords rd s (place, v)) {y : Place × Json}
    (hreach : ReflTransGen (Applies s) (place, v) y) : Met rd s y := by
  induction hreach with
  | refl => exact h
  | @tail x y hreach happlies ih =>
    rcases ih with huntouched | ⟨i, hcomplete, hvalid⟩
    · exact .inl (huntouched.step happlies)
    · obtain ⟨place', v'⟩ := x
      cases v' with
      | object obj =>
        by_cases hfree : obj.RefFree
        · rcases hrecords place' obj hreach hfree with huntouched | ⟨hclosing, hrecord⟩
          · exact .inl (huntouched.step happlies)
          · exact hrecord.met hclosing hfree hcomplete hvalid happlies
        · cases happlies with
          | ref href htarget => exact .inr ⟨i, hcomplete.of_ref href htarget, hvalid.of_ref href htarget⟩
          | member h | element h | choice h | conjunct h => exact absurd h hfree
      | _ => cases happlies

/-- Closing does no harm to records that have a complete instance that is one of the document. -/
theorem closeable_of_met (h : Met rd s (place, v)) (hrecords : OfRecords rd s (place, v)) :
    Throughout s (Closeable rd s) (place, v) := by
  intro place' obj hreach hfree
  rcases met_of_reach h hrecords hreach with huntouched | ⟨i, hcomplete, hvalid⟩
  · exact huntouched.closeable place' obj .refl hfree
  · rcases hrecords place' obj hreach hfree with huntouched | ⟨hclosing, hrecord⟩
    · exact huntouched.closeable place' obj .refl hfree
    · obtain ⟨hobject, hkeys, hmembers⟩ := hrecord.members hclosing hfree hcomplete
      refine ⟨fun _ key hkey => ?_, fun _ key p hp _ => ?_, .inr (.inl hrecord.parts)⟩
      · rw [← hkeys key]
        exact (hvalid.members hfree).1 hobject key hkey
      · have hdeclared : obj.properties.contains key = true := by rw [JsonFields.contains, hp, Option.isSome_some]
        have hschema : obj.memberSchema key = some p := by rw [JsonFields.memberSchema, hp]
        obtain ⟨x, hx⟩ := Option.isSome_iff_exists.mp ((hkeys key).trans hdeclared)
        have hfill := fillable_of_complete (hmembers key x p hx hschema) fun place'' obj' hreach' =>
          hrecords place'' obj' ((hreach.tail (.member hfree hschema)).trans hreach')
        rwa [memberSchemaPlace, if_pos hdeclared] at hfill

/-! ### Meaning of documents -/

/-- Every instance of the result is one of the document, and there is one if the document has one. -/
def KeepsMeaning (rd : Numbers) (s t : Json) : Prop :=
  (∀ i, Valid rd t t i → Valid rd s s i) ∧ ((∃ i, Valid rd s s i) → ∃ i, Valid rd t t i)

/-- At the root of a document, what is required has to be declared: an object that is an instance of the result lacks it
otherwise. -/
theorem undeclared_changes {t : Json} (h : toStrictSchema (.object obj) = .ok t) (hfree : obj.RefFree)
    (hclosed : obj.closes = true) {key : String} (hkey : key ∈ existingRequired obj)
    (hnot : obj.properties.contains key = false) {f : JsonFields} (hvalid : Valid rd t t (.object f)) :
    ¬ Valid rd (.object obj) (.object obj) (.object f) := by
  intro hbefore
  have hcomplete := (valid_iff_complete h).mp hvalid
  cases hcomplete with
  | ref href => exact hfree _ href
  | object _ _ _ hkeys =>
    have hlacks : f.contains key = false := (hkeys (by rw [closing, hclosed]; rfl) rfl key).trans hnot
    have hhas : f.contains key = true := (hbefore.members hfree).1 rfl key hkey
    rw [hlacks] at hhas
    cases hhas

/-! ### Examples -/

/-- A schema of members leads to those of its properties. -/
theorem JsonFields.OnlyParts.applies (h : obj.OnlyParts) (href : obj.get? "$ref" = none)
    (hadditional : obj.get? "additionalProperties" = none) (hitems : obj.get? "items" = none) {y : Place × Json}
    (happlies : Applies s (place, .object obj) y) :
    y.2 = .bool true ∨ ∃ key, obj.properties.get? key = some y.2 := by
  cases happlies with
  | ref hsome => rw [href] at hsome; cases hsome
  | @member _ _ key p _ hp =>
    unfold JsonFields.memberSchema at hp
    split at hp
    · rename_i hq
      exact .inr ⟨key, hq.trans hp⟩
    · rw [hadditional] at hp
      cases hp
  | element _ hp => rw [JsonFields.elementSchema, hitems] at hp; cases hp
  | choice _ hv =>
    rw [h.choices, List.mem_singleton] at hv
    exact .inl hv
  | conjunct _ hv => rw [h.conjuncts] at hv; cases hv

/-- Floats are no integers, and values are equal if they are the same. -/
def Numbers.literal : Numbers := ⟨fun _ => false, fun v i => v = i⟩

/-- A string, and a string or null. -/
def textFields : JsonFields := .cons "type" (.string "string") .nil

def noteFields : JsonFields := .cons "type" (.ofList [.string "string", .string "null"]) .nil

/-- A path and possibly a note. -/
def noteArgsFields : JsonFields :=
  .cons "properties" (.object (.cons "note" (.object noteFields) (.cons "path" (.object textFields) .nil)))
    (.cons "required" (.ofList [.string "path"]) (.cons "type" (.string "object") .nil))

/-- Something is required that is not declared. -/
def requiredOnlyFields : JsonFields :=
  .cons "required" (.ofList [.string "path"]) (.cons "type" (.string "object") .nil)

def requiredOnly : Json := .object requiredOnlyFields

/-- The parts of the schema. -/
private theorem noteArgs_parts {x : Place × Json} (h : ReflTransGen (Applies (.object noteArgsFields))
    (.root, .object noteArgsFields) x) :
    x.2 = .object noteArgsFields ∨ x.2 = .object textFields ∨ x.2 = .object noteFields ∨ x.2 = .bool true := by
  induction h with
  | refl => exact .inl rfl
  | @tail x y _ hxy ih =>
    obtain ⟨place, v⟩ := x
    rcases ih with rfl | rfl | rfl | rfl
    · rcases JsonFields.OnlyParts.applies ⟨rfl, rfl, rfl⟩ rfl rfl rfl hxy with htrue | ⟨key, hkey⟩
      · exact .inr (.inr (.inr htrue))
      · have hproperties : noteArgsFields.properties =
            .cons "note" (.object noteFields) (.cons "path" (.object textFields) .nil) := rfl
        rw [hproperties] at hkey
        unfold JsonFields.get? at hkey
        split at hkey
        · exact .inr (.inr (.inl (Option.some.inj hkey).symm))
        · unfold JsonFields.get? at hkey
          split at hkey
          · exact .inr (.inl (Option.some.inj hkey).symm)
          · cases hkey
    · rcases JsonFields.OnlyParts.applies ⟨rfl, rfl, rfl⟩ rfl rfl rfl hxy with htrue | ⟨key, hkey⟩
      · exact .inr (.inr (.inr htrue))
      · cases hkey
    · rcases JsonFields.OnlyParts.applies ⟨rfl, rfl, rfl⟩ rfl rfl rfl hxy with htrue | ⟨key, hkey⟩
      · exact .inr (.inr (.inr htrue))
      · cases hkey
    · cases hxy

theorem noteArgs_closeable : Throughout (.object noteArgsFields) (Closeable .literal (.object noteArgsFields))
    (.root, .object noteArgsFields) := by
  intro place obj hreach hfree
  have hopen : ∀ obj : JsonFields, obj.closes = false → closing place obj = false := fun obj h => by
    rw [closing, h, Bool.and_false]
  have hleaf : ∀ obj : JsonFields, obj.closes = false → obj.OnlyParts →
      Closeable .literal (.object noteArgsFields) place obj := fun obj h hparts =>
    ⟨fun hclosed => (by rw [hopen obj h] at hclosed; cases hclosed),
      fun hclosed => (by rw [hopen obj h] at hclosed; cases hclosed), .inr (.inl hparts)⟩
  rcases noteArgs_parts hreach with hobj | hobj | hobj | hobj
  · obtain rfl := Json.object.inj hobj
    refine ⟨fun _ key hkey => ?_, fun _ key p hp hnot => ?_, .inr (.inl ⟨rfl, rfl, rfl⟩)⟩
    · obtain rfl : key = "path" := List.mem_singleton.mp hkey
      rfl
    · have hproperties : noteArgsFields.properties =
          .cons "note" (.object noteFields) (.cons "path" (.object textFields) .nil) := rfl
      rw [hproperties] at hp
      unfold JsonFields.get? at hp
      split at hp
      · obtain rfl := Option.some.inj hp
        exact ⟨.null, .value (fun ref h => by cases h) rfl rfl rfl rfl rfl rfl⟩
      · unfold JsonFields.get? at hp
        split at hp
        · rename_i hkey
          exact absurd (hkey ▸ List.mem_singleton_self _) hnot
        · cases hp
  · obtain rfl := Json.object.inj hobj
    exact hleaf _ rfl ⟨rfl, rfl, rfl⟩
  · obtain rfl := Json.object.inj hobj
    exact hleaf _ rfl ⟨rfl, rfl, rfl⟩
  · cases hobj

/-- The document is a record. -/
theorem requiredOnly_record : OfRecords .literal requiredOnly (.root, requiredOnly) := by
  intro place obj hreach hfree
  have hparts : requiredOnlyFields.OnlyParts := ⟨rfl, rfl, rfl⟩
  rcases ReflTransGen.cases_head hreach with heq | ⟨⟨place', v⟩, happlies, hreach⟩
  · cases heq
    refine .inr ⟨rfl, hparts, fun i htype => ?_, fun f h => (by cases h), rfl⟩
    cases i with
    | object f => rfl
    | _ => cases htype
  · rcases hparts.applies rfl rfl rfl happlies with rfl | ⟨key, hkey⟩
    · exact absurd hreach (not_reach_object rfl)
    · cases hkey

/-- The empty object is an instance of a schema of objects that requires nothing. -/
theorem valid_nil {rd : Numbers} {doc : Json} {obj : JsonFields} (href : obj.get? "$ref" = none)
    (htype : typeAllows rd obj (.object .nil) = true) (henum : enumAllows rd obj (.object .nil) = true)
    (hrequired : existingRequired obj = []) (hchoices : obj.choices = [.bool true])
    (hconjuncts : ∀ v ∈ obj.conjuncts, Valid rd doc v (.object .nil)) :
    Valid rd doc (.object obj) (.object .nil) := by
  refine .object (by simp [href]) htype henum ?_ (fun key x p hx => by cases hx) (fun n x p hx => by cases hx)
    (hchoices ▸ List.mem_singleton_self _) .any hconjuncts
  rw [hrequired]
  simp

theorem complete_inv {rd : Numbers} {doc : Json} {place : Place} {obj : JsonFields} {i : Json}
    (h : Complete rd doc place (.object obj) i) (href : obj.get? "$ref" = none) :
    typeAllows rd obj i = true ∧
    (closing place obj = true → i.isObject = true → ∀ key, i.members.contains key = obj.properties.contains key) ∧
    ∀ v ∈ obj.conjuncts, Complete rd doc place.inner v i := by
  cases h with
  | ref hsome =>
    rw [href] at hsome
    cases hsome
  | object _ htype _ hkeys _ _ _ _ _ hconjuncts => exact ⟨htype, hkeys, hconjuncts⟩

/-- An object of one optional property. -/
def optionalString (key : String) : Json :=
  .object (.cons "properties" (.object (.cons key (.object (.cons "type" (.string "string") .nil)) .nil))
    (.cons "type" (.string "object") .nil))

/-- Two parts of one object. -/
def twoParts : Json := .object (.cons "allOf" (.ofList [optionalString "a", optionalString "b"]) .nil)

end AgentVerse
