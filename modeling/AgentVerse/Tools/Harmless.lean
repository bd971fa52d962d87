import Mathlib.Logic.Relation
import AgentVerse.Tools.Closure
import AgentVerse.Tools.Validation

/-!
# When closing does no harm

The schemas that validation comes to from another one. Closing one of them does no harm if it requires only what it
declares, what it leaves optional can be filled, and nothing that is changed stands beside another constraint
(`Closeable`). Then every complete instance is an instance (`valid_of_namesRequired`), and every instance can be completed
(`exists_complete`).
-/

namespace AgentVerse

open Relation

/-! ### What validation comes to -/

/-- There is no `$ref`, beside which everything else is ignored. -/
def JsonFields.RefFree (obj : JsonFields) : Prop := ∀ ref, obj.get? "$ref" ≠ some (.string ref)

/-- The schemas that a schema at a place applies to an instance and its parts. -/
inductive Applies (s : Json) : Place × Json → Place × Json → Prop
  | ref {place place' : Place} {obj : JsonFields} {ref : String} {v : Json} :
      obj.get? "$ref" = some (.string ref) → refNode s ref = some (place', v) →
      Applies s (place, .object obj) (place', v)
  | member {place : Place} {obj : JsonFields} {key : String} {p : Json} : obj.RefFree →
      obj.memberSchema key = some p → Applies s (place, .object obj) (memberSchemaPlace place obj key, p)
  | element {place : Place} {obj : JsonFields} {n : Nat} {p : Json} : obj.RefFree →
      obj.elementSchema n = some p → Applies s (place, .object obj) (elementPlace place obj, p)
  | choice {place : Place} {obj : JsonFields} {v : Json} : obj.RefFree → v ∈ obj.choices →
      Applies s (place, .object obj) (place.inner, v)
  | conjunct {place : Place} {obj : JsonFields} {v : Json} : obj.RefFree → v ∈ obj.conjuncts →
      Applies s (place, .object obj) (place.inner, v)

/-- A property of the objects that validation comes to from a schema. -/
def Throughout (s : Json) (P : Place → JsonFields → Prop) (x : Place × Json) : Prop :=
  ∀ place obj, ReflTransGen (Applies s) x (place, .object obj) → obj.RefFree → P place obj

variable {rd : Numbers} {s : Json} {place : Place} {v i : Json} {obj : JsonFields}

theorem Throughout.step {P : Place → JsonFields → Prop} {x y : Place × Json} (h : Throughout s P x)
    (hxy : Applies s x y) : Throughout s P y := fun place obj hreach => h place obj (.head hxy hreach)

/-- What the conversion closes of what validation comes to is closed already. -/
def Untouched (s : Json) : Place × Json → Prop :=
  Throughout s fun place obj => closing place obj = true → ClosedObject obj

/-- What is required of a closed object is declared. -/
def NamesRequired (place : Place) (obj : JsonFields) : Prop :=
  closing place obj = true → ∀ key ∈ existingRequired obj, obj.properties.contains key = true

theorem ClosedObject.required (h : ClosedObject obj) {key : String} (hkey : obj.properties.contains key = true) :
    key ∈ existingRequired obj := by
  obtain ⟨-, names, hnames, hkeys⟩ := h
  rw [existingRequired_eq hnames]
  exact (hkeys key).mpr (JsonFields.mem_keys_iff.mpr hkey)

/-- An instance of a schema of which nothing is changed by closing is complete. -/
theorem complete_of_untouched (h : Valid rd s v i) (huntouched : Untouched s (place, v)) : Complete rd s place v i := by
  induction h generalizing place with
  | any => exact .any
  | ref href htarget _ ih => exact .ref href htarget (ih (huntouched.step (.ref href htarget)))
  | object hfree htype henum hrequired hmembers _ hchoice _ _ ihm ihe ihv ihc =>
    refine .object hfree htype henum (fun hclosing hobject key => ?_)
      (fun _ => hrequired) (fun key x p hx hp => ihm key x p hx hp (huntouched.step (.member hfree hp)))
      (fun n x p hx hp => ihe n x p hx hp (huntouched.step (.element hfree hp))) hchoice
      (ihv (huntouched.step (.choice hfree hchoice)))
      fun w hw => ihc w hw (huntouched.step (.conjunct hfree hw))
    have hclosed := huntouched place _ .refl hfree hclosing
    exact contains_eq_of_closed hclosed.1 (fun hkey => hrequired hobject key (hclosed.required hkey)) (hmembers key)

/-- A complete instance is an instance, if nothing is required that is not declared. -/
theorem valid_of_namesRequired (h : Complete rd s place v i) (hnames : Throughout s NamesRequired (place, v)) :
    Valid rd s v i := by
  induction h with
  | any => exact .any
  | ref href htarget _ ih => exact .ref href htarget (ih (hnames.step (.ref href htarget)))
  | @object place obj variant i hfree htype henum hkeys hrequired _ _ hchoice _ _ ihm ihe ihv ihc =>
    refine .object hfree htype henum (fun hobject key hkey => ?_)
      (fun key x p hx hp => ihm key x p hx hp (hnames.step (.member hfree hp)))
      (fun n x p hx hp => ihe n x p hx hp (hnames.step (.element hfree hp))) hchoice
      (ihv (hnames.step (.choice hfree hchoice))) fun w hw => ihc w hw (hnames.step (.conjunct hfree hw))
    cases hclosed : closing place obj with
    | true =>
      rw [hkeys hclosed hobject key]
      exact hnames place obj .refl hfree hclosed key hkey
    | false => exact hrequired hclosed hobject key hkey

/-! ### Instances that are made -/

/-- Two instances of the same types. -/
def SameType (i i' : Json) : Prop := ∀ rd name, hasType rd i' name = hasType rd i name

theorem SameType.typeAllows (h : SameType i i') (rd : Numbers) (obj : JsonFields) :
    typeAllows rd obj i' = typeAllows rd obj i := by
  have hsame : hasType rd i' = hasType rd i := funext (h rd)
  unfold AgentVerse.typeAllows
  split <;> simp only [hsame]

theorem sameType_object (f f' : JsonFields) : SameType (.object f) (.object f') := fun _ _ => rfl

theorem sameType_array (l l' : JsonItems) : SameType (.array l) (.array l') := fun _ _ => rfl

/-- Nothing but the members and the elements of an instance is constrained, besides its type. -/
structure JsonFields.OnlyParts (obj : JsonFields) : Prop where
  enum : obj.get? "enum" = none
  choices : obj.choices = [.bool true]
  conjuncts : obj.conjuncts = []

/-- Neither the value nor the members and elements of an instance are constrained, besides its type. -/
structure JsonFields.Loose (place : Place) (obj : JsonFields) : Prop where
  absent : ∀ key ∈ ["enum", "properties", "required", "additionalProperties", "items"], obj.get? key = none
  opened : closing place obj = false

theorem enumAllows_of_none (h : obj.get? "enum" = none) : enumAllows rd obj i = true := by
  rw [enumAllows, h]

theorem JsonFields.Loose.members (h : obj.Loose place) (key : String) : obj.memberSchema key = none := by
  have hproperties : obj.properties = .nil := by rw [JsonFields.properties, h.absent "properties" (by decide)]
  rw [JsonFields.memberSchema, hproperties]
  exact h.absent "additionalProperties" (by decide)

theorem JsonFields.Loose.elements (h : obj.Loose place) (n : Nat) : obj.elementSchema n = none := by
  rw [JsonFields.elementSchema, h.absent "items" (by decide)]

/-- What a loose schema allows. -/
theorem JsonFields.Loose.complete (h : obj.Loose place) (hfree : obj.RefFree) (htype : typeAllows rd obj i = true)
    {variant : Json} (hmem : variant ∈ obj.choices) (hvariant : Complete rd s place.inner variant i)
    (hconjuncts : ∀ w ∈ obj.conjuncts, Complete rd s place.inner w i) : Complete rd s place (.object obj) i := by
  have hrequired : existingRequired obj = [] := by rw [existingRequired, h.absent "required" (by decide)]
  refine .object hfree htype (enumAllows_of_none (h.absent "enum" (by decide)))
    (fun hclosed => by rw [h.opened] at hclosed; cases hclosed) (fun _ _ key hkey => ?_)
    (fun key x p _ hp => ?_) (fun n x p _ hp => ?_) hmem hvariant hconjuncts
  · rw [hrequired] at hkey
    cases hkey
  · rw [h.members] at hp
    cases hp
  · rw [h.elements] at hp
    cases hp

/-- A value without parts. -/
theorem JsonFields.complete_value (hfree : obj.RefFree) (hobject : i.isObject = false) (helements : i.elements = [])
    (htype : typeAllows rd obj i = true) (henum : enumAllows rd obj i = true) (hchoices : obj.choices = [.bool true])
    (hconjuncts : obj.conjuncts = []) : Complete rd s place (.object obj) i := by
  refine .object hfree htype henum (fun _ h => by rw [hobject] at h; cases h) (fun _ h => by rw [hobject] at h; cases h)
    (fun key x p hx _ => ?_) (fun n x p hx _ => by rw [helements] at hx; cases hx)
    (hchoices ▸ List.mem_singleton_self _) .any (fun w hw => by rw [hconjuncts] at hw; cases hw)
  rw [isObject_of_member hx] at hobject
  cases hobject

/-- The members of an object that the conversion asks for. -/
def wanted (place : Place) (obj : JsonFields) : List String :=
  if closing place obj then obj.properties.keys else existingRequired obj

/-- An object with given keys. -/
theorem exists_fields (keys : List String) {R : String → Json → Prop} (h : ∀ key ∈ keys, ∃ x, R key x) :
    ∃ f : JsonFields, (∀ key, f.contains key = true ↔ key ∈ keys) ∧ ∀ key x, f.get? key = some x → R key x := by
  induction keys with
  | nil => exact ⟨.nil, fun key => by simp [JsonFields.contains, JsonFields.get?], fun key x hx => by cases hx⟩
  | cons k keys ih =>
    obtain ⟨x, hx⟩ := h k List.mem_cons_self
    obtain ⟨f, hkeys, hf⟩ := ih fun key hkey => h key (List.mem_cons_of_mem _ hkey)
    refine ⟨.cons k x f, fun key => ?_, fun key y hy => ?_⟩
    · by_cases hkey : k = key
      · simp [JsonFields.contains, JsonFields.get?, hkey]
      · have hrest := hkeys key
        simp only [JsonFields.contains] at hrest
        simp [JsonFields.contains, JsonFields.get?, hkey, hrest, Ne.symm hkey]
    · unfold JsonFields.get? at hy
      split at hy
      · obtain rfl := Option.some.inj hy
        rename_i hkey
        exact hkey ▸ hx
      · exact hf key y hy

/-- An object of the members that are asked for. -/
theorem JsonFields.OnlyParts.complete_object (h : obj.OnlyParts) (hfree : obj.RefFree)
    (htype : typeAllows rd obj (.object .nil) = true)
    (hmembers : ∀ key ∈ wanted place obj, ∃ x, ∀ p, obj.memberSchema key = some p →
      Complete rd s (memberSchemaPlace place obj key) p x) : ∃ f, Complete rd s place (.object obj) (.object f) := by
  obtain ⟨f, hkeys, hf⟩ := exists_fields (wanted place obj) hmembers
  refine ⟨f, .object hfree (((sameType_object .nil f).typeAllows rd obj).trans htype) (enumAllows_of_none h.enum)
    (fun hclosed _ key => ?_) (fun hopen _ key hkey => (hkeys key).mpr ?_) (fun key x p hx => hf key x hx p)
    (fun n x p hx _ => by cases hx) (h.choices ▸ List.mem_singleton_self _) .any (fun w hw => by rw [h.conjuncts] at hw; cases hw)⟩
  · have hkey := hkeys key
    rw [wanted, if_pos hclosed, JsonFields.mem_keys_iff] at hkey
    exact Bool.eq_iff_iff.mpr hkey
  · rwa [wanted, if_neg (by simp [hopen])]

/-- A schema can be filled: an instance can be made of it after the conversion, of the same types as the given one. -/
inductive Fillable (rd : Numbers) (s : Json) : Place → Json → Json → Prop
  /-- Nothing of it is changed by closing, and it has an instance. -/
  | untouched {place : Place} {v i : Json} : Untouched s (place, v) → Valid rd s v i → Fillable rd s place v i
  | ref {place place' : Place} {obj : JsonFields} {ref : String} {v i : Json} :
      obj.get? "$ref" = some (.string ref) → refNode s ref = some (place', v) → Fillable rd s place' v i →
      Fillable rd s place (.object obj) i
  /-- It has an instance without parts: the empty array, or neither an array nor an object. -/
  | value {place : Place} {obj : JsonFields} {i : Json} : obj.RefFree → i.isObject = false → i.elements = [] →
      typeAllows rd obj i = true → enumAllows rd obj i = true → obj.choices = [.bool true] → obj.conjuncts = [] →
      Fillable rd s place (.object obj) i
  /-- It is of objects, and the members that are asked for can be filled. -/
  | object {place : Place} {obj : JsonFields} {parts : String → Json} : obj.RefFree → obj.OnlyParts →
      typeAllows rd obj (.object .nil) = true →
      (∀ key ∈ wanted place obj, ∀ p, obj.memberSchema key = some p →
        Fillable rd s (memberSchemaPlace place obj key) p (parts key)) → Fillable rd s place (.object obj) (.object .nil)
  /-- It has nothing but alternatives, one of which can be filled. -/
  | choice {place : Place} {obj : JsonFields} {v i : Json} : obj.RefFree → obj.Loose place →
      typeAllows rd obj i = true → obj.conjuncts = [] → v ∈ obj.choices → Fillable rd s place.inner v i →
      Fillable rd s place (.object obj) i
  /-- It has nothing but one conjunct, which can be filled. -/
  | conjunct {place : Place} {obj : JsonFields} {v i : Json} : obj.RefFree → obj.Loose place →
      typeAllows rd obj i = true → obj.choices = [.bool true] → obj.conjuncts = [v] → Fillable rd s place.inner v i →
      Fillable rd s place (.object obj) i

/-- A schema that can be filled has a complete instance. -/
theorem Fillable.complete (h : Fillable rd s place v i) : ∃ i', Complete rd s place v i' ∧ SameType i i' := by
  induction h with
  | untouched huntouched hvalid => exact ⟨_, complete_of_untouched hvalid huntouched, fun _ _ => rfl⟩
  | ref href htarget _ ih =>
    obtain ⟨i', hi', hsame⟩ := ih
    exact ⟨i', .ref href htarget hi', hsame⟩
  | value hfree hobject helements htype henum hchoices hconjuncts =>
    exact ⟨_, JsonFields.complete_value hfree hobject helements htype henum hchoices hconjuncts, fun _ _ => rfl⟩
  | @object place obj parts hfree hparts htype _ ih =>
    obtain ⟨f, hf⟩ := hparts.complete_object hfree htype fun key hkey => by
      cases hp : obj.memberSchema key with
      | none => exact ⟨.null, fun p h => by cases h⟩
      | some p =>
        obtain ⟨x, hx, -⟩ := ih key hkey p hp
        exact ⟨x, fun p' h => Option.some.inj h ▸ hx⟩
    exact ⟨_, hf, sameType_object .nil f⟩
  | @choice place obj v i hfree hloose htype hconjuncts hmem _ ih =>
    obtain ⟨i', hi', hsame⟩ := ih
    exact ⟨i', hloose.complete hfree ((hsame.typeAllows rd obj).trans htype) hmem hi'
      fun w hw => (by rw [hconjuncts] at hw; cases hw), hsame⟩
  | @conjunct place obj v i hfree hloose htype hchoices hconjuncts _ ih =>
    obtain ⟨i', hi', hsame⟩ := ih
    refine ⟨i', hloose.complete hfree ((hsame.typeAllows rd obj).trans htype)
      (hchoices ▸ List.mem_singleton_self _) .any fun w hw => ?_, hsame⟩
    rw [hconjuncts, List.mem_singleton] at hw
    exact hw ▸ hi'

/-! ### Instances that are completed -/

/-- The schema constrains an instance in one way, besides its type: its members and elements, by alternatives, or by one
other schema. -/
def JsonFields.StandsAlone (place : Place) (obj : JsonFields) : Prop :=
  obj.OnlyParts ∨ (obj.Loose place ∧ obj.conjuncts = []) ∨
    (obj.Loose place ∧ obj.choices = [.bool true] ∧ ∃ v, obj.conjuncts = [v])

/-- Closing an object at a place does no harm: it requires only what it declares, its optional properties can be
filled, and nothing that is changed stands beside another constraint. -/
structure Closeable (rd : Numbers) (s : Json) (place : Place) (obj : JsonFields) : Prop where
  names : NamesRequired place obj
  optional : closing place obj = true → ∀ key p, obj.properties.get? key = some p → key ∉ existingRequired obj →
    ∃ i, Fillable rd s place.inner p i
  alone : Untouched s (place, .object obj) ∨ obj.StandsAlone place

/-- Every instance can be completed. -/
theorem exists_complete (h : Valid rd s v i) (hcloseable : Throughout s (Closeable rd s) (place, v)) :
    ∃ i', Complete rd s place v i' ∧ SameType i i' := by
  induction h generalizing place with
  | @any i => exact ⟨i, .any, fun _ _ => rfl⟩
  | ref href htarget _ ih =>
    obtain ⟨i', hi', hsame⟩ := ih (hcloseable.step (.ref href htarget))
    exact ⟨i', .ref href htarget hi', hsame⟩
  | @object obj variant i hfree htype henum hrequired hmembers helements hchoice hvariant hconjuncts ihm ihe ihv ihc =>
    obtain ⟨-, hoptional, halone⟩ := hcloseable place obj .refl hfree
    rcases halone with huntouched | hparts | ⟨hloose, hnone⟩ | ⟨hloose, hchoices, w, hw⟩
    · exact ⟨i, complete_of_untouched (.object hfree htype henum hrequired hmembers helements hchoice hvariant hconjuncts)
        huntouched, fun _ _ => rfl⟩
    · cases i with
      | object f =>
        have hasked : ∀ key ∈ wanted place obj, ∃ x, ∀ p, obj.memberSchema key = some p →
            Complete rd s (memberSchemaPlace place obj key) p x := by
          intro key hkey
          cases hp : obj.memberSchema key with
          | none => exact ⟨.null, fun p h => by cases h⟩
          | some p =>
            suffices hx : ∃ x, Complete rd s (memberSchemaPlace place obj key) p x by
              obtain ⟨x, hx⟩ := hx
              exact ⟨x, fun p' h => Option.some.inj h ▸ hx⟩
            cases hx : f.get? key with
            | some x =>
              obtain ⟨x', hx', -⟩ := ihm key x p hx hp (hcloseable.step (.member hfree hp))
              exact ⟨x', hx'⟩
            | none =>
              -- The member is missing, so it is an optional property.
              have hnot : key ∉ existingRequired obj := fun hreq => by
                have hcontains := hrequired rfl key hreq
                simp [Json.members, JsonFields.contains, hx] at hcontains
              unfold wanted at hkey
              split at hkey
              · rename_i hclosed
                have hcontains := JsonFields.mem_keys_iff.mp hkey
                obtain ⟨q, hq⟩ := Option.isSome_iff_exists.mp hcontains
                obtain rfl : q = p := by simpa [JsonFields.memberSchema, hq] using hp
                rw [memberSchemaPlace, if_pos hcontains]
                obtain ⟨x, hx⟩ := hoptional hclosed key q hq hnot
                obtain ⟨x', hx', -⟩ := hx.complete
                exact ⟨x', hx'⟩
              · exact absurd hkey hnot
        obtain ⟨f', hf'⟩ := hparts.complete_object hfree htype hasked
        exact ⟨_, hf', sameType_object f f'⟩
      | array l =>
        exact ⟨.array .nil, JsonFields.complete_value hfree rfl rfl htype (enumAllows_of_none hparts.enum) hparts.choices
          hparts.conjuncts, sameType_array l .nil⟩
      | _ =>
        exact ⟨_, JsonFields.complete_value hfree rfl rfl htype henum hparts.choices hparts.conjuncts, fun _ _ => rfl⟩
    · obtain ⟨i', hi', hsame⟩ := ihv (hcloseable.step (.choice hfree hchoice))
      exact ⟨i', hloose.complete hfree ((hsame.typeAllows rd obj).trans htype) hchoice hi'
        (fun w hw => by rw [hnone] at hw; cases hw), hsame⟩
    · have hmem : w ∈ obj.conjuncts := hw ▸ List.mem_singleton_self w
      obtain ⟨i', hi', hsame⟩ := ihc w hmem (hcloseable.step (.conjunct hfree hmem))
      refine ⟨i', hloose.complete hfree ((hsame.typeAllows rd obj).trans htype) (hchoices ▸ List.mem_singleton_self _)
        .any fun w' hw' => ?_, hsame⟩
      rw [hw, List.mem_singleton] at hw'
      exact hw' ▸ hi'

end AgentVerse
