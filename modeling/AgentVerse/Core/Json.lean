import Mathlib.Data.List.Forall2
import AgentVerse.Core.Types

/-!
# JSON values

Arrays and objects of JSON values as lists, and the operations on objects that the code uses. Objects are ordered
maps: `insert` replaces the value of a key that is there, and puts a new key in its place in the order of the keys.
-/

namespace AgentVerse

/-- A computation that succeeds has succeeded in its first step. -/
theorem bind_ok {ε α β : Type} {x : Except ε α} {f : α → Except ε β} {b : β} (h : x >>= f = .ok b) :
    ∃ a, x = .ok a ∧ f a = .ok b := by
  cases x with
  | error e => cases h
  | ok a => exact ⟨a, rfl, h⟩

/-- A traversal succeeds exactly if it succeeds at every element. -/
theorem mapM_eq_some {α β : Type} {f : α → Option β} {l : List α} {out : List β} :
    l.mapM f = some out ↔ List.Forall₂ (fun a b => f a = some b) l out := by
  induction l generalizing out with
  | nil => simp [eq_comm]
  | cons a l ih =>
    rw [List.mapM_cons, List.forall₂_cons_left_iff]
    simp only [bind, Option.bind_eq_some_iff, ih]
    constructor
    · rintro ⟨b, hb, rest, hrest, h⟩
      exact ⟨b, rest, hb, hrest, (Option.some.inj h).symm⟩
    · rintro ⟨b, rest, hb, hrest, rfl⟩
      exact ⟨b, hb, rest, hrest, rfl⟩

theorem mapM_eq_ok {ε α β : Type} {f : α → Except ε β} {l : List α} {out : List β} :
    l.mapM f = .ok out ↔ List.Forall₂ (fun a b => f a = .ok b) l out := by
  induction l generalizing out with
  | nil => simp [pure, Except.pure, eq_comm]
  | cons a l ih =>
    rw [List.mapM_cons, List.forall₂_cons_left_iff]
    constructor
    · intro h
      obtain ⟨b, hb, h⟩ := bind_ok h
      obtain ⟨rest, hrest, h⟩ := bind_ok h
      exact ⟨b, rest, hb, ih.mp hrest, (Except.ok.inj h).symm⟩
    · rintro ⟨b, rest, hb, hrest, rfl⟩
      rw [hb, ih.mpr hrest]
      rfl

/-! ### Arrays -/

namespace JsonItems

/-- Induction on an array for its own sake, its elements aside. -/
@[induction_eliminator]
theorem induct {motive : JsonItems → Prop} (nil : motive nil)
    (cons : ∀ head tail, motive tail → motive (cons head tail)) : ∀ items, motive items
  | .nil => nil
  | .cons head tail => cons head tail (induct nil cons tail)

def toList : JsonItems → List Json
  | nil => []
  | cons v rest => v :: rest.toList

def ofList : List Json → JsonItems
  | [] => nil
  | v :: l => cons v (ofList l)

@[simp] theorem toList_ofList (l : List Json) : (ofList l).toList = l := by
  induction l with
  | nil => rfl
  | cons v l ih => rw [ofList, toList, ih]

@[simp] theorem ofList_toList (items : JsonItems) : ofList items.toList = items := by
  induction items with
  | nil => rfl
  | cons v rest ih => rw [toList, ofList, ih]

end JsonItems

/-- An array. -/
def Json.ofList (l : List Json) : Json := .array (.ofList l)

/-- An array in an array in an array and so on. -/
def Json.nest : Nat → Json
  | 0 => .null
  | n + 1 => .ofList [nest n]

theorem Json.depth_nest (n : Nat) : (nest n).depth = n := by
  induction n with
  | zero => rfl
  | succ n ih => simp [nest, ofList, JsonItems.ofList, depth, JsonItems.depth, ih]

/-! ### Objects -/

namespace JsonFields

/-- Induction on an object for its own sake, its values aside. -/
@[induction_eliminator]
theorem induct {motive : JsonFields → Prop} (nil : motive nil)
    (cons : ∀ key value rest, motive rest → motive (cons key value rest)) : ∀ fields, motive fields
  | .nil => nil
  | .cons key value rest => cons key value rest (induct nil cons rest)

def toList : JsonFields → List (String × Json)
  | nil => []
  | cons k v rest => (k, v) :: rest.toList

def keys (fields : JsonFields) : List String := fields.toList.map Prod.fst

/-- `Map::contains_key`. -/
def contains (fields : JsonFields) (key : String) : Bool := (fields.get? key).isSome

/-- Replace the value of a key. -/
def replace (key : String) (value : Json) : JsonFields → JsonFields
  | nil => nil
  | cons k v rest => if k = key then cons k value rest else cons k v (rest.replace key value)

/-- Put a new key in its place. -/
def place (key : String) (value : Json) : JsonFields → JsonFields
  | nil => cons key value nil
  | cons k v rest => if key < k then cons key value (cons k v rest) else cons k v (rest.place key value)

/-- `Map::insert`. -/
def insert (fields : JsonFields) (key : String) (value : Json) : JsonFields :=
  if fields.contains key then fields.replace key value else fields.place key value

variable {fields : JsonFields} {key k : String} {value v : Json}

theorem get?_replace_self (h : fields.contains key = true) : (fields.replace key value).get? key = some value := by
  induction fields with
  | nil => cases h
  | cons k v rest ih =>
    unfold replace
    by_cases hk : k = key
    · simp [hk, get?]
    · rw [if_neg hk, get?, if_neg hk]
      refine ih ?_
      simpa [contains, get?, hk] using h

theorem get?_replace_of_ne (h : k ≠ key) : (fields.replace key value).get? k = fields.get? k := by
  induction fields with
  | nil => rfl
  | cons k' v' rest ih =>
    unfold replace
    by_cases hk : k' = key
    · rw [if_pos hk, get?, get?, if_neg (hk ▸ Ne.symm h), if_neg (hk ▸ Ne.symm h)]
    · rw [if_neg hk, get?, get?, ih]

theorem get?_place_self (h : fields.contains key = false) : (fields.place key value).get? key = some value := by
  induction fields with
  | nil => simp [place, get?]
  | cons k v rest ih =>
    have hk : k ≠ key := by
      rintro rfl
      simp [contains, get?] at h
    unfold place
    split
    · simp [get?]
    · rw [get?, if_neg hk]
      refine ih ?_
      simpa [contains, get?, hk] using h

theorem get?_place_of_ne (h : k ≠ key) : (fields.place key value).get? k = fields.get? k := by
  induction fields with
  | nil => simp [place, get?, Ne.symm h]
  | cons k' v' rest ih =>
    unfold place
    split
    · rw [get?, if_neg (Ne.symm h)]
    · rw [get?, get?, ih]

@[simp] theorem get?_insert_self (fields : JsonFields) (key : String) (value : Json) :
    (fields.insert key value).get? key = some value := by
  unfold insert
  split
  · exact get?_replace_self ‹_›
  · exact get?_place_self (Bool.eq_false_iff.mpr ‹_›)

@[simp] theorem get?_insert_of_ne (h : k ≠ key) : (fields.insert key value).get? k = fields.get? k := by
  unfold insert
  split
  · exact get?_replace_of_ne h
  · exact get?_place_of_ne h

/-- What is there already changes nothing. -/
theorem replace_eq_self (h : fields.get? key = some value) : fields.replace key value = fields := by
  induction fields with
  | nil => cases h
  | cons k v rest ih =>
    unfold replace
    by_cases hk : k = key
    · rw [get?, if_pos hk] at h
      rw [if_pos hk, Option.some.inj h]
    · rw [get?, if_neg hk] at h
      rw [if_neg hk, ih h]

theorem insert_eq_self (h : fields.get? key = some value) : fields.insert key value = fields := by
  have hcontains : fields.contains key = true := by rw [contains, h, Option.isSome_some]
  rw [insert, if_pos hcontains, replace_eq_self h]

/-- Replace the value of a key if there is a new one. -/
def update (fields : JsonFields) (key : String) (value : Option Json) : JsonFields :=
  match value with
  | some v => fields.replace key v
  | none => fields

theorem get?_update_of_ne {new : Option Json} (h : k ≠ key) : (fields.update key new).get? k = fields.get? k := by
  cases new with
  | none => rfl
  | some v => exact get?_replace_of_ne h

theorem update_eq_self {new : Option Json} (h : ∀ v, new = some v → fields.get? key = some v) :
    fields.update key new = fields := by
  cases new with
  | none => rfl
  | some v => exact replace_eq_self (h v rfl)

theorem mem_keys_iff : key ∈ fields.keys ↔ fields.contains key = true := by
  unfold keys contains
  induction fields with
  | nil => simp [toList, get?]
  | cons k v rest ih =>
    unfold get?
    by_cases hk : k = key
    · simp [toList, hk]
    · simp [toList, hk, ih, Ne.symm hk]

end JsonFields

/-! ### Records -/

/-- A field of an optional string: it may be missing or `null`. `none` is a field of another type. -/
def JsonFields.optString (fields : JsonFields) (key : String) : Option (Option String) :=
  match fields.get? key with
  | none | some .null => some none
  | some v => v.asStr.map some

/-- A field of an optional value: `null` reads as a missing one. -/
def JsonFields.optValue (fields : JsonFields) (key : String) : Option Json :=
  match fields.get? key with
  | none | some .null => none
  | some v => some v

theorem JsonFields.optValue_ne_null (fields : JsonFields) (key : String) : fields.optValue key ≠ some .null := by
  unfold optValue
  split
  · simp
  · simp
  · rename_i hv _
    simpa using hv

theorem JsonFields.optValue_eq {fields : JsonFields} {key : String} {v : Json} (h : fields.get? key = some v)
    (hv : v ≠ .null) : fields.optValue key = some v := by
  rw [optValue, h]
  cases v with
  | null => exact absurd rfl hv
  | _ => rfl

/-- A serialised record: its fields by name, without those that are skipped. -/
def Json.record : List (String × Option Json) → JsonFields
  | [] => .nil
  | (_, none) :: l => record l
  | (key, some value) :: l => (record l).insert key value

theorem Json.get?_record {l : List (String × Option Json)} (hl : (l.map Prod.fst).Nodup) (key : String) :
    (Json.record l).get? key = (l.lookup key).join := by
  induction l with
  | nil => rfl
  | cons x l ih =>
    obtain ⟨k, v⟩ := x
    rw [List.map_cons, List.nodup_cons] at hl
    by_cases hk : key = k
    · subst hk
      rw [List.lookup_cons_self]
      cases v with
      | none =>
        have hnone : l.lookup key = none := by
          rw [List.lookup_eq_none_iff]
          intro x hx
          have hne : key ≠ x.1 := by
            rintro rfl
            exact hl.1 (List.mem_map.mpr ⟨x, hx, rfl⟩)
          simpa using hne
        rw [Json.record, ih hl.2, hnone]
        rfl
      | some v => rw [Json.record, JsonFields.get?_insert_self]; rfl
    · have hne : (key == k) = false := by simpa using hk
      rw [List.lookup_cons, hne]
      cases v with
      | none => exact ih hl.2
      | some v => rw [Json.record, JsonFields.get?_insert_of_ne hk]; exact ih hl.2

end AgentVerse
