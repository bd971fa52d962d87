import AgentVerse.Core.Json

/-!
# JSON documents

What a JSON text says, before it becomes a value: its objects list their members as they are written, repetitions
included. The value of a document keeps the last of repeated members, and has its members in the order of their keys.
Printing a document and reading one back are parameters (`JsonTexts`); reading refuses a document that nests too deep.
-/

namespace AgentVerse

/-! ### The value of a document -/

mutual

/-- The value that `serde_json::Value` reads from a document. -/
def Json.value : Json → Json
  | .array items => .array items.values
  | .object fields => .object (fields.collect .nil)
  | v => v

def JsonItems.values : JsonItems → JsonItems
  | .nil => .nil
  | .cons v rest => .cons v.value rest.values

/-- Insert the members one by one. -/
def JsonFields.collect : JsonFields → JsonFields → JsonFields
  | .nil, acc => acc
  | .cons k v rest, acc => rest.collect (acc.insert k v.value)

end

mutual

/-- The strings of a document, keys included. -/
def Json.strings : Json → List String
  | .string s => [s]
  | .array items => items.strings
  | .object fields => fields.strings
  | _ => []

def JsonItems.strings : JsonItems → List String
  | .nil => []
  | .cons v rest => v.strings ++ rest.strings

def JsonFields.strings : JsonFields → List String
  | .nil => []
  | .cons k v rest => k :: v.strings ++ rest.strings

end

mutual

/-- The objects of a value have their members in the strict order of their keys, as a `BTreeMap` has them. -/
def Json.Ordered : Json → Prop
  | .array items => items.Ordered
  | .object fields => fields.keys.Pairwise (· < ·) ∧ fields.Ordered
  | _ => True

def JsonItems.Ordered : JsonItems → Prop
  | .nil => True
  | .cons v rest => v.Ordered ∧ rest.Ordered

def JsonFields.Ordered : JsonFields → Prop
  | .nil => True
  | .cons _ v rest => v.Ordered ∧ rest.Ordered

end

/-- Induction on a value, its arrays and objects as lists. -/
theorem Json.nested {motive : Json → Prop} (null : motive .null) (bool : ∀ b, motive (.bool b))
    (int : ∀ n, motive (.int n)) (float : ∀ text, motive (.float text)) (string : ∀ s, motive (.string s))
    (array : ∀ items, (∀ v ∈ items.toList, motive v) → motive (.array items))
    (object : ∀ fields, (∀ e ∈ fields.toList, motive e.2) → motive (.object fields)) (v : Json) : motive v := by
  refine @Json.rec motive (fun items => ∀ v ∈ items.toList, motive v)
    (fun fields => ∀ e ∈ fields.toList, motive e.2) null bool int float string array object ?_ ?_ ?_ ?_ v
  · exact fun v hv => absurd hv (List.not_mem_nil)
  · exact fun v rest hv hrest => List.forall_mem_cons.mpr ⟨hv, hrest⟩
  · exact fun e he => absurd he (List.not_mem_nil)
  · exact fun k v rest hv hrest => List.forall_mem_cons.mpr ⟨hv, hrest⟩

theorem JsonItems.ordered_iff {items : JsonItems} : items.Ordered ↔ ∀ v ∈ items.toList, v.Ordered := by
  induction items with
  | nil => simp [JsonItems.Ordered, JsonItems.toList]
  | cons v rest ih => simp [JsonItems.Ordered, JsonItems.toList, ih]

theorem JsonFields.ordered_iff {fields : JsonFields} : fields.Ordered ↔ ∀ e ∈ fields.toList, e.2.Ordered := by
  induction fields with
  | nil => simp [JsonFields.Ordered, JsonFields.toList]
  | cons k v rest ih => simp [JsonFields.Ordered, JsonFields.toList, ih]

namespace JsonFields

def append : JsonFields → JsonFields → JsonFields
  | nil, fields => fields
  | cons k v rest, fields => cons k v (rest.append fields)

theorem append_nil (fields : JsonFields) : fields.append .nil = fields := by
  induction fields with
  | nil => rfl
  | cons k v rest ih => rw [append, ih]

theorem append_cons (fields : JsonFields) (k : String) (v : Json) (rest : JsonFields) :
    (fields.append (cons k v .nil)).append rest = fields.append (cons k v rest) := by
  induction fields with
  | nil => rfl
  | cons k' v' fields ih => rw [append, append, append, ih]

theorem keys_append (fields fields' : JsonFields) : (fields.append fields').keys = fields.keys ++ fields'.keys := by
  induction fields with
  | nil => rfl
  | cons k v rest ih => exact congrArg (k :: ·) ih

/-- A key after all others is put at the end. -/
theorem insert_last {fields : JsonFields} {key : String} {value : Json} (h : ∀ k ∈ fields.keys, k < key) :
    fields.insert key value = fields.append (cons key value .nil) := by
  have hnew : fields.contains key = false := by
    rw [← Bool.not_eq_true, ← mem_keys_iff]
    exact fun hmem => String.lt_irrefl key (h key hmem)
  rw [insert, if_neg (by simp [hnew])]
  induction fields with
  | nil => rfl
  | cons k v rest ih =>
    have hk : ¬ key < k := fun hlt => String.lt_irrefl key (String.lt_trans hlt (h k List.mem_cons_self))
    have hrest : key ∈ rest.keys ↔ _ := mem_keys_iff
    have hrest' : rest.contains key = false := by
      rw [← Bool.not_eq_true, ← hrest]
      exact fun hmem => String.lt_irrefl key (h key (List.mem_cons_of_mem _ hmem))
    rw [place, if_neg hk, append, ih (fun k' hk' => h k' (List.mem_cons_of_mem _ hk')) hrest']

end JsonFields

/-- Collecting members in their order, each already a value. -/
theorem JsonFields.collect_eq {fields acc : JsonFields} (hvalues : ∀ e ∈ fields.toList, e.2.value = e.2)
    (hkeys : (acc.keys ++ fields.keys).Pairwise (· < ·)) : fields.collect acc = acc.append fields := by
  induction fields generalizing acc with
  | nil => exact acc.append_nil.symm
  | cons k v rest ih =>
    obtain ⟨hv, hrest⟩ := List.forall_mem_cons.mp hvalues
    have hlast : ∀ k' ∈ acc.keys, k' < k :=
      fun k' hk' => (List.pairwise_append.mp hkeys).2.2 k' hk' k List.mem_cons_self
    have hkeys' : ((acc.append (cons k v .nil)).keys ++ rest.keys).Pairwise (· < ·) := by
      rw [keys_append, List.append_assoc]
      exact hkeys
    have hv : v.value = v := hv
    rw [collect, hv, insert_last hlast, ih hrest hkeys', append_cons]

theorem JsonItems.values_eq {items : JsonItems} (h : ∀ v ∈ items.toList, v.value = v) : items.values = items := by
  induction items with
  | nil => rfl
  | cons v rest ih =>
    obtain ⟨hv, hrest⟩ := List.forall_mem_cons.mp h
    rw [values, hv, ih hrest]

/-- A value is the value of its own document. -/
theorem Json.value_of_ordered {v : Json} (h : v.Ordered) : v.value = v := by
  induction v using Json.nested with
  | null | bool | int | float | string => rfl
  | array items ih =>
    have hitems := JsonItems.ordered_iff.mp h
    exact congrArg Json.array (JsonItems.values_eq fun v hv => ih v hv (hitems v hv))
  | object fields ih =>
    have hfields := JsonFields.ordered_iff.mp h.2
    exact congrArg Json.object (JsonFields.collect_eq (fun e he => ih e he (hfields e he)) h.1)

/-! ### Members -/

/-- The last of the members that have the key. -/
def JsonFields.last? : JsonFields → String → Option Json
  | .nil, _ => none
  | .cons k v rest, key =>
    match rest.last? key with
    | some w => some w
    | none => if k = key then some v else none

theorem JsonFields.get?_collect (fields acc : JsonFields) (key : String) :
    (fields.collect acc).get? key = ((fields.last? key).map Json.value).or (acc.get? key) := by
  induction fields generalizing acc with
  | nil => rfl
  | cons k v rest ih =>
    rw [collect, ih, last?]
    cases rest.last? key with
    | some w => rfl
    | none =>
      by_cases hk : k = key
      · subst hk
        simp
      · rw [get?_insert_of_ne (Ne.symm hk), if_neg hk]

/-- The value of an object keeps the last of the members with a key. -/
theorem JsonFields.get?_value (fields : JsonFields) (key : String) :
    (fields.collect .nil).get? key = (fields.last? key).map Json.value := by
  rw [get?_collect]
  exact Option.or_none

theorem JsonItems.toList_values (items : JsonItems) : items.values.toList = items.toList.map Json.value := by
  induction items with
  | nil => rfl
  | cons v rest ih => rw [values, toList, toList, List.map_cons, ih]

/-- The value of a member that is there exactly once. -/
def JsonFields.single (fields : JsonFields) (key : String) : Option Json :=
  match fields.toList.filter fun e => e.1 = key with
  | [e] => some e.2
  | _ => none

theorem JsonFields.mem_of_single {fields : JsonFields} {key : String} {v : Json} (h : fields.single key = some v) :
    (key, v) ∈ fields.toList := by
  unfold single at h
  split at h
  · rename_i e he
    obtain ⟨hmem, hkey⟩ := List.mem_filter.mp (he ▸ List.mem_singleton_self e)
    obtain rfl := Option.some.inj h
    obtain rfl : e.1 = key := by simpa using hkey
    exact hmem
  · cases h

theorem JsonItems.mem_strings {items : JsonItems} {v : Json} {s : String} (h : v ∈ items.toList)
    (hs : s ∈ v.strings) : s ∈ items.strings := by
  induction items with
  | nil => cases h
  | cons w rest ih =>
    rw [strings, List.mem_append]
    rcases List.mem_cons.mp h with rfl | h
    · exact .inl hs
    · exact .inr (ih h)

theorem JsonFields.mem_strings {fields : JsonFields} {e : String × Json} {s : String} (h : e ∈ fields.toList)
    (hs : s ∈ e.2.strings) : s ∈ fields.strings := by
  induction fields with
  | nil => cases h
  | cons k v rest ih =>
    rw [strings, List.mem_append, List.mem_cons]
    rcases List.mem_cons.mp h with rfl | h
    · exact .inl (.inr hs)
    · exact .inr (ih h)

/-! ### Texts -/

/-- Printing a document, and reading the document of a text. -/
structure JsonTexts where
  print : Json → String
  document : String → Except JsonError Json

namespace JsonTexts

/-- A printed document reads back, unless it nests too deep. -/
def Reads (jt : JsonTexts) (d : Json) : Prop :=
  (d.depth < nestingLimit → jt.document (jt.print d) = .ok d) ∧
  (nestingLimit ≤ d.depth → ∃ e, jt.document (jt.print d) = .error e)

/-- The strings in the document of a text are shorter than the text, which quotes them. -/
def Quotes (jt : JsonTexts) (text : String) : Prop :=
  ∀ d, jt.document text = .ok d → ∀ s ∈ d.strings, s.length < text.length

end JsonTexts

end AgentVerse
