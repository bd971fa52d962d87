import Mathlib.Data.String.Basic
import AgentVerse.Core.Document

/-!
# Values of documents

The value of any document has the members of its objects in order (`Json.ordered_value`), so that reading it again
changes nothing, and it nests no deeper than the document. A format that is stable in this way carries what was read
from a text through any number of hops (`Format.Stable.hops`).
-/

namespace AgentVerse

namespace JsonFields

variable {fields acc : JsonFields} {key : String} {value : Json}

theorem keys_replace : (fields.replace key value).keys = fields.keys := by
  induction fields with
  | nil => rfl
  | cons k v rest ih =>
    unfold replace
    split
    · rfl
    · exact congrArg (k :: ·) ih

theorem mem_keys_place {k : String} : k ∈ (fields.place key value).keys ↔ k = key ∨ k ∈ fields.keys := by
  induction fields with
  | nil => simp [place, keys, toList]
  | cons k' v rest ih =>
    have hcons : ∀ k'' v'' rest'', (cons k'' v'' rest'').keys = k'' :: rest''.keys := fun _ _ _ => rfl
    unfold place
    split
    · simp [hcons]
    · simp only [hcons, List.mem_cons, ih]
      exact ⟨fun h => by tauto, fun h => by tauto⟩

/-- A new key goes to its place in the order. -/
theorem pairwise_place (h : fields.keys.Pairwise (· < ·)) (hnew : fields.contains key = false) :
    (fields.place key value).keys.Pairwise (· < ·) := by
  induction fields with
  | nil => exact List.pairwise_singleton ..
  | cons k v rest ih =>
    obtain ⟨hk, hrest⟩ := List.pairwise_cons.mp h
    have hne : k ≠ key := by
      rintro rfl
      simp [contains, get?] at hnew
    unfold place
    split
    · rename_i hlt
      refine List.pairwise_cons.mpr ⟨fun k' hk' => ?_, h⟩
      rcases List.mem_cons.mp hk' with rfl | hk'
      · exact hlt
      · exact String.lt_trans hlt (hk k' hk')
    · rename_i hlt
      have hnew' : rest.contains key = false := by simpa [contains, get?, hne] using hnew
      refine List.pairwise_cons.mpr ⟨fun k' hk' => ?_, ih hrest hnew'⟩
      rcases mem_keys_place.mp hk' with rfl | hk'
      · rcases lt_trichotomy k k' with h | h | h
        · exact h
        · exact absurd h hne
        · exact absurd h hlt
      · exact hk k' hk'

theorem pairwise_insert (h : fields.keys.Pairwise (· < ·)) : (fields.insert key value).keys.Pairwise (· < ·) := by
  unfold insert
  split
  · rw [keys_replace]
    exact h
  · exact pairwise_place h (Bool.eq_false_iff.mpr ‹_›)

/-- The members of an object after an insertion are the old ones and the new one. -/
theorem mem_insert {e : String × Json} (h : e ∈ (fields.insert key value).toList) :
    e.2 = value ∨ e ∈ fields.toList := by
  have hreplace : ∀ {fields : JsonFields}, e ∈ (fields.replace key value).toList → e.2 = value ∨ e ∈ fields.toList := by
    intro fields h
    induction fields with
    | nil => exact .inr h
    | cons k v rest ih =>
      unfold replace at h
      split at h
      · rcases List.mem_cons.mp h with rfl | h
        · exact .inl rfl
        · exact .inr (List.mem_cons_of_mem _ h)
      · rcases List.mem_cons.mp h with rfl | h
        · exact .inr List.mem_cons_self
        · exact (ih h).imp_right (List.mem_cons_of_mem _)
  have hplace : ∀ {fields : JsonFields}, e ∈ (fields.place key value).toList → e.2 = value ∨ e ∈ fields.toList := by
    intro fields h
    induction fields with
    | nil =>
      rcases List.mem_cons.mp h with rfl | h
      · exact .inl rfl
      · exact .inr h
    | cons k v rest ih =>
      unfold place at h
      split at h
      · rcases List.mem_cons.mp h with rfl | h
        · exact .inl rfl
        · exact .inr h
      · rcases List.mem_cons.mp h with rfl | h
        · exact .inr List.mem_cons_self
        · exact (ih h).imp_right (List.mem_cons_of_mem _)
  unfold insert at h
  split at h
  · exact hreplace h
  · exact hplace h

/-- Collecting members whose values are ordered gives an ordered object. -/
theorem ordered_collect (hvalues : ∀ e ∈ fields.toList, e.2.value.Ordered)
    (hacc : (Json.object acc).Ordered) : (Json.object (fields.collect acc)).Ordered := by
  induction fields generalizing acc with
  | nil => exact hacc
  | cons k v rest ih =>
    obtain ⟨hv, hrest⟩ := List.forall_mem_cons.mp hvalues
    have hnext : (Json.object (acc.insert k v.value)).Ordered := by
      refine ⟨pairwise_insert hacc.1, ordered_iff.mpr fun e he => ?_⟩
      rcases mem_insert he with h | h
      · exact h ▸ hv
      · exact ordered_iff.mp hacc.2 e h
    exact ih hrest hnext

/-- Members in strict order are there once. -/
theorem single_eq_get? (h : fields.keys.Pairwise (· < ·)) (key : String) : fields.single key = fields.get? key := by
  induction fields with
  | nil => rfl
  | cons k v rest ih =>
    obtain ⟨hk, hrest⟩ := List.pairwise_cons.mp h
    have ih := ih hrest
    unfold single at ih ⊢
    rw [toList, List.filter_cons, get?]
    by_cases hkey : k = key
    · have hnone : rest.toList.filter (fun e => e.1 = key) = [] := by
        refine List.filter_eq_nil_iff.mpr fun e he hek => ?_
        have hlt := hk e.1 (List.mem_map_of_mem he)
        rw [of_decide_eq_true hek, ← hkey] at hlt
        exact String.lt_irrefl _ hlt
      simp only [hkey, decide_true, if_true] at hnone ⊢
      rw [hnone]
    · simp only [hkey, decide_false, if_false, Bool.false_eq_true]
      exact ih

theorem depth_le_iff {n : Nat} : fields.depth ≤ n ↔ ∀ e ∈ fields.toList, e.2.depth ≤ n := by
  induction fields with
  | nil => simp [depth, toList]
  | cons k v rest ih =>
    rw [depth, max_le_iff, ih, toList, List.forall_mem_cons]

theorem depth_collect {n : Nat} (hvalues : ∀ e ∈ fields.toList, e.2.value.depth ≤ n) (hacc : acc.depth ≤ n) :
    (fields.collect acc).depth ≤ n := by
  induction fields generalizing acc with
  | nil => exact hacc
  | cons k v rest ih =>
    obtain ⟨hv, hrest⟩ := List.forall_mem_cons.mp hvalues
    refine ih hrest (depth_le_iff.mpr fun e he => ?_)
    rcases mem_insert he with h | h
    · exact h ▸ hv
    · exact depth_le_iff.mp hacc e h

end JsonFields

theorem JsonItems.depth_le_iff {items : JsonItems} {n : Nat} : items.depth ≤ n ↔ ∀ v ∈ items.toList, v.depth ≤ n := by
  induction items with
  | nil => simp [depth, toList]
  | cons v rest ih => rw [depth, max_le_iff, ih, toList, List.forall_mem_cons]

theorem Json.ordered_value (d : Json) : d.value.Ordered := by
  induction d using Json.nested with
  | null | bool | int | float | string => trivial
  | array items ih =>
    refine JsonItems.ordered_iff.mpr fun v hv => ?_
    rw [JsonItems.toList_values] at hv
    obtain ⟨d, hd, rfl⟩ := List.mem_map.mp hv
    exact ih d hd
  | object fields ih => exact JsonFields.ordered_collect ih ⟨.nil, trivial⟩

/-- A value nests no deeper than its document. -/
theorem Json.depth_value_le (d : Json) : d.value.depth ≤ d.depth := by
  induction d using Json.nested with
  | null | bool | int | float | string => exact Nat.le_refl _
  | array items ih =>
    refine Nat.succ_le_succ (JsonItems.depth_le_iff.mpr fun v hv => ?_)
    rw [JsonItems.toList_values] at hv
    obtain ⟨d, hd, rfl⟩ := List.mem_map.mp hv
    exact (ih d hd).trans (JsonItems.depth_le_iff.mp (Nat.le_refl _) d hd)
  | object fields ih =>
    refine Nat.succ_le_succ (JsonFields.depth_collect (fun e he => ?_) (Nat.zero_le _))
    exact (ih e he).trans (JsonFields.depth_le_iff.mp (Nat.le_refl _) e he)

/-- A record of ordered values is ordered. -/
theorem Json.ordered_record {l : List (String × Option Json)} (h : ∀ e ∈ l, ∀ v ∈ e.2, v.Ordered) :
    (Json.object (Json.record l)).Ordered := by
  induction l with
  | nil => exact ⟨.nil, trivial⟩
  | cons e l ih =>
    obtain ⟨key, value⟩ := e
    obtain ⟨he, hl⟩ := List.forall_mem_cons.mp h
    have hrest := ih hl
    cases value with
    | none => exact hrest
    | some v =>
      refine ⟨JsonFields.pairwise_insert hrest.1, JsonFields.ordered_iff.mpr fun e he' => ?_⟩
      rcases JsonFields.mem_insert he' with h | h
      · exact h ▸ he v rfl
      · exact JsonFields.ordered_iff.mp hrest.2 e h

theorem JsonFields.depth_single {fields : JsonFields} {key : String} {v : Json} {n : Nat}
    (h : fields.single key = some v) (hn : fields.depth ≤ n) : v.depth ≤ n :=
  JsonFields.depth_le_iff.mp hn _ (JsonFields.mem_of_single h)

/-! ### Formats -/

/-- How values of a type are written as documents, and which documents are read as values. -/
structure Format (α : Type) where
  document : α → Json
  ofDocument : Json → Option α

namespace Format

variable {α : Type} (F : Format α) (jt : JsonTexts)

/-- What is read from a document is read again from the document that is written for it, and this one is no deeper. -/
def Stable : Prop :=
  ∀ d a, F.ofDocument d = some a → F.ofDocument (F.document a) = some a ∧ (F.document a).depth ≤ d.depth

def read (text : String) : Option α := (jt.document text).toOption.bind F.ofDocument

def write (a : α) : String := jt.print (F.document a)

/-- A text is read and sent on; one that cannot be read goes no further. -/
def hop (text : String) : String := ((F.read jt text).map (F.write jt)).getD text

variable {F jt} {text : String} {a : α}

theorem read_eq_some : F.read jt text = some a ↔ ∃ d, jt.document text = .ok d ∧ F.ofDocument d = some a := by
  unfold read
  cases jt.document text with
  | error e => simp [Except.toOption]
  | ok d => simp [Except.toOption]

/-- The text that is written for what was read. -/
theorem Stable.read_write (hF : F.Stable) (hshallow : ∀ d, jt.document text = .ok d → d.depth < nestingLimit)
    (hreads : jt.Reads (F.document a)) (h : F.read jt text = some a) : F.read jt (F.write jt a) = some a := by
  obtain ⟨d, hd, ha⟩ := read_eq_some.mp h
  obtain ⟨hagain, hdepth⟩ := hF d a ha
  have hdoc : jt.document (F.write jt a) = .ok (F.document a) :=
    hreads.1 (Nat.lt_of_le_of_lt hdepth (hshallow d hd))
  exact read_eq_some.mpr ⟨_, hdoc, hagain⟩

/-- What was read from a text is read after any number of hops. -/
theorem Stable.hops (hF : F.Stable) (hshallow : ∀ d, jt.document text = .ok d → d.depth < nestingLimit)
    (hreads : jt.Reads (F.document a)) (h : F.read jt text = some a) (n : Nat) :
    F.read jt ((F.hop jt)^[n] text) = some a := by
  have hwrite := hF.read_write hshallow hreads h
  have hstep : ∀ {t : String}, F.read jt t = some a → F.hop jt t = F.write jt a := by
    intro t ht
    rw [hop, ht]
    rfl
  induction n with
  | zero => exact h
  | succ n ih =>
    rw [Function.iterate_succ_apply', hstep ih]
    exact hwrite

end Format

end AgentVerse
