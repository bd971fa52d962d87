import Mathlib.Data.List.Perm.Subperm
import Mathlib.Tactic.ByContra
import AgentVerse.Core.Unicode

/-!
# The index of the tool search

`BM25Index` keeps one list of tokens for each text that was inserted, and for each token the number of texts that have
it. A search scores every document and returns the names of the best ones with a positive score. A document scores
above zero only if a token of the query is one of its own (`score_pos`), and no search returns more than what is in the
index (`search_subperm`).
-/

namespace AgentVerse

/-- The operations of `f32`; nothing is known of them but that zero is not above zero. -/
class F32 (F : Type) extends Add F, Sub F, Mul F, Div F, NatCast F, OfScientific F, LT F where
  ln : F → F
  decidableLt : DecidableLT F
  zero_not_lt : ¬ (0.0 : F) < 0.0

instance F32.instDecidableLT {F : Type} [F32 F] : DecidableLT F := F32.decidableLt

def tokenize (u : Unicode) (text : String) : List String := u.words (u.toLowercase text)

/-- `BM25Index`. A token without an entry in `df` counts zero. -/
structure BM25Index where
  docs : List (String × List String)
  df : String → Nat

namespace BM25Index

def new : BM25Index := ⟨[], fun _ => 0⟩

/-- Count every token that has not been seen. -/
def countTokens (df : String → Nat) (seen : List String) : List String → String → Nat
  | [] => df
  | t :: ts =>
    if t ∈ seen then countTokens df seen ts else countTokens (Function.update df t (df t + 1)) (t :: seen) ts

def insert (index : BM25Index) (u : Unicode) (id text : String) : BM25Index :=
  let tokens := tokenize u text
  ⟨index.docs ++ [(id, tokens)], countTokens index.df [] tokens⟩

variable {F : Type} [F32 F]

/-- The weight of one term in a document of `tokens`, added to the score so far. A count is zero as an `f32` exactly
if it is zero. -/
def addTerm (index : BM25Index) (tokens : List String) (acc : F) (term : String) : F :=
  let k1 : F := 1.5
  let b : F := 0.75
  let n : F := (index.docs.length : F)
  let avgLen : F := (index.docs.map fun d => (d.2.length : F)).foldl (· + ·) 0.0 / n
  let dl : F := (tokens.length : F)
  if tokens.count term = 0 then acc else
    let tf : F := (tokens.count term : F)
    let df : F := (index.df term : F)
    let idf := F32.ln ((n - df + 0.5) / (df + 0.5) + 1.0)
    let tfNorm := (tf * (k1 + 1.0)) / (tf + k1 * (1.0 - b + b * dl / avgLen))
    acc + idf * tfNorm

def score (index : BM25Index) (qTokens tokens : List String) : F := qTokens.foldl (index.addTerm tokens) 0.0

/-- The name of a scored document. -/
def named (docs : List (String × List String)) (s : Nat × F) : Option (String × F) :=
  docs[s.1]?.map fun d => (d.1, s.2)

/-- The names of the best documents with their scores. `sort_by` is stable. -/
def search (index : BM25Index) (u : Unicode) (query : String) (limit : Nat) : List (String × F) :=
  if index.docs.isEmpty || query.isEmpty then []
  else
    let qTokens := tokenize u query
    let scores : List (Nat × F) := index.docs.zipIdx.map fun d => (d.2, index.score qTokens d.1.2)
    let scores := scores.filter fun s => 0.0 < s.2
    let scores := scores.mergeSort fun a b => ¬ a.2 < b.2
    (scores.take limit).filterMap (named index.docs)

/-! ### Document frequencies -/

variable {index : BM25Index} {u : Unicode} {id text query token : String} {limit : Nat}

theorem countTokens_eq {df : String → Nat} {seen tokens : List String} :
    countTokens df seen tokens token = df token + if token ∈ tokens ∧ token ∉ seen then 1 else 0 := by
  induction tokens generalizing df seen with
  | nil => simp [countTokens]
  | cons t ts ih =>
    unfold countTokens
    by_cases ht : t ∈ seen
    · rw [if_pos ht, ih]
      by_cases heq : token = t
      · simp [heq, ht]
      · simp [heq]
    · rw [if_neg ht, ih]
      by_cases heq : token = t
      · simp [heq, ht]
      · simp [heq]

/-- Each token counts the documents that have it. -/
def Counts (index : BM25Index) : Prop := ∀ token, index.df token = index.docs.countP fun d => token ∈ d.2

theorem counts_new : new.Counts := fun _ => rfl

theorem Counts.insert (h : index.Counts) : (index.insert u id text).Counts := by
  intro token
  unfold BM25Index.insert
  dsimp only
  rw [countTokens_eq, List.countP_append, h token]
  simp [List.countP_cons]

/-! ### Searching -/

/-- A document without a token of the query scores nothing. -/
theorem score_of_none {qTokens tokens : List String} (h : ∀ t ∈ qTokens, t ∉ tokens) :
    (index.score qTokens tokens : F) = 0.0 := by
  unfold score
  suffices hfold : ∀ acc : F, qTokens.foldl (index.addTerm tokens) acc = acc from hfold 0.0
  induction qTokens with
  | nil => intro acc; rfl
  | cons t ts ih =>
    intro acc
    have hcount : tokens.count t = 0 := List.count_eq_zero.mpr (h t List.mem_cons_self)
    rw [List.foldl_cons, addTerm, if_pos hcount]
    exact ih (fun t' ht' => h t' (List.mem_cons_of_mem _ ht')) acc

theorem score_pos {qTokens tokens : List String} (h : (0.0 : F) < index.score qTokens tokens) :
    ∃ t ∈ qTokens, t ∈ tokens := by
  by_contra hnone
  rw [score_of_none fun t ht ht' => hnone ⟨t, ht, ht'⟩] at h
  exact F32.zero_not_lt h

omit [F32 F] in
theorem filterMap_named (docs : List (String × List String)) (f : List String → F) :
    (docs.zipIdx.map fun d => (d.2, f d.1.2)).filterMap (named docs) = docs.map fun d => (d.1, f d.2) := by
  have hget : ∀ d ∈ docs.zipIdx, named docs (d.2, f d.1.2) = some (d.1.1, f d.1.2) := by
    intro d hd
    have hd' : docs[d.2]? = some d.1 := List.mem_zipIdx_iff_getElem?.mp hd
    rw [named, hd']
    rfl
  rw [List.filterMap_map]
  calc docs.zipIdx.filterMap (named docs ∘ fun d => (d.2, f d.1.2))
      = docs.zipIdx.filterMap (some ∘ fun d => (d.1.1, f d.1.2)) := List.filterMap_congr hget
    _ = docs.zipIdx.map fun d => (d.1.1, f d.1.2) := by rw [List.filterMap_eq_map]
    _ = (docs.zipIdx.map Prod.fst).map fun d => (d.1, f d.2) := by rw [List.map_map]; rfl
    _ = docs.map fun d => (d.1, f d.2) := by rw [List.zipIdx_map_fst]

omit [F32 F] in
theorem filter_named (docs : List (String × List String)) (p : F → Bool) (scores : List (Nat × F)) :
    (scores.filter fun s => p s.2).filterMap (named docs) =
      (scores.filterMap (named docs)).filter fun hit => p hit.2 := by
  rw [List.filterMap_filter, List.filter_filterMap]
  congr 1
  funext s
  unfold named
  cases docs[s.1]? with
  | none => simp
  | some d => by_cases hp : p s.2 <;> simp [hp, Option.filter]

/-- A search returns no document more often than the index has it, and only those with a positive score. -/
theorem search_subperm : (index.search u query limit).Subperm
    ((index.docs.map fun d => (d.1, (index.score (tokenize u query) d.2 : F))).filter fun hit => 0.0 < hit.2) := by
  unfold search
  split
  · exact (List.nil_sublist _).subperm
  · dsimp only
    rw [← filterMap_named, ← filter_named index.docs fun x : F => 0.0 < x]
    exact ((List.take_sublist ..).filterMap _).subperm.trans ((List.mergeSort_perm ..).filterMap _).subperm

/-- A hit is a document that has a token of the query. -/
theorem mem_search {hit : String × F} (h : hit ∈ index.search u query limit) :
    ∃ d ∈ index.docs, hit.1 = d.1 ∧ ∃ t ∈ tokenize u query, t ∈ d.2 := by
  obtain ⟨hmem, hpos⟩ := List.mem_filter.mp (List.Subperm.subset search_subperm h)
  obtain ⟨d, hd, rfl⟩ := List.mem_map.mp hmem
  exact ⟨d, hd, rfl, score_pos (of_decide_eq_true hpos)⟩

/-- Names that are in the index once are found once. -/
theorem search_nodup (h : (index.docs.map (·.1)).Nodup) :
    ((index.search u query limit : List (String × F)).map (·.1)).Nodup := by
  have hsub : (index.search u query limit).Subperm (index.docs.map fun d =>
      (d.1, (index.score (tokenize u query) d.2 : F))) := search_subperm.trans List.filter_sublist.subperm
  obtain ⟨hits, hperm, hsublist⟩ := hsub
  refine (hperm.map _).nodup_iff.mp (List.Nodup.sublist (hsublist.map _) ?_)
  rwa [List.map_map]

end BM25Index

end AgentVerse
