import Mathlib.Data.List.Sort
import AgentVerse.Core.Json
import AgentVerse.Effects.Prog

/-!
# Embeddings

`OpenAiEmbedder::embed`: texts are sent to the embeddings endpoint, and the vectors of the response are put in the order
of their indices and checked. The answer to the request is the environment's choice; reading a response body is a
parameter, as is the type of the numbers in a vector, which are only passed on.
-/

namespace AgentVerse

open Effects

/-! ### The embedder -/

inductive MemoryError where
  | summarization (message : String)
  | storage (message : String)
  | retrieval (message : String)
  | embedding (message : String)
  deriving DecidableEq

structure EmbeddingDatum (F : Type) where
  index : Nat
  embedding : List F

/-- A `POST` request: its address, its bearer token and its body. -/
structure EmbeddingsRequest where
  url : String
  bearer : Option String
  body : Json

/-- A response with the text of its status and its body. -/
structure EmbeddingsReply where
  success : Bool
  status : String
  body : String

/-- Sending the request or reading the body of the response may fail with a message. -/
abbrev EmbeddingsAnswer (_ : EmbeddingsRequest) : Type := Except String EmbeddingsReply

structure OpenAiEmbedder where
  baseUrl : String
  apiKey : String
  modelName : String
  dimensions : Nat

namespace OpenAiEmbedder

variable {F : Type} (e : OpenAiEmbedder) (fromStr : String → Except JsonError (List (EmbeddingDatum F)))

def request (texts : List String) : EmbeddingsRequest where
  url := e.baseUrl ++ "/embeddings"
  bearer := if e.apiKey.isEmpty then none else some e.apiKey
  body := .object (Json.record [("model", some (.string e.modelName)), ("input", some (.ofList (texts.map .string)))])

/-- After sorting, the indices must be `expected`, `expected + 1` and so on. -/
def checkIndices (count : Nat) : Nat → List (EmbeddingDatum F) → Except MemoryError Unit
  | _, [] => .ok ()
  | expected, d :: data =>
    if d.index ≠ expected then
      .error (.embedding ("response indices are not exactly 0.." ++ toString count ++
        " (duplicate or gap at index " ++ toString d.index ++ ")"))
    else checkIndices count (expected + 1) data

def checkDimensions : List (EmbeddingDatum F) → Except MemoryError Unit
  | [] => .ok ()
  | d :: data =>
    if d.embedding.length ≠ e.dimensions then
      .error (.embedding ("expected " ++ toString e.dimensions ++ " dimensions, got " ++
        toString d.embedding.length))
    else checkDimensions data

/-- The vectors of a decoded response for `count` texts. -/
def vectors (count : Nat) (data : List (EmbeddingDatum F)) : Except MemoryError (List (List F)) := do
  let data := data.insertionSort fun a b => a.index ≤ b.index
  if data.length ≠ count then
    .error (.embedding ("expected " ++ toString count ++ " embeddings, got " ++ toString data.length))
  else
    checkIndices count 0 data
    e.checkDimensions data
    return data.map (·.embedding)

def embed (texts : List String) : Prog EmbeddingsRequest EmbeddingsAnswer MemoryError (List (List F)) :=
  if texts.isEmpty then .ret [] else
    .ask (e.request texts) fun
      | .error message => .fail (.embedding message)
      | .ok reply =>
        if !reply.success then .fail (.embedding (reply.status ++ ": " ++ reply.body)) else
          match fromStr reply.body with
          | .error err => .fail (.embedding ("invalid response body: " ++ err.message))
          | .ok data => .lift (e.vectors texts.length data)

/-! ### Checks -/

variable {e} {count : Nat} {data : List (EmbeddingDatum F)}

theorem checkIndices_ok {expected : Nat} : checkIndices count expected data = .ok () ↔
    data.map (·.index) = List.range' expected data.length := by
  induction data generalizing expected with
  | nil => simp [checkIndices]
  | cons d data ih =>
    unfold checkIndices
    rw [List.map_cons, List.length_cons, List.range'_succ, List.cons.injEq]
    by_cases hd : d.index = expected
    · rw [if_neg (not_not_intro hd), ih]
      exact ⟨fun h => ⟨hd, h⟩, fun h => h.2⟩
    · rw [if_pos hd]
      exact ⟨fun h => (by cases h), fun h => absurd h.1 hd⟩

theorem checkDimensions_ok : e.checkDimensions data = .ok () ↔ ∀ d ∈ data, d.embedding.length = e.dimensions := by
  induction data with
  | nil => simp [checkDimensions]
  | cons d data ih =>
    unfold checkDimensions
    rw [List.forall_mem_cons]
    by_cases hd : d.embedding.length = e.dimensions
    · rw [if_neg (not_not_intro hd), ih]
      exact ⟨fun h => ⟨hd, h⟩, fun h => h.2⟩
    · rw [if_pos hd]
      exact ⟨fun h => (by cases h), fun h => absurd h.1 hd⟩

/-- Sorted by their indices, the data have the indices `0`, `1` and so on exactly if the indices are a permutation. -/
theorem sorted_indices : ((data.insertionSort fun a b => a.index ≤ b.index).map (·.index) = List.range count) ↔
    (data.map (·.index)).Perm (List.range count) := by
  have hperm := (List.perm_insertionSort (fun a b : EmbeddingDatum F => a.index ≤ b.index) data).map (·.index)
  constructor
  · intro h
    rw [h] at hperm
    exact hperm.symm
  · intro h
    have hsorted : ((data.insertionSort fun a b => a.index ≤ b.index).map (·.index)).Pairwise (· ≤ ·) :=
      List.pairwise_map.mpr (List.pairwise_insertionSort _ data)
    have hrange : (List.range count).Pairwise (· ≤ ·) := List.pairwise_le_range
    exact (hperm.trans h).eq_of_pairwise (fun a b _ _ hab hba => Nat.le_antisymm hab hba) hsorted hrange

/-- The vectors are returned exactly if the indices are a permutation and every vector has the configured dimension. -/
theorem vectors_ok {out : List (List F)} : e.vectors count data = .ok out ↔
    ((data.map (·.index)).Perm (List.range count) ∧ ∀ d ∈ data, d.embedding.length = e.dimensions) ∧
      out = (data.insertionSort fun a b => a.index ≤ b.index).map (·.embedding) := by
  have hmem : ∀ d, d ∈ (data.insertionSort fun a b => a.index ≤ b.index) ↔ d ∈ data :=
    fun d => (List.perm_insertionSort _ data).mem_iff
  rw [← sorted_indices]
  simp only [← hmem]
  unfold vectors
  generalize data.insertionSort (fun a b => a.index ≤ b.index) = sorted
  dsimp only
  by_cases hlength : sorted.length = count
  · rw [if_neg (not_not_intro hlength), ← checkDimensions_ok (e := e)]
    have hindices : sorted.map (·.index) = List.range count ↔ checkIndices count 0 sorted = .ok () := by
      rw [checkIndices_ok, hlength, List.range_eq_range']
    rw [hindices]
    cases checkIndices count 0 sorted with
    | error err => simp [bind, Except.bind]
    | ok u =>
      cases e.checkDimensions sorted with
      | error err => simp [bind, Except.bind]
      | ok u => simp [bind, Except.bind, pure, Except.pure, eq_comm]
  · rw [if_pos hlength]
    refine ⟨fun h => (by cases h), fun h => absurd ?_ hlength⟩
    rw [← List.length_range (n := count), ← h.1.1, List.length_map]

/-- The vector of an index stands at the index. -/
theorem vectors_index {out : List (List F)} (h : e.vectors count data = .ok out) :
    out.length = count ∧ ∀ d ∈ data, out[d.index]? = some d.embedding := by
  obtain ⟨⟨hperm, -⟩, rfl⟩ := vectors_ok.mp h
  have hindices := sorted_indices.mpr hperm
  have hlength : (data.insertionSort fun a b => a.index ≤ b.index).length = count := by
    rw [← List.length_map (·.index), hindices, List.length_range]
  refine ⟨by rw [List.length_map, hlength], fun d hd => ?_⟩
  have hmem := (List.perm_insertionSort (fun a b : EmbeddingDatum F => a.index ≤ b.index) data).mem_iff.mpr hd
  obtain ⟨i, hi, hd⟩ := List.getElem_of_mem hmem
  have hindex := congrArg (·[i]?) hindices
  rw [hlength] at hi
  simp only [List.getElem?_map, List.getElem?_range hi, Option.map_eq_some_iff] at hindex
  obtain ⟨d', hd', rfl⟩ := hindex
  rw [List.getElem?_eq_getElem (hlength.symm ▸ hi), hd] at hd'
  obtain rfl := Option.some.inj hd'
  rw [List.getElem?_map, List.getElem?_eq_getElem (hlength.symm ▸ hi), hd]
  rfl

/-! ### Embedding -/

end OpenAiEmbedder

end AgentVerse
