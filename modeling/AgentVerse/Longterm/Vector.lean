import AgentVerse.Effects.Machine
import AgentVerse.Effects.Ranking
import AgentVerse.Longterm.Embedder

/-!
# Long-term memory

`VectorLongtermMemory` writes the vector of a text to a store and retrieves by the vector of a query: the store finds
four times as many hits as are asked for, by similarity alone, and these are ranked by their scores. Numbers are of any
type with a total order, which stands for `f32` under `total_cmp`; of their arithmetic nothing is assumed.
-/

namespace AgentVerse

open Effects

/-- Numbers and what is computed with them. -/
class Arithmetic (F : Type) extends LinearOrder F, Add F, Mul F, Div F where
  one : F
  half : F
  powf : F → F → F
  ofInt : Int → F

/-- `created_at` is an instant in nanoseconds. -/
structure VectorRecord (F : Type) where
  userId : String
  content : String
  embedding : List F
  importance : F
  createdAt : Int

structure VectorHit (F : Type) where
  content : String
  relevance : F
  importance : F
  createdAt : Int

/-- A store with its state. -/
structure VectorStore (F S : Type) where
  store : VectorRecord F → S → Except MemoryError Unit × S
  search : String → List F → Nat → S → Except MemoryError (List (VectorHit F)) × S

structure LongtermRecord (F : Type) where
  content : String
  importance : F
  createdAt : Int

structure ScoredMemory (F : Type) where
  content : String
  score : F
  createdAt : Int

/-- `half_life` is in seconds. -/
structure ScoreWeights (F : Type) where
  recency : F
  importance : F
  relevance : F
  halfLife : Int

/-- An embedder may answer each time anew. -/
abbrev Embedder (F : Type) : Type := Nat → List String → Except MemoryError (List (List F))

namespace Longterm

variable {F S : Type} [Arithmetic F]

/-- The memory: its store, and how often its embedder was asked. -/
structure State (S : Type) where
  store : S
  asked : Nat

structure VectorLongtermMemory (F S : Type) where
  embedder : Embedder F
  store : VectorStore F S
  weights : ScoreWeights F

/-- The combined score of a hit. -/
def scoreOf (weights : ScoreWeights F) (now : Int) (hit : VectorHit F) : F :=
  let ageSeconds := Arithmetic.ofInt ((now - hit.createdAt).tdiv 1000000000)
  let recency := Arithmetic.powf Arithmetic.half (ageSeconds / Arithmetic.ofInt weights.halfLife)
  weights.recency * recency + weights.importance * hit.importance + weights.relevance * hit.relevance

def scored (weights : ScoreWeights F) (now : Int) (hit : VectorHit F) : ScoredMemory F :=
  ⟨hit.content, scoreOf weights now hit, hit.createdAt⟩

/-- The hits that are asked for, with a multiplication that wraps around. -/
def searchLimit (topK : Nat) : Nat := topK * 4 % 2 ^ 64

/-- `sort_by` and `truncate`. -/
def rank (weights : ScoreWeights F) (now : Int) (topK : Nat) (hits : List (VectorHit F)) : List (ScoredMemory F) :=
  best ScoredMemory.score topK (hits.map (scored weights now))

/-- The vector of one text. -/
def embedOne (embedder : Embedder F) (text : String) (asked : Nat) : Except MemoryError (List F) :=
  match embedder asked [text] with
  | .error e => .error e
  | .ok [] => .error (.embedding "embedder returned no vectors")
  | .ok (embedding :: _) => .ok embedding

namespace VectorLongtermMemory

variable (m : VectorLongtermMemory F S)

def write (userId : String) (record : LongtermRecord F) (s : State S) : Except MemoryError Unit × State S :=
  match embedOne m.embedder record.content s.asked with
  | .error e => (.error e, { s with asked := s.asked + 1 })
  | .ok embedding =>
    let r := m.store.store ⟨userId, record.content, embedding, record.importance, record.createdAt⟩ s.store
    (r.1, ⟨r.2, s.asked + 1⟩)

def retrieve (userId query : String) (topK : Nat) (now : Int) (s : State S) :
    Except MemoryError (List (ScoredMemory F)) × State S :=
  match embedOne m.embedder query s.asked with
  | .error e => (.error e, { s with asked := s.asked + 1 })
  | .ok embedding =>
    let r := m.store.search userId embedding (searchLimit topK) s.store
    (r.1.map (rank m.weights now topK), ⟨r.2, s.asked + 1⟩)

end VectorLongtermMemory

/-! ### Stores that serve their users -/

/-- The hit of a record at a distance. -/
def hitOf (r : VectorRecord F) (d : F) : VectorHit F :=
  ⟨r.content, Arithmetic.one / (Arithmetic.one + d), r.importance, r.createdAt⟩

/-- `found` are at most `limit` of some records, none of them farther from a vector than one of those `left` out. -/
structure Nearest (distance : List F → List F → F) (embedding : List F) (limit : Nat)
    (records found left : List (VectorRecord F)) : Prop where
  perm : (found ++ left).Perm records
  length : found.length = min limit records.length
  near : ∀ b ∈ left, ∀ a ∈ found, distance a.embedding embedding ≤ distance b.embedding embedding

/-- The records of a user. -/
def ofUser (userId : String) (records : List (VectorRecord F)) : List (VectorRecord F) :=
  records.filter fun r => r.userId = userId

/-- A store that keeps what it is given, with what `instant` leaves of the instants that it takes, and finds the nearest
records of a user. Its records are read off states that satisfy an invariant. -/
structure Serves (vs : VectorStore F S) (distance : List F → List F → F) (takes : Int → Prop) (instant : Int → Int)
    (inv : S → Prop) (records : S → List (VectorRecord F)) : Prop where
  stored : ∀ {record s s'}, inv s → takes record.createdAt → vs.store record s = (.ok (), s') →
    inv s' ∧ records s' = records s ++ [{ record with createdAt := instant record.createdAt }]
  refused : ∀ {record s s' e}, inv s → vs.store record s = (.error e, s') → inv s' ∧ records s' = records s
  searched : ∀ {userId embedding limit s r s'}, inv s → vs.search userId embedding limit s = (r, s') →
    inv s' ∧ records s' = records s
  found : ∀ {userId embedding limit s s' hits}, inv s → vs.search userId embedding limit s = (.ok hits, s') →
    ∃ found left, Nearest distance embedding limit (ofUser userId (records s)) found left ∧
      hits.Perm (found.map fun r => hitOf r (distance r.embedding embedding))

/-! ### Runs -/

inductive MemoryCall (F : Type) where
  | write (userId : String) (record : LongtermRecord F)
  | retrieve (userId query : String) (topK : Nat) (now : Int)

inductive MemoryReply (F : Type) where
  | written (r : Except MemoryError Unit)
  | retrieved (r : Except MemoryError (List (ScoredMemory F)))

variable (m : VectorLongtermMemory F S)

/-- The memory serves one call after the other. -/
def memory : Machine (MemoryCall F) (MemoryReply F) (State S) where
  step
    | s, .write userId record => ((.written (m.write userId record s).1), (m.write userId record s).2)
    | s, .retrieve userId query topK now =>
      ((.retrieved (m.retrieve userId query topK now s).1), (m.retrieve userId query topK now s).2)

/-- What a call wrote for a user, with the vector of its text from an embedder that was asked `asked` times before, and
the instant that is kept. -/
def wrote? (instant : Int → Int) (userId : String) :
    (MemoryCall F × MemoryReply F) × Nat → Option (VectorRecord F)
  | ((.write u record, .written (.ok ())), asked) =>
    if u = userId then (embedOne m.embedder record.content asked).toOption.map fun embedding =>
      ⟨userId, record.content, embedding, record.importance, instant record.createdAt⟩
    else none
  | _ => none

/-- The call writes no instant but those that are taken. -/
def MemoryCall.WritesIn (takes : Int → Prop) : MemoryCall F → Prop
  | write _ record => takes record.createdAt
  | retrieve .. => True

/-- The memories of a user that the result of a retrieval is made of: those nearest to the vector of the query, by their
scores. -/
def Retrieved (distance : List F → List F → F) (query : String) (topK : Nat) (now : Int) (asked : Nat)
    (mine : List (VectorRecord F)) (memories : List (ScoredMemory F)) : Prop :=
  ∃ embedding found left, embedOne m.embedder query asked = .ok embedding ∧
    Nearest distance embedding (searchLimit topK) mine found left ∧
    let score := fun r => scored m.weights now (hitOf r (distance r.embedding embedding))
    Best ScoredMemory.score topK (found.map score) memories ∧
    (topK < 2 ^ 62 → (Best ScoredMemory.score topK (mine.map score) memories ↔
      ∀ r ∈ left, ∀ a ∈ memories, (score r).score ≤ a.score))

variable {m} {distance : List F → List F → F} {takes : Int → Prop} {instant : Int → Int} {inv : S → Prop}
  {records : S → List (VectorRecord F)} {s s' : State S} {userId query : String} {topK : Nat} {now : Int}

theorem searchLimit_eq (h : topK < 2 ^ 62) : searchLimit topK = topK * 4 := by
  unfold searchLimit
  omega

variable (m) in
omit [Arithmetic F] in
theorem write_asked (userId : String) (record : LongtermRecord F) (s : State S) :
    (m.write userId record s).2.asked = s.asked + 1 := by
  unfold VectorLongtermMemory.write
  cases embedOne m.embedder record.content s.asked <;> rfl

variable (m) in
theorem retrieve_asked (userId query : String) (topK : Nat) (now : Int) (s : State S) :
    (m.retrieve userId query topK now s).2.asked = s.asked + 1 := by
  unfold VectorLongtermMemory.retrieve
  cases embedOne m.embedder query s.asked <;> rfl

/-- A write adds the record of its user, or nothing at all. -/
theorem write_spec (hs : Serves m.store distance takes instant inv records) (hinv : inv s.store) (userId : String)
    {record : LongtermRecord F} (htakes : takes record.createdAt) :
    inv (m.write userId record s).2.store ∧
      ((m.write userId record s).1 = .ok () ∧ (∃ embedding, embedOne m.embedder record.content s.asked = .ok embedding ∧
        records (m.write userId record s).2.store = records s.store ++
          [⟨userId, record.content, embedding, record.importance, instant record.createdAt⟩]) ∨
      (∃ e, (m.write userId record s).1 = .error e) ∧ records (m.write userId record s).2.store = records s.store) := by
  unfold VectorLongtermMemory.write
  cases embedOne m.embedder record.content s.asked with
  | error e => exact ⟨hinv, .inr ⟨⟨e, rfl⟩, rfl⟩⟩
  | ok embedding =>
    dsimp only
    generalize hstore : m.store.store ⟨userId, record.content, embedding, record.importance, record.createdAt⟩ s.store = x
    obtain ⟨r, store⟩ := x
    cases r with
    | error e =>
      obtain ⟨hinv', hrecords⟩ := hs.refused hinv hstore
      exact ⟨hinv', .inr ⟨⟨e, rfl⟩, hrecords⟩⟩
    | ok u =>
      obtain ⟨hinv', hrecords⟩ := hs.stored hinv htakes hstore
      exact ⟨hinv', .inl ⟨rfl, embedding, rfl, hrecords⟩⟩

/-- A retrieval changes no records, and its result is made of those of its user. -/
theorem retrieve_spec (hs : Serves m.store distance takes instant inv records) (hinv : inv s.store) (userId query : String)
    (topK : Nat) (now : Int) :
    inv (m.retrieve userId query topK now s).2.store ∧
      records (m.retrieve userId query topK now s).2.store = records s.store ∧
      ∀ memories, (m.retrieve userId query topK now s).1 = .ok memories →
        Retrieved m distance query topK now s.asked (ofUser userId (records s.store)) memories := by
  unfold VectorLongtermMemory.retrieve
  cases hembed : embedOne m.embedder query s.asked with
  | error e => exact ⟨hinv, rfl, nofun⟩
  | ok embedding =>
    dsimp only
    generalize hsearch : m.store.search userId embedding (searchLimit topK) s.store = x
    obtain ⟨r, store⟩ := x
    obtain ⟨hinv', hrecords⟩ := hs.searched hinv hsearch
    refine ⟨hinv', hrecords, fun memories hmemories => ?_⟩
    cases r with
    | error e => cases hmemories
    | ok hits =>
      cases hmemories
      obtain ⟨found, left, hnear, hperm⟩ := hs.found hinv hsearch
      have hbest : Best ScoredMemory.score topK
          (found.map fun r => scored m.weights now (hitOf r (distance r.embedding embedding)))
          (rank m.weights now topK hits) := by
        have hmap := hperm.map (scored m.weights now)
        rw [List.map_map] at hmap
        exact (best_spec _ topK (hits.map (scored m.weights now))).of_perm hmap
      refine ⟨embedding, found, left, hembed, hnear, hbest, fun htopK => ?_⟩
      have hall := hnear.perm.map fun r => scored m.weights now (hitOf r (distance r.embedding embedding))
      rw [List.map_append] at hall
      refine (hbest.widen_iff hall ?_).trans (by simp)
      rw [List.length_map, List.map_eq_nil_iff]
      have hlength := hnear.length
      have hlengths := hnear.perm.length_eq
      rw [searchLimit_eq htopK] at hlength
      rw [List.length_append] at hlengths
      by_cases hfew : (ofUser userId (records s.store)).length ≤ topK * 4
      · exact .inr (List.eq_nil_of_length_eq_zero (by omega))
      · exact .inl (by omega)

/-- Over a run, the records of a user are those written for the user, and no others. -/
theorem run_records (hs : Serves m.store distance takes instant inv records) (hinv : inv s.store) (userId : String)
    {calls : List (MemoryCall F)} (htakes : ∀ call ∈ calls, call.WritesIn takes) :
    inv ((memory m).run s calls).store ∧
      ofUser userId (records ((memory m).run s calls).store) = ofUser userId (records s.store) ++
        ((calls.zip ((memory m).outputs s calls)).zipIdx s.asked).filterMap (wrote? m instant userId) := by
  induction calls generalizing s with
  | nil => exact ⟨hinv, (List.append_nil _).symm⟩
  | cons call calls ih =>
    have hrun := fun {s : State S} hinv => ih (s := s) hinv fun call h => htakes call (List.mem_cons_of_mem _ h)
    cases call with
    | retrieve u query topK now =>
      obtain ⟨hinv', hrecords, -⟩ := retrieve_spec hs hinv u query topK now
      obtain ⟨hinv'', hrest⟩ := hrun hinv'
      rw [hrecords, retrieve_asked] at hrest
      exact ⟨hinv'', hrest⟩
    | write u record =>
      obtain ⟨hinv', hwrote⟩ := write_spec hs hinv u (htakes _ List.mem_cons_self)
      obtain ⟨hinv'', hrest⟩ := hrun hinv'
      rw [write_asked] at hrest
      refine ⟨hinv'', hrest.trans ?_⟩
      rw [Machine.outputs, List.zip_cons_cons, List.zipIdx_cons]
      rcases hwrote with ⟨hok, embedding, hembed, hrecords⟩ | ⟨⟨e, herr⟩, hrecords⟩
      · have hhead : wrote? m instant userId
            ((.write u record, ((memory m).step s (.write u record)).1), s.asked) = if u = userId then
              some ⟨userId, record.content, embedding, record.importance, instant record.createdAt⟩ else none := by
          show wrote? m instant userId ((.write u record, .written (m.write u record s).1), s.asked) = _
          rw [hok, wrote?, hembed]
          rfl
        rw [hrecords]
        by_cases hu : u = userId
        · rw [List.filterMap_cons_some (hhead.trans (if_pos hu))]
          simp [ofUser, hu]
          rfl
        · rw [List.filterMap_cons_none (hhead.trans (if_neg hu))]
          simp [ofUser, hu]
          rfl
      · have hhead : wrote? m instant userId
            ((.write u record, ((memory m).step s (.write u record)).1), s.asked) = none := by
          show wrote? m instant userId ((.write u record, .written (m.write u record s).1), s.asked) = _
          rw [herr]
          rfl
        rw [hrecords, List.filterMap_cons_none hhead]
        rfl

end Longterm

end AgentVerse
