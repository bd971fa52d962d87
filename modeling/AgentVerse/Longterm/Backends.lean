import AgentVerse.Longterm.Vector

/-!
# Vector stores

`LanceDbVectorStore` filters by a condition that it writes as text, with the id of the user as a string literal, and
`PgVectorStore` binds its parameters. What the databases do is a parameter: which rows satisfy a condition, which are
the nearest, and when a request fails. A literal is read back as the id that it was written for, whatever quotes are in
it (`lexLiteral_quoted`), so both stores serve their users.
-/

namespace AgentVerse

open Effects

namespace Longterm

/-! ### String literals -/

/-- The quote of a string literal. -/
def quote : Char := '\x27'

/-- `replace('\'', "''")`. -/
def doubleQuotes (text : List Char) : List Char := text.flatMap fun c => if c = quote then [quote, quote] else [c]

/-- A string literal of SQL for a text. -/
def quoted (text : List Char) : List Char := quote :: (doubleQuotes text ++ [quote])

/-- The text of a string literal whose first quote was read, and what follows it. -/
def literalRest : List Char → Option (List Char × List Char)
  | [] => none
  | [c] => if c = quote then some ([], []) else none
  | c :: d :: cs =>
    if c = quote then
      if d = quote then (literalRest cs).map fun x => (quote :: x.1, x.2) else some ([], d :: cs)
    else (literalRest (d :: cs)).map fun x => (c :: x.1, x.2)

/-- How SQL reads a string literal. -/
def lexLiteral : List Char → Option (List Char × List Char)
  | [] => none
  | c :: cs => if c = quote then literalRest cs else none

theorem literalRest_doubled (text : List Char) : literalRest (doubleQuotes text ++ [quote]) = some (text, []) := by
  induction text with
  | nil => simp [doubleQuotes, literalRest]
  | cons c text ih =>
    have hcons : doubleQuotes (c :: text) ++ [quote] =
        (if c = quote then [quote, quote] else [c]) ++ (doubleQuotes text ++ [quote]) := by
      simp [doubleQuotes]
    rw [hcons]
    by_cases hc : c = quote
    · subst hc
      rw [if_pos rfl]
      show literalRest (quote :: quote :: (doubleQuotes text ++ [quote])) = _
      rw [literalRest, if_pos rfl, if_pos rfl, ih]
      rfl
    · rw [if_neg hc]
      obtain ⟨d, cs, hd⟩ : ∃ d cs, doubleQuotes text ++ [quote] = d :: cs :=
        List.exists_cons_of_ne_nil (by simp)
      rw [hd] at ih ⊢
      show literalRest (c :: d :: cs) = _
      rw [literalRest, if_neg hc, ih]
      rfl

/-- A literal is read back as the text that it was written for. -/
theorem lexLiteral_quoted (text : List Char) : lexLiteral (quoted text) = some (text, []) := by
  rw [quoted, lexLiteral, if_pos rfl, literalRest_doubled]

variable {F : Type} [Arithmetic F]

/-! ### LanceDB -/

structure LanceRow (F : Type) where
  userId : String
  content : String
  importance : F
  createdAt : String
  embedding : List F

/-- What LanceDB does: `fault` says how a request fails, `onlyIf` which rows satisfy a condition, and `nearest` which are
the nearest ones, with their distances. -/
structure LanceDb (F : Type) where
  fault : Nat → Option String
  tableExists : String
  onlyIf : String → Except String (LanceRow F → Bool)
  nearest : List F → Nat → List (LanceRow F) → List (LanceRow F × F)
  toRfc3339 : Int → String
  parseFromRfc3339 : String → Except String Int

/-- The rows of the table, if there is one, and the requests so far. -/
structure LanceState (F : Type) where
  table : Option (List (LanceRow F))
  requests : Nat

def LanceState.tick (s : LanceState F) : LanceState F := { s with requests := s.requests + 1 }

/-- The instant is in a year of four digits, from 0000 to 9999. -/
def FourDigitYear (t : Int) : Prop := -62167219200 * 10 ^ 9 ≤ t ∧ t < 253402300800 * 10 ^ 9

instance (t : Int) : Decidable (FourDigitYear t) := inferInstanceAs (Decidable (_ ∧ _))

namespace LanceDb

variable (db : LanceDb F) (dimensions : Nat)

def connect (s : LanceState F) : Except MemoryError Unit × LanceState F :=
  match db.fault s.requests with
  | some e => (.error (.storage e), s.tick)
  | none => (.ok (), s.tick)

def createTable (s : LanceState F) : Except MemoryError (List (LanceRow F)) × LanceState F :=
  match db.fault s.requests, s.table with
  | some e, _ => (.error (.storage e), s.tick)
  | none, some _ => (.error (.storage db.tableExists), s.tick)
  | none, none => (.ok [], { s.tick with table := some [] })

/-- The table is created whenever it cannot be opened. -/
def openOrCreateTable (s : LanceState F) : Except MemoryError (List (LanceRow F)) × LanceState F :=
  match db.fault s.requests, s.table with
  | none, some rows => (.ok rows, s.tick)
  | _, _ => db.createTable s.tick

/-- Both operations open the table first. -/
def table (s : LanceState F) : Except MemoryError (List (LanceRow F)) × LanceState F :=
  match db.connect s with
  | (.error e, s) => (.error e, s)
  | (.ok (), s) => db.openOrCreateTable s

def rowOf (record : VectorRecord F) : LanceRow F :=
  ⟨record.userId, record.content, record.importance, db.toRfc3339 record.createdAt, record.embedding⟩

def store (record : VectorRecord F) (s : LanceState F) : Except MemoryError Unit × LanceState F :=
  if record.embedding.length ≠ dimensions then
    (.error (.storage ("embedding has " ++ toString record.embedding.length ++ " dimensions, expected " ++
      toString dimensions)), s)
  else
    match db.table s with
    | (.error e, s) => (.error e, s)
    | (.ok rows, s) =>
      match db.fault s.requests with
      | some e => (.error (.storage e), s.tick)
      | none => (.ok (), { s.tick with table := some (rows ++ [db.rowOf record]) })

def filterOf (userId : String) : String := "user_id = " ++ String.ofList (quoted userId.toList)

def hitOfRow (x : LanceRow F × F) : Except MemoryError (VectorHit F) :=
  match db.parseFromRfc3339 x.1.createdAt with
  | .error e => .error (.retrieval e)
  | .ok t => .ok ⟨x.1.content, Arithmetic.one / (Arithmetic.one + x.2), x.1.importance, t⟩

def search (userId : String) (embedding : List F) (topK : Nat) (s : LanceState F) :
    Except MemoryError (List (VectorHit F)) × LanceState F :=
  match db.table s with
  | (.error e, s) => (.error e, s)
  | (.ok rows, s) =>
    match db.fault s.requests, db.onlyIf (filterOf userId) with
    | some e, _ => (.error (.retrieval e), s.tick)
    | none, .error e => (.error (.retrieval e), s.tick)
    | none, .ok p =>
      match (db.nearest embedding topK (rows.filter p)).mapM db.hitOfRow with
      | .error e => (.error e, s.tick)
      | .ok hits => (.ok (best VectorHit.relevance topK hits), s.tick)

def vectorStore : VectorStore F (LanceState F) := ⟨db.store dimensions, db.search⟩

/-- What is relied on: a comparison with a string literal is one with its text, the nearest rows are the nearest, and
an instant in a year of four digits is read back from its text. -/
structure Lawful (distance : List F → List F → F) : Prop where
  onlyIf : ∀ literal value, lexLiteral literal.toList = some (value, []) →
    ∃ p, db.onlyIf ("user_id = " ++ literal) = .ok p ∧ ∀ row, p row = true ↔ row.userId = String.ofList value
  nearest : ∀ embedding limit rows, ∃ left, ((db.nearest embedding limit rows).map Prod.fst ++ left).Perm rows ∧
    (db.nearest embedding limit rows).length = min limit rows.length ∧
    (∀ x ∈ db.nearest embedding limit rows, x.2 = distance x.1.embedding embedding) ∧
    ∀ b ∈ left, ∀ x ∈ db.nearest embedding limit rows, x.2 ≤ distance b.embedding embedding
  parse : ∀ t, FourDigitYear t → db.parseFromRfc3339 (db.toRfc3339 t) = .ok t

end LanceDb

/-! ### Postgres -/

/-- What Postgres does. A column of type `timestamptz` keeps of an instant what `instant` says. -/
structure PgVector (F : Type) where
  fault : Nat → Option String
  negativeLimit : String
  instant : Int → Int
  nearest : List F → Nat → List (VectorRecord F) → List (VectorRecord F × F)

structure PgState (F : Type) where
  rows : List (VectorRecord F)
  requests : Nat

namespace PgVector

variable (db : PgVector F)

def store (record : VectorRecord F) (s : PgState F) : Except MemoryError Unit × PgState F :=
  match db.fault s.requests with
  | some e => (.error (.storage e), { s with requests := s.requests + 1 })
  | none => (.ok (), ⟨s.rows ++ [{ record with createdAt := db.instant record.createdAt }], s.requests + 1⟩)

/-- The limit is cast to `i64`. -/
def search (userId : String) (embedding : List F) (topK : Nat) (s : PgState F) :
    Except MemoryError (List (VectorHit F)) × PgState F :=
  match db.fault s.requests with
  | some e => (.error (.retrieval e), { s with requests := s.requests + 1 })
  | none =>
    (if 2 ^ 63 ≤ topK then .error (.retrieval db.negativeLimit)
      else .ok ((db.nearest embedding topK (ofUser userId s.rows)).map fun x => hitOf x.1 x.2),
      { s with requests := s.requests + 1 })

def vectorStore : VectorStore F (PgState F) := ⟨db.store, db.search⟩

/-- The nearest rows are the nearest. -/
def Lawful (distance : List F → List F → F) : Prop := ∀ embedding limit rows, ∃ left,
  ((db.nearest embedding limit rows).map Prod.fst ++ left).Perm rows ∧
    (db.nearest embedding limit rows).length = min limit rows.length ∧
    (∀ x ∈ db.nearest embedding limit rows, x.2 = distance x.1.embedding embedding) ∧
    ∀ b ∈ left, ∀ x ∈ db.nearest embedding limit rows, x.2 ≤ distance b.embedding embedding

end PgVector

/-! ### Both serve their users -/

namespace LanceDb

variable {db : LanceDb F} {distance : List F → List F → F} {dimensions : Nat} {s : LanceState F}

def rows (s : LanceState F) : List (LanceRow F) := s.table.getD []

/-- The record of a row. -/
def recordOfRow (db : LanceDb F) (row : LanceRow F) : VectorRecord F :=
  ⟨row.userId, row.content, row.embedding, row.importance, (db.parseFromRfc3339 row.createdAt).toOption.getD 0⟩

def records (db : LanceDb F) (s : LanceState F) : List (VectorRecord F) := (rows s).map db.recordOfRow

/-- The instants of all rows can be read. -/
def Readable (db : LanceDb F) (s : LanceState F) : Prop :=
  ∀ row ∈ rows s, ∃ t, db.parseFromRfc3339 row.createdAt = .ok t

variable (db) in
omit [Arithmetic F] in
/-- Opening the table changes no rows. -/
theorem table_spec (s : LanceState F) :
    rows (db.table s).2 = rows s ∧ ∀ t, (db.table s).1 = .ok t → t = rows s := by
  unfold table connect
  cases db.fault s.requests with
  | some e => exact ⟨rfl, nofun⟩
  | none =>
    dsimp only
    unfold openOrCreateTable createTable rows
    cases hfault : db.fault s.tick.requests with
    | none =>
      cases htable : s.table with
      | some r => simp [LanceState.tick, htable]
      | none =>
        cases db.fault s.tick.tick.requests <;> simp [LanceState.tick, htable]
    | some e =>
      cases db.fault s.tick.tick.requests <;> cases htable : s.table <;> simp [LanceState.tick, htable]

variable (dimensions) in
omit [Arithmetic F] in
theorem store_spec (db : LanceDb F) (s : LanceState F) (record : VectorRecord F) :
    (db.store dimensions record s).1 = .ok () ∧
      rows (db.store dimensions record s).2 = rows s ++ [db.rowOf record] ∨
    (∃ e, (db.store dimensions record s).1 = .error e) ∧ rows (db.store dimensions record s).2 = rows s := by
  unfold store
  split
  · exact .inr ⟨⟨_, rfl⟩, rfl⟩
  · obtain ⟨hrows, hok⟩ := table_spec db s
    generalize db.table s = x at hrows hok
    obtain ⟨r, s'⟩ := x
    cases r with
    | error e => exact .inr ⟨⟨e, rfl⟩, hrows⟩
    | ok t =>
      obtain rfl := hok t rfl
      dsimp only
      cases db.fault s'.requests with
      | some e => exact .inr ⟨⟨_, rfl⟩, hrows⟩
      | none => exact .inl ⟨rfl, rfl⟩

/-- The filter selects the rows of its user, whatever the id of the user is. -/
theorem onlyIf_filterOf (hdb : db.Lawful distance) (userId : String) :
    ∃ p, db.onlyIf (filterOf userId) = .ok p ∧ ∀ row, p row = true ↔ row.userId = userId := by
  obtain ⟨p, hp, hrow⟩ := hdb.onlyIf (String.ofList (quoted userId.toList)) userId.toList
    (by rw [String.toList_ofList, lexLiteral_quoted])
  exact ⟨p, hp, fun row => by rw [hrow, String.ofList_toList]⟩

theorem mapM_hitOfRow {l : List (LanceRow F × F)} (h : ∀ x ∈ l, ∃ t, db.parseFromRfc3339 x.1.createdAt = .ok t) :
    l.mapM db.hitOfRow = .ok (l.map fun x => hitOf (db.recordOfRow x.1) x.2) := by
  induction l with
  | nil => rfl
  | cons x l ih =>
    obtain ⟨t, ht⟩ := h x List.mem_cons_self
    rw [List.mapM_cons, ih fun y hy => h y (List.mem_cons_of_mem _ hy)]
    simp [hitOfRow, ht, hitOf, recordOfRow, Except.toOption]
    rfl

theorem search_spec (hdb : db.Lawful distance) (hs : db.Readable s) (userId : String) (embedding : List F) (topK : Nat) :
    rows (db.search userId embedding topK s).2 = rows s ∧
      ∀ hits, (db.search userId embedding topK s).1 = .ok hits →
        ∃ found left, Nearest distance embedding topK (ofUser userId (db.records s)) found left ∧
          hits.Perm (found.map fun r => hitOf r (distance r.embedding embedding)) := by
  unfold search
  obtain ⟨hrows, hok⟩ := table_spec db s
  generalize db.table s = x at hrows hok
  obtain ⟨r, s'⟩ := x
  cases r with
  | error e => exact ⟨hrows, nofun⟩
  | ok t =>
    obtain rfl := hok t rfl
    obtain ⟨p, hp, huser⟩ := onlyIf_filterOf hdb userId
    dsimp only
    rw [hp]
    cases db.fault s'.requests with
    | some e => exact ⟨hrows, nofun⟩
    | none =>
      obtain ⟨left, hperm, hlength, hdistance, hnear⟩ := hdb.nearest embedding topK ((rows s).filter p)
      have hreadable : ∀ x ∈ db.nearest embedding topK ((rows s).filter p),
          ∃ t, db.parseFromRfc3339 x.1.createdAt = .ok t := by
        intro x hx
        have hmem : x.1 ∈ (rows s).filter p :=
          hperm.subset (List.mem_append_left _ (List.mem_map.mpr ⟨x, hx, rfl⟩))
        exact hs x.1 (List.mem_of_mem_filter hmem)
      have hmine : ofUser userId (db.records s) = ((rows s).filter p).map db.recordOfRow := by
        rw [ofUser, records, List.filter_map]
        refine congrArg _ (List.filter_congr fun row _ => ?_)
        exact Bool.eq_iff_iff.mpr (decide_eq_true_iff.trans (huser row).symm)
      dsimp only
      rw [mapM_hitOfRow hreadable]
      refine ⟨hrows, fun hits hhits => ?_⟩
      cases hhits
      refine ⟨(db.nearest embedding topK ((rows s).filter p)).map fun x => db.recordOfRow x.1, left.map db.recordOfRow,
        ⟨?_, ?_, ?_⟩, ?_⟩
      · rw [hmine]
        have hmap := hperm.map db.recordOfRow
        rwa [List.map_append, List.map_map] at hmap
      · rw [hmine, List.length_map, List.length_map, hlength]
      · intro b hb a ha
        obtain ⟨row, hrow, rfl⟩ := List.mem_map.mp hb
        obtain ⟨x, hx, rfl⟩ := List.mem_map.mp ha
        have hle : x.2 ≤ distance row.embedding embedding := hnear row hrow x hx
        rwa [hdistance x hx] at hle
      · have hfew : (db.nearest embedding topK ((rows s).filter p)).length ≤ topK := by
          rw [hlength]
          exact Nat.min_le_left ..
        refine (best_perm (by rwa [List.length_map])).trans (List.Perm.of_eq ?_)
        rw [List.map_map]
        refine List.map_congr_left fun x hx => ?_
        rw [hdistance x hx]
        rfl

theorem serves (hdb : db.Lawful distance) (dimensions : Nat) :
    Serves (db.vectorStore dimensions) distance FourDigitYear id db.Readable db.records where
  stored {record s s'} hs htakes h := by
    have hspec := store_spec dimensions db s record
    rw [show db.store dimensions record s = _ from h] at hspec
    rcases hspec with ⟨-, hrows⟩ | ⟨⟨e, he⟩, -⟩
    · have hrecord : db.recordOfRow (db.rowOf record) = record := by
        simp [recordOfRow, rowOf, hdb.parse _ htakes, Except.toOption]
      refine ⟨fun row hrow => ?_, by simp [records, hrows, hrecord]⟩
      rw [hrows] at hrow
      rcases List.mem_append.mp hrow with hrow | hrow
      · exact hs row hrow
      · rw [List.mem_singleton.mp hrow]
        exact ⟨_, hdb.parse record.createdAt htakes⟩
    · cases he
  refused {record s s' e} hs h := by
    have hspec := store_spec dimensions db s record
    rw [show db.store dimensions record s = _ from h] at hspec
    rcases hspec with ⟨hok, -⟩ | ⟨-, hrows⟩
    · cases hok
    · refine ⟨?_, congrArg (List.map db.recordOfRow) hrows⟩
      unfold Readable
      rw [show rows s' = rows s from hrows]
      exact hs
  searched {userId embedding limit s r s'} hs h := by
    obtain ⟨hrows, -⟩ := search_spec hdb hs userId embedding limit
    rw [show db.search userId embedding limit s = _ from h] at hrows
    refine ⟨?_, congrArg (List.map db.recordOfRow) hrows⟩
    unfold Readable
    rw [hrows]
    exact hs
  found {userId embedding limit s s' hits} hs h :=
    (search_spec hdb hs userId embedding limit).2 hits (congrArg Prod.fst h)

end LanceDb

theorem PgVector.serves {db : PgVector F} {distance : List F → List F → F} (hdb : db.Lawful distance) :
    Serves db.vectorStore distance (fun _ => True) db.instant (fun _ => True) PgState.rows where
  stored {record s s'} _ _ h := by
    unfold vectorStore store at h
    dsimp only at h
    split at h
    · cases h
    · cases h
      exact ⟨trivial, rfl⟩
  refused {record s s' e} _ h := by
    unfold vectorStore store at h
    dsimp only at h
    split at h
    · cases h
      exact ⟨trivial, rfl⟩
    · cases h
  searched {userId embedding limit s r s'} _ h := by
    unfold vectorStore search at h
    dsimp only at h
    split at h
    · cases h
      exact ⟨trivial, rfl⟩
    · cases h
      exact ⟨trivial, rfl⟩
  found {userId embedding limit s s' hits} _ h := by
    unfold vectorStore search at h
    dsimp only at h
    obtain ⟨left, hperm, hlength, hdistance, hnear⟩ := hdb embedding limit (ofUser userId s.rows)
    split at h
    · cases h
    · split at h
      · cases h
      · cases h
        refine ⟨_, left, ⟨hperm, by rwa [List.length_map], fun b hb a ha => ?_⟩, List.Perm.of_eq ?_⟩
        · obtain ⟨x, hx, rfl⟩ := List.mem_map.mp ha
          have hle : x.2 ≤ distance b.embedding embedding := hnear b hb x hx
          rwa [hdistance x hx] at hle
        · rw [List.map_map]
          refine List.map_congr_left fun x hx => ?_
          rw [hdistance x hx]
          rfl

/-! ### Long-term memory over both -/

/-- What a user finds in a memory after some calls: memories written for that user alone, nearest to the query. -/
def FindsOwn {S : Type} (m : VectorLongtermMemory F S) (distance : List F → List F → F) (instant : Int → Int)
    (records : S → List (VectorRecord F)) (s : State S) (calls : List (MemoryCall F)) : Prop :=
  let s' := (memory m).run s calls
  ∀ userId,
    ofUser userId (records s'.store) = ofUser userId (records s.store) ++
      ((calls.zip ((memory m).outputs s calls)).zipIdx s.asked).filterMap (wrote? m instant userId) ∧
    ∀ query topK now memories, (m.retrieve userId query topK now s').1 = .ok memories →
      Retrieved m distance query topK now s'.asked (ofUser userId (records s'.store)) memories

theorem findsOwn {S : Type} {m : VectorLongtermMemory F S} {distance : List F → List F → F} {takes : Int → Prop}
    {instant : Int → Int} {inv : S → Prop} {records : S → List (VectorRecord F)}
    (hs : Serves m.store distance takes instant inv records) {s : State S} (hinv : inv s.store)
    {calls : List (MemoryCall F)} (htakes : ∀ call ∈ calls, call.WritesIn takes) :
    FindsOwn m distance instant records s calls := by
  intro userId
  obtain ⟨hinv', hrecords⟩ := run_records hs hinv userId htakes
  exact ⟨hrecords, fun query topK now => (retrieve_spec hs hinv' userId query topK now).2.2⟩

/-- Whole numbers, with powers cut off. -/
instance wholeNumbers : Arithmetic Int where
  one := 1
  half := 0
  powf a b := a ^ b.toNat
  ofInt := id

/-- The nearest rows where all are at no distance. -/
def firstRows {R : Type} (limit : Nat) (rows : List R) : List (R × Int) := (rows.take limit).map fun row => (row, 0)

theorem firstRows_spec {R : Type} (limit : Nat) (rows : List R) :
    ∃ left, ((firstRows limit rows).map Prod.fst ++ left).Perm rows ∧
      (firstRows limit rows).length = min limit rows.length ∧ (∀ x ∈ firstRows limit rows, x.2 = 0) ∧
      ∀ b ∈ left, ∀ x ∈ firstRows limit rows, x.2 ≤ 0 := by
  have hzero : ∀ x ∈ firstRows limit rows, x.2 = 0 := by
    intro x hx
    obtain ⟨row, -, rfl⟩ := List.mem_map.mp hx
    rfl
  refine ⟨rows.drop limit, ?_, by simp [firstRows], hzero, fun b _ x hx => (hzero x hx).le⟩
  simp [firstRows, Function.comp_def]

/-- A database for vectors of one dimension, all of which are alike, and instants at the start of the epoch. -/
def LanceDb.small : LanceDb Int where
  fault _ := none
  tableExists := "table exists"
  onlyIf text :=
    match lexLiteral (text.toList.drop "user_id = ".toList.length) with
    | some (value, []) => .ok fun row => row.userId = String.ofList value
    | _ => .error "syntax error"
  nearest _ := firstRows
  toRfc3339 t :=
    if t = 0 then "1970-01-01T00:00:00+00:00"
    else String.ofList ((if 0 < t then 'x' else '-') :: List.replicate t.natAbs 'x')
  parseFromRfc3339 text := .ok <|
    match text.toList with
    | 'x' :: cs => cs.length
    | '-' :: cs => -cs.length
    | _ => 0

theorem LanceDb.small_lawful : LanceDb.small.Lawful fun _ _ => 0 where
  onlyIf literal value h := by
    refine ⟨fun row => row.userId = String.ofList value, ?_, fun row => decide_eq_true_iff⟩
    show (match lexLiteral _ with | some (value, []) => _ | _ => _) = _
    rw [String.toList_append, List.drop_left, h]
  nearest _ := firstRows_spec
  parse t _ := by
    simp only [LanceDb.small]
    by_cases hzero : t = 0
    · subst hzero
      rfl
    · rw [if_neg hzero, String.toList_ofList]
      by_cases hpos : 0 < t
      · simp only [if_pos hpos, List.length_replicate]
        rw [Int.natAbs_of_nonneg hpos.le]
      · simp only [if_neg hpos, List.length_replicate]
        rw [Int.ofNat_natAbs_of_nonpos (by omega), Int.neg_neg]

/-- A database that keeps microseconds. -/
def PgVector.small : PgVector Int :=
  ⟨fun _ => none, "LIMIT must not be negative", fun t => t / 1000 * 1000, fun _ => firstRows⟩

/-- One user has a quote in the id, and another one a condition. -/
def twoUsers : List (MemoryCall Int) :=
  [.write "o'brien" ⟨"his", 1, 0⟩, .write "' OR user_id <> '" ⟨"mine", 1, 0⟩]

end Longterm

end AgentVerse
