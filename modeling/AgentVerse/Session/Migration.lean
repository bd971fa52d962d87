import Mathlib.Data.List.Forall2
import AgentVerse.Session.Memory

/-!
# Schema migration of the Postgres store

`PostgresSessionMemory::migrate` over the part of a database that it looks at: the tables `sessions` and `messages`,
their columns and rows, and two indexes. Every statement commits on its own.
-/

namespace AgentVerse

open Effects

namespace Postgres

/-! ### Databases -/

/-- The columns of `sessions` that later versions added. -/
inductive SessionColumn where
  | consolidationWatermark
  | skillContextJson
  | phaseOpeningContext
  | interruptedState
  deriving DecidableEq

def SessionColumn.name : SessionColumn → String
  | consolidationWatermark => "consolidation_watermark"
  | skillContextJson => "skill_context_json"
  | phaseOpeningContext => "phase_opening_context"
  | interruptedState => "interrupted_state"

inductive SqlValue where
  | null
  | bigint (n : Int)
  | text (s : String)
  deriving DecidableEq

/-- A row of `sessions`. The value in a column that the table lacks means nothing. -/
structure SessionRow where
  id : String
  userId : String
  status : String
  createdAt : Int
  updatedAt : Int
  values : SessionColumn → SqlValue

structure MessageRow where
  id : Int
  sessionId : String
  role : String
  content : String
  sequenceNum : Option Int
  createdAt : Int
  deriving DecidableEq

structure SessionsTable where
  columns : List SessionColumn
  rows : List SessionRow

/-- The column `sequence_num` of `messages`, and whether `UNIQUE(session_id, sequence_num)` is in force. -/
inductive SequenceColumn where
  | absent
  | present (unique : Bool)
  deriving DecidableEq

structure MessagesTable where
  sequenceNum : SequenceColumn
  rows : List MessageRow

structure Database where
  sessions : Option SessionsTable
  messages : Option MessagesTable
  sessionsIndex : Bool
  messagesIndex : Bool

/-! ### Statements -/

/-- The statements of `migrate`, in the order in which it has them. -/
inductive Statement where
  | createSessions
  | createSessionsIndex
  | createMessages
  | createMessagesIndex
  | countSequenceNum
  | addSequenceNum
  | numberMessages
  | countColumn (c : SessionColumn)
  | addColumn (c : SessionColumn)
  deriving DecidableEq

/-- The value of an added column in the rows that are there. -/
def SessionColumn.default : SessionColumn → SqlValue
  | consolidationWatermark => .bigint 0
  | _ => .null

def SessionsTable.addColumn (t : SessionsTable) (c : SessionColumn) : SessionsTable where
  columns := t.columns ++ [c]
  rows := t.rows.map fun r => { r with values := Function.update r.values c c.default }

/-- `ROW_NUMBER() OVER (PARTITION BY session_id ORDER BY id)`. -/
def rowNumber (rows : List MessageRow) (r : MessageRow) : Int :=
  rows.countP fun r' => r'.sessionId = r.sessionId ∧ r'.id ≤ r.id

def MessagesTable.number (t : MessagesTable) : MessagesTable :=
  { t with rows := t.rows.map fun r => { r with sequenceNum := some (rowNumber t.rows r) } }

def missingRelation (name : String) : String := "relation \"" ++ name ++ "\" does not exist"

def existingColumn (column relation : String) : String :=
  "column \"" ++ column ++ "\" of relation \"" ++ relation ++ "\" already exists"

/-- Execute a statement: the rows it counts, or an error. -/
def Statement.exec (db : Database) : Statement → Except String Nat × Database
  | createSessions =>
    match db.sessions with
    | some _ => (.ok 0, db)
    | none => (.ok 0, { db with sessions := some ⟨[], []⟩ })
  | createSessionsIndex =>
    match db.sessionsIndex, db.sessions with
    | true, _ => (.ok 0, db)
    | false, some _ => (.ok 0, { db with sessionsIndex := true })
    | false, none => (.error (missingRelation "sessions"), db)
  | createMessages =>
    match db.messages, db.sessions with
    | some _, _ => (.ok 0, db)
    | none, some _ => (.ok 0, { db with messages := some ⟨.present true, []⟩ })
    | none, none => (.error (missingRelation "sessions"), db)
  | createMessagesIndex =>
    match db.messagesIndex, db.messages with
    | true, _ => (.ok 0, db)
    | false, none => (.error (missingRelation "messages"), db)
    | false, some t =>
      match t.sequenceNum with
      | .absent => (.error "column \"sequence_num\" does not exist", db)
      | .present _ => (.ok 0, { db with messagesIndex := true })
  | countSequenceNum =>
    match db.messages with
    | some ⟨.present _, _⟩ => (.ok 1, db)
    | _ => (.ok 0, db)
  | addSequenceNum =>
    match db.messages with
    | none => (.error (missingRelation "messages"), db)
    | some ⟨.present _, _⟩ => (.error (existingColumn "sequence_num" "messages"), db)
    | some ⟨.absent, rows⟩ =>
      (.ok 0, { db with messages := some ⟨.present false, rows.map fun r => { r with sequenceNum := none }⟩ })
  | numberMessages =>
    match db.messages with
    | none => (.error (missingRelation "messages"), db)
    | some ⟨.absent, _⟩ => (.error "column \"sequence_num\" of relation \"messages\" does not exist", db)
    | some t => (.ok t.rows.length, { db with messages := some t.number })
  | countColumn c =>
    match db.sessions with
    | some t => (.ok (if c ∈ t.columns then 1 else 0), db)
    | none => (.ok 0, db)
  | addColumn c =>
    match db.sessions with
    | none => (.error (missingRelation "sessions"), db)
    | some t =>
      if c ∈ t.columns then (.error (existingColumn c.name "sessions"), db)
      else (.ok 0, { db with sessions := some (t.addColumn c) })

abbrev Reply : Statement → Type := fun _ => Except String Nat

def handle : Handler Reply Database := fun st db => st.exec db

abbrev M (α : Type) := Prog Statement Reply SessionMemoryError α

/-- Execute a statement; a database failure becomes `SessionMemoryError::Database`. -/
def query (st : Statement) : M Nat :=
  .ask st fun
    | .ok n => .ret n
    | .error e => .fail (.database e)

/-! ### Migration -/

/-- Add a column of `sessions` unless it is there. -/
def ensureColumn (c : SessionColumn) : M Unit := do
  let has ← query (.countColumn c)
  if has = 0 then
    let _ ← query (.addColumn c)

def migrate : M Unit := do
  let _ ← query .createSessions
  let _ ← query .createSessionsIndex
  let _ ← query .createMessages
  let _ ← query .createMessagesIndex
  -- Compatibility: databases that predate `sequence_num`.
  let hasSequenceNum ← query .countSequenceNum
  if hasSequenceNum = 0 then
    let _ ← query .addSequenceNum
    let _ ← query .numberMessages
  ensureColumn .consolidationWatermark
  ensureColumn .skillContextJson
  ensureColumn .phaseOpeningContext
  ensureColumn .interruptedState

/-! ### What a migration is for -/

/-- Within a session, the rows carry numbers, and these increase with the ids. -/
structure Numbered (rows : List MessageRow) : Prop where
  numbered : ∀ r ∈ rows, r.sequenceNum.isSome
  increasing : ∀ r ∈ rows, ∀ r' ∈ rows, r.sessionId = r'.sessionId → r.id < r'.id →
    ∀ n n', r.sequenceNum = some n → r'.sequenceNum = some n' → n < n'

/-- The schema that this version of the store works with. -/
structure UpToDate (db : Database) : Prop where
  sessions : ∃ t, db.sessions = some t ∧ ∀ c, c ∈ t.columns
  messages : ∃ t, db.messages = some t ∧ t.sequenceNum = .present true ∧ Numbered t.rows

/-- The same session, at least in the columns `cs`. -/
structure SameSession (cs : List SessionColumn) (r r' : SessionRow) : Prop where
  id : r'.id = r.id
  userId : r'.userId = r.userId
  status : r'.status = r.status
  createdAt : r'.createdAt = r.createdAt
  updatedAt : r'.updatedAt = r.updatedAt
  values : ∀ c ∈ cs, r'.values c = r.values c

/-- The same message, whatever its number. -/
structure SameMessage (r r' : MessageRow) : Prop where
  id : r'.id = r.id
  sessionId : r'.sessionId = r.sessionId
  role : r'.role = r.role
  content : r'.content = r.content
  createdAt : r'.createdAt = r.createdAt

/-- No row of `old` is lost, and none is added. -/
structure Kept (old new : Database) : Prop where
  sessions : ∀ t, old.sessions = some t → ∃ t', new.sessions = some t' ∧ t.columns ⊆ t'.columns ∧
    List.Forall₂ (SameSession t.columns) t.rows t'.rows
  messages : ∀ t, old.messages = some t → ∃ t', new.messages = some t' ∧
    List.Forall₂ SameMessage t.rows t'.rows

/-- `migrate`, after an earlier run of it that was cut off after `k` statements, brings the database up to date and
keeps its rows, and running it once more changes nothing. -/
def Upgrades (db : Database) (k : Nat) : Prop :=
  ∃ db', migrate.run handle ⟨migrate.leave handle k db, []⟩ = (.ok (), db') ∧ UpToDate db'.state ∧
    Kept db db'.state ∧ ∃ t, migrate.run handle ⟨db'.state, []⟩ = (.ok (), ⟨db'.state, t⟩)

/-- The database has no `messages` yet, or they already carry unique numbers in the order of their ids. -/
def Ready (db : Database) : Prop :=
  ∀ t, db.messages = some t → t.sequenceNum = .present true ∧ Numbered t.rows

/-! ### What a statement does -/

/-- The ways in which a statement changes a database. -/
inductive Effect (db : Database) : Statement → Database → Prop where
  | same {st} : Effect db st db
  | newSessions {st} (h : db.sessions = none) : Effect db st { db with sessions := some ⟨[], []⟩ }
  | sessionsIndex {st} : Effect db st { db with sessionsIndex := true }
  | newMessages {st} (h : db.messages = none) : Effect db st { db with messages := some ⟨.present true, []⟩ }
  | messagesIndex {st} : Effect db st { db with messagesIndex := true }
  | addSequenceNum {st rows} (h : db.messages = some ⟨.absent, rows⟩) :
      Effect db st { db with messages := some ⟨.present false, rows.map fun r => { r with sequenceNum := none }⟩ }
  | number {t} (h : db.messages = some t) : Effect db .numberMessages { db with messages := some t.number }
  | addColumn {st t c} (h : db.sessions = some t) (hc : c ∉ t.columns) :
      Effect db st { db with sessions := some (t.addColumn c) }

theorem exec_effect (db : Database) (st : Statement) : Effect db st (st.exec db).2 := by
  cases st with
  | createSessions =>
    simp only [Statement.exec]
    split
    · exact .same
    · exact .newSessions ‹_›
  | createSessionsIndex =>
    simp only [Statement.exec]
    split
    · exact .same
    · exact .sessionsIndex
    · exact .same
  | createMessages =>
    simp only [Statement.exec]
    split
    · exact .same
    · exact .newMessages ‹_›
    · exact .same
  | createMessagesIndex =>
    simp only [Statement.exec]
    split
    · exact .same
    · exact .same
    · split
      · exact .same
      · exact .messagesIndex
  | countSequenceNum =>
    simp only [Statement.exec]
    split <;> exact .same
  | addSequenceNum =>
    simp only [Statement.exec]
    split
    · exact .same
    · exact .same
    · exact .addSequenceNum ‹_›
  | numberMessages =>
    simp only [Statement.exec]
    split
    · exact .same
    · exact .same
    · exact .number ‹_›
  | countColumn c =>
    simp only [Statement.exec]
    split <;> exact .same
  | addColumn c =>
    simp only [Statement.exec]
    split
    · exact .same
    · split
      · exact .same
      · exact .addColumn ‹_› ‹_›

/-! ### What every statement preserves -/

theorem Kept.refl (db : Database) : Kept db db where
  sessions t ht := ⟨t, ht, List.Subset.refl _, List.forall₂_same.mpr fun _ _ => ⟨rfl, rfl, rfl, rfl, rfl, fun _ _ => rfl⟩⟩
  messages t ht := ⟨t, ht, List.forall₂_same.mpr fun _ _ => ⟨rfl, rfl, rfl, rfl, rfl⟩⟩

variable {old db : Database}

/-- A statement that leaves `sessions` alone and at most numbers the messages. -/
private theorem Kept.renumber (h : Kept old db) {db' : Database} {t t' : MessagesTable} {g : MessageRow → Option Int}
    (hs : db'.sessions = db.sessions) (ht : db.messages = some t) (ht' : db'.messages = some t')
    (hrows : t'.rows = t.rows.map fun r => { r with sequenceNum := g r }) : Kept old db' where
  sessions := by
    rw [hs]
    exact h.sessions
  messages t₀ ht₀ := by
    obtain ⟨t₁, ht₁, hsame⟩ := h.messages t₀ ht₀
    obtain rfl : t = t₁ := Option.some.inj (ht.symm.trans ht₁)
    refine ⟨t', ht', ?_⟩
    rw [hrows, List.forall₂_map_right_iff]
    exact hsame.imp fun r r' hr => ⟨hr.id, hr.sessionId, hr.role, hr.content, hr.createdAt⟩

private theorem Kept.addColumn (h : Kept old db) {t : SessionsTable} {c : SessionColumn}
    (ht : db.sessions = some t) (hc : c ∉ t.columns) : Kept old { db with sessions := some (t.addColumn c) } where
  messages := h.messages
  sessions t₀ ht₀ := by
    obtain ⟨t₁, ht₁, hsub, hsame⟩ := h.sessions t₀ ht₀
    obtain rfl : t = t₁ := Option.some.inj (ht.symm.trans ht₁)
    refine ⟨_, rfl, fun x hx => List.mem_append_left _ (hsub hx), ?_⟩
    rw [SessionsTable.addColumn, List.forall₂_map_right_iff]
    refine hsame.imp fun r r' hr => ⟨hr.id, hr.userId, hr.status, hr.createdAt, hr.updatedAt, fun x hx => ?_⟩
    have hne : x ≠ c := fun hxc => hc (hxc ▸ hsub hx)
    exact (Function.update_of_ne hne ..).trans (hr.values x hx)

/-- No statement loses a row. -/
theorem Effect.kept {st : Statement} {db' : Database} (he : Effect db st db') (h : Kept old db) : Kept old db' := by
  cases he with
  | same => exact h
  | newSessions hnone =>
    refine ⟨fun t ht => ?_, h.messages⟩
    obtain ⟨t', ht', -⟩ := h.sessions t ht
    rw [hnone] at ht'
    cases ht'
  | sessionsIndex => exact ⟨h.sessions, h.messages⟩
  | newMessages hnone =>
    refine ⟨h.sessions, fun t ht => ?_⟩
    obtain ⟨t', ht', -⟩ := h.messages t ht
    rw [hnone] at ht'
    cases ht'
  | messagesIndex => exact ⟨h.sessions, h.messages⟩
  | addSequenceNum hm => exact h.renumber rfl hm rfl rfl
  | number hm => exact h.renumber rfl hm rfl rfl
  | addColumn ht hc => exact h.addColumn ht hc

private theorem rowNumber_lt {rows : List MessageRow} {r r' : MessageRow} (hr' : r' ∈ rows)
    (hs : r.sessionId = r'.sessionId) (hlt : r.id < r'.id) : rowNumber rows r < rowNumber rows r' := by
  have hle : ∀ l : List MessageRow,
      l.countP (fun x => x.sessionId = r.sessionId ∧ x.id ≤ r.id) ≤
        l.countP fun x => x.sessionId = r'.sessionId ∧ x.id ≤ r'.id := by
    intro l
    refine List.countP_mono_left fun x _ hx => ?_
    simp only [decide_eq_true_eq] at hx ⊢
    exact ⟨hx.1.trans hs, by omega⟩
  obtain ⟨l₁, l₂, rfl⟩ := List.append_of_mem hr'
  have h₁ := hle l₁
  have h₂ := hle l₂
  have hout : ¬ (r'.sessionId = r.sessionId ∧ r'.id ≤ r.id) := by omega
  simp only [rowNumber, List.countP_append, List.countP_cons, hout, decide_false, le_refl, and_self, decide_true,
    if_true, Bool.false_eq_true, if_false]
  omega

theorem number_numbered (t : MessagesTable) : Numbered t.number.rows := by
  refine ⟨?_, ?_⟩
  · simp [MessagesTable.number]
  · simp only [MessagesTable.number, List.mem_map]
    rintro _ ⟨r, -, rfl⟩ _ ⟨r', hr', rfl⟩ hs hlt n n' hn hn'
    have h := rowNumber_lt hr' hs hlt
    cases hn
    cases hn'
    exact h

/-- A database that is ready stays so. -/
theorem Effect.ready {st : Statement} {db' : Database} (he : Effect db st db') (h : Ready db) : Ready db' := by
  cases he with
  | same => exact h
  | newSessions => exact h
  | sessionsIndex => exact h
  | messagesIndex => exact h
  | addColumn => exact h
  | newMessages =>
    intro t ht
    cases ht
    exact ⟨rfl, by simp, by simp⟩
  | addSequenceNum hm => cases (h _ hm).1
  | @number t₁ hm =>
    intro t ht
    cases ht
    exact ⟨(h _ hm).1, number_numbered t₁⟩

/-- A constraint that was not created with the table is never in force. -/
theorem Effect.lacksUnique {st : Statement} {db' : Database} (he : Effect db st db')
    (h : ∃ t, db.messages = some t ∧ t.sequenceNum ≠ .present true) :
    ∃ t, db'.messages = some t ∧ t.sequenceNum ≠ .present true := by
  cases he with
  | same => exact h
  | newSessions => exact h
  | sessionsIndex => exact h
  | messagesIndex => exact h
  | addColumn => exact h
  | newMessages hnone =>
    obtain ⟨t, ht, -⟩ := h
    rw [hnone] at ht
    cases ht
  | addSequenceNum => exact ⟨_, rfl, by simp⟩
  | number hm =>
    obtain ⟨t, ht, hne⟩ := h
    rw [hm] at ht
    cases ht
    exact ⟨_, rfl, hne⟩

/-- Messages that carry numbers are left alone by all statements but one. -/
theorem Effect.messages_eq {st : Statement} {db' : Database} {b : Bool} {rows : List MessageRow}
    (he : Effect db st db') (hst : st ≠ .numberMessages) (h : db.messages = some ⟨.present b, rows⟩) :
    db'.messages = some ⟨.present b, rows⟩ := by
  cases he with
  | number => exact absurd rfl hst
  | newMessages hnone =>
    rw [hnone] at h
    cases h
  | addSequenceNum hm =>
    rw [hm] at h
    cases h
  | _ => exact h

/-! ### Runs that succeed -/

theorem query_ends {st : Statement} {db' : Database} {n : Nat} (h : st.exec db = (.ok n, db')) :
    (query st).Ends handle db (.ok n) db' := by
  intro t
  refine ⟨t ++ [⟨st, .ok n⟩], ?_⟩
  show Prog.run handle _ (Config.after handle ⟨db, t⟩ st) = _
  simp only [Config.after, handle, h]
  rfl

/-- A column is added unless it is there. -/
theorem ensureColumn_ends (c : SessionColumn) (t : SessionsTable) (m : Option MessagesTable) (i j : Bool) :
    ∃ t', (ensureColumn c).Ends handle ⟨some t, m, i, j⟩ (.ok ()) ⟨some t', m, i, j⟩ ∧ t.columns ⊆ t'.columns ∧
      c ∈ t'.columns ∧ (c ∈ t.columns → t' = t) := by
  by_cases hc : c ∈ t.columns
  · have hcount : (Statement.countColumn c).exec ⟨some t, m, i, j⟩ = (.ok 1, ⟨some t, m, i, j⟩) := by
      simp [Statement.exec, hc]
    exact ⟨t, (query_ends hcount).bind (Prog.ends_ret handle () _), List.Subset.refl _, hc, fun _ => rfl⟩
  · have hcount : (Statement.countColumn c).exec ⟨some t, m, i, j⟩ = (.ok 0, ⟨some t, m, i, j⟩) := by
      simp [Statement.exec, hc]
    have hadd : (Statement.addColumn c).exec ⟨some t, m, i, j⟩ = (.ok 0, ⟨some (t.addColumn c), m, i, j⟩) := by
      simp [Statement.exec, hc]
    refine ⟨t.addColumn c, (query_ends hcount).bind ((query_ends hadd).bind (Prog.ends_ret handle () _)), ?_, ?_, ?_⟩
    · exact List.subset_append_left ..
    · exact List.mem_append_right _ (List.mem_singleton_self c)
    · exact fun h => absurd h hc

/-- A migration of a database that is ready ends well, with all columns; it changes no table that has them. -/
theorem migrate_ends (hready : Ready db) :
    ∃ t m, migrate.Ends handle db (.ok ()) ⟨some t, some m, true, true⟩ ∧ (∀ c, c ∈ t.columns) ∧
      (∀ t₀, db.sessions = some t₀ → (∀ c, c ∈ t₀.columns) → t = t₀) ∧ (∀ m₀, db.messages = some m₀ → m = m₀) := by
  obtain ⟨sessions, messages, i, j⟩ := db
  obtain ⟨t₀, ht₀, hsessions⟩ : ∃ t₀, Statement.createSessions.exec ⟨sessions, messages, i, j⟩ =
      (.ok 0, ⟨some t₀, messages, i, j⟩) ∧ ∀ t, sessions = some t → t₀ = t := by
    cases sessions with
    | none => exact ⟨⟨[], []⟩, rfl, by simp⟩
    | some t => exact ⟨t, rfl, by simp⟩
  have hindex : Statement.createSessionsIndex.exec ⟨some t₀, messages, i, j⟩ = (.ok 0, ⟨some t₀, messages, true, j⟩) := by
    cases i <;> rfl
  obtain ⟨rows, hrows, hmessages⟩ : ∃ rows, Statement.createMessages.exec ⟨some t₀, messages, true, j⟩ =
      (.ok 0, ⟨some t₀, some ⟨.present true, rows⟩, true, j⟩) ∧ ∀ m, messages = some m → ⟨.present true, rows⟩ = m := by
    cases messages with
    | none => exact ⟨[], rfl, by simp⟩
    | some m =>
      obtain ⟨seq, rows⟩ := m
      obtain rfl : seq = .present true := (hready _ rfl).1
      exact ⟨rows, rfl, by simp⟩
  have hindex' : Statement.createMessagesIndex.exec ⟨some t₀, some ⟨.present true, rows⟩, true, j⟩ =
      (.ok 0, ⟨some t₀, some ⟨.present true, rows⟩, true, true⟩) := by
    cases j <;> rfl
  have hcount : Statement.countSequenceNum.exec ⟨some t₀, some ⟨.present true, rows⟩, true, true⟩ =
      (.ok 1, ⟨some t₀, some ⟨.present true, rows⟩, true, true⟩) := rfl
  obtain ⟨t₁, h₁, hsub₁, hmem₁, hsame₁⟩ := ensureColumn_ends .consolidationWatermark t₀ (some ⟨.present true, rows⟩) true true
  obtain ⟨t₂, h₂, hsub₂, hmem₂, hsame₂⟩ := ensureColumn_ends .skillContextJson t₁ (some ⟨.present true, rows⟩) true true
  obtain ⟨t₃, h₃, hsub₃, hmem₃, hsame₃⟩ := ensureColumn_ends .phaseOpeningContext t₂ (some ⟨.present true, rows⟩) true true
  obtain ⟨t₄, h₄, hsub₄, hmem₄, hsame₄⟩ := ensureColumn_ends .interruptedState t₃ (some ⟨.present true, rows⟩) true true
  refine ⟨t₄, ⟨.present true, rows⟩, ?_, ?_, ?_, hmessages⟩
  · exact (query_ends ht₀).bind <| (query_ends hindex).bind <| (query_ends hrows).bind <| (query_ends hindex').bind <|
      (query_ends hcount).bind <| h₁.bind <| h₂.bind <| h₃.bind h₄
  · intro c
    cases c with
    | consolidationWatermark => exact hsub₄ (hsub₃ (hsub₂ hmem₁))
    | skillContextJson => exact hsub₄ (hsub₃ hmem₂)
    | phaseOpeningContext => exact hsub₄ hmem₃
    | interruptedState => exact hmem₄
  · intro t ht hall
    obtain rfl := hsessions t ht
    obtain rfl := hsame₁ (hall _)
    obtain rfl := hsame₂ (hall _)
    obtain rfl := hsame₃ (hall _)
    exact hsame₄ (hall _)

/-! ### Which databases are upgraded -/

theorem migrate_any : migrate.Meets (fun _ _ => True) (fun _ => True) (fun _ => True) := Prog.only_true migrate

/-- The answer that a table with numbered messages gives. -/
def CountsOne (st : Statement) (r : Reply st) : Prop := st = .countSequenceNum → r = .ok 1

theorem query_numberless {st : Statement} (hst : st ≠ .numberMessages) :
    (query st).Meets CountsOne (· ≠ .numberMessages) (fun x => st = .countSequenceNum → ∀ n, x = .ok n → n = 1) := by
  refine ⟨hst, fun r hr => ?_⟩
  cases r with
  | ok n =>
    intro hcount n' hn
    cases hn
    cases hr hcount
    rfl
  | error e => exact fun _ _ h => by cases h

/-- While messages carry numbers, they are not numbered anew. -/
theorem migrate_numberless :
    migrate.Meets CountsOne (· ≠ .numberMessages) (fun _ => True) := by
  have hquery : ∀ {st : Statement} {f : Nat → M Unit}, st ≠ .numberMessages →
      (∀ n, (st = .countSequenceNum → n = 1) → (f n).Meets CountsOne (· ≠ .numberMessages) (fun _ => True)) →
      (query st >>= f).Meets CountsOne (· ≠ .numberMessages) (fun _ => True) := by
    intro st f hst hf
    exact (query_numberless hst).bind (fun n hn => hf n fun hs => hn hs n rfl) fun _ _ => trivial
  have hensure : ∀ c, (ensureColumn c).Meets CountsOne (· ≠ .numberMessages) (fun _ => True) := by
    intro c
    refine hquery (by simp) fun n _ => ?_
    split
    · exact hquery (by simp) fun _ _ => trivial
    · trivial
  refine hquery (by simp) fun _ _ => hquery (by simp) fun _ _ => hquery (by simp) fun _ _ =>
    hquery (by simp) fun _ _ => hquery (by simp) fun n hn => ?_
  rw [if_neg (by rw [hn rfl]; simp)]
  have hseq : ∀ {p q : M Unit}, p.Meets CountsOne (· ≠ .numberMessages) (fun _ => True) →
      q.Meets CountsOne (· ≠ .numberMessages) (fun _ => True) →
      (p >>= fun _ => q).Meets CountsOne (· ≠ .numberMessages) (fun _ => True) :=
    fun hp hq => hp.bind (fun _ _ => hq) fun _ _ => trivial
  exact hseq (hensure _) (hseq (hensure _) (hseq (hensure _) (hensure _)))

/-- A migration, restarted wherever an earlier one was cut off, upgrades a database exactly when that is ready. -/
theorem migrate_upgrades_iff (db : Database) (k : Nat) : Upgrades db k ↔ Ready db := by
  constructor
  · rintro ⟨⟨db', trace⟩, hrun, hup, -, -⟩ t ht
    obtain ⟨t', ht', hseq, hnum⟩ := hup.messages
    by_cases hpres : t.sequenceNum = .present true
    · refine ⟨hpres, ?_⟩
      obtain ⟨seq, rows⟩ := t
      obtain rfl : seq = .present true := hpres
      have hstep : ∀ st (s : Database), st ≠ .numberMessages → s.messages = some ⟨.present true, rows⟩ →
          CountsOne st (handle st s).1 ∧ (handle st s).2.messages = some ⟨.present true, rows⟩ := by
        intro st s hst hs
        refine ⟨?_, (exec_effect s st).messages_eq hst hs⟩
        rintro rfl
        simp [handle, Statement.exec, hs]
      have hcut := migrate_numberless.invariant_leave handle hstep k ht
      have hend := (migrate_numberless.invariant handle hstep (c := ⟨_, []⟩) hcut).1
      rw [hrun] at hend
      obtain rfl := Option.some.inj (hend.symm.trans ht')
      exact hnum
    · have hstep : ∀ st (s : Database), True → (∃ t, s.messages = some t ∧ t.sequenceNum ≠ .present true) →
          True ∧ ∃ t, (handle st s).2.messages = some t ∧ t.sequenceNum ≠ .present true :=
        fun st s _ hs => ⟨trivial, (exec_effect s st).lacksUnique hs⟩
      have hcut := migrate_any.invariant_leave handle hstep k ⟨t, ht, hpres⟩
      have hend := (migrate_any.invariant handle hstep (c := ⟨_, []⟩) hcut).1
      rw [hrun] at hend
      obtain ⟨t'', ht'', hne⟩ := hend
      obtain rfl := Option.some.inj (ht''.symm.trans ht')
      exact absurd hseq hne
  · intro hready
    have hstep : ∀ st (s : Database), True → (Ready s ∧ Kept db s) →
        True ∧ Ready (handle st s).2 ∧ Kept db (handle st s).2 :=
      fun st s _ hs => ⟨trivial, (exec_effect s st).ready hs.1, (exec_effect s st).kept hs.2⟩
    have hcut := migrate_any.invariant_leave handle hstep k ⟨hready, Kept.refl db⟩
    have hend := (migrate_any.invariant handle hstep (c := ⟨_, []⟩) hcut).1
    obtain ⟨t, m, hm, hcols, -, -⟩ := migrate_ends hcut.1
    obtain ⟨trace, hrun⟩ := hm []
    rw [hrun] at hend
    refine ⟨_, hrun, ⟨⟨t, rfl, hcols⟩, m, rfl, hend.1 m rfl⟩, hend.2, ?_⟩
    obtain ⟨t', m', hm', -, hsame, hsame'⟩ := migrate_ends hend.1
    obtain rfl := hsame t rfl hcols
    obtain rfl := hsame' m rfl
    exact hm' []

/-- A database of the first version, with one message. -/
def Database.first : Database where
  sessions := some ⟨[], [⟨"s", "u", "active", 1, 1, fun _ => .null⟩]⟩
  messages := some ⟨.absent, [⟨1, "s", "user", "hello", none, 1⟩]⟩
  sessionsIndex := true
  messagesIndex := false

/-- Its migration stops at the index on the column that is only added later. -/
theorem first_not_upgraded :
    (migrate.run handle ⟨.first, []⟩).1 = .error (.database "column \"sequence_num\" does not exist") ∧
      ¬ Upgrades .first 0 := by
  have hrun : (migrate.run handle ⟨.first, []⟩).1 = .error (.database "column \"sequence_num\" does not exist") := rfl
  refine ⟨hrun, ?_⟩
  rintro ⟨db', h, -⟩
  have hok : (migrate.run handle ⟨.first, []⟩).1 = .ok () := congrArg Prod.fst h
  rw [hrun] at hok
  cases hok

end Postgres

end AgentVerse
