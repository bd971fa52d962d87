import AgentVerse.Hitl.Policy

/-!
# Session store

The two tables of the session store and the SQL statements of `sqlite.rs` and `sqlite_maintenance.rs`, each as a
function of the tables. A statement is atomic; what may fail around it is the business of the environment.

* `sessions(id, user_id, status, created_at, updated_at, consolidation_watermark, skill_context_json,
  phase_opening_context, interrupted_state)`
* `messages(id, session_id, role, content, sequence_num, created_at)`, with `id` autoincremented
-/

namespace AgentVerse

inductive SessionStatus where
  | active
  | interrupted
  | completed
  deriving DecidableEq

/-- `Session`, with times as seconds since the epoch. -/
structure Session where
  id : SessionId
  userId : String
  status : SessionStatus
  createdAt : Int
  updatedAt : Int
  deriving DecidableEq

/-- Result of a skill phase transition parsed from an agent's output. -/
structure PhaseTransition where
  nextSkill : String
  summary : String
  deliverable : String
  deriving DecidableEq

instance : Nested PhaseTransition := ⟨fun _ => 1⟩

@[simp] theorem PhaseTransition.fromStr_ofValue (transition : PhaseTransition) :
    (JsonText.ofValue transition).fromStr = .ok transition := rfl

@[simp] theorem PhaseTransition.fromStr_printed (transition : PhaseTransition) :
    (JsonText.printed transition).fromStr = .ok transition := rfl

/-- Serialised state stored when a session is suspended awaiting approval. -/
inductive InterruptedState where
  | pendingToolCall (approvalId : Uuid) (kindJson : JsonText InterruptKind)
      (historyJson : JsonText (List Message)) (pendingCallsJson : JsonText (List ToolCall))
      (activeToolNames : List String) (skillContextJson : Option (JsonText SkillContext))
  | pendingPhaseGate (approvalId : Uuid) (transitionJson : JsonText PhaseTransition)
  | pendingCheckpoint (approvalId : Uuid) (kindJson : JsonText InterruptKind)
      (historyJson : JsonText (List Message)) (activeToolNames : List String)
      (skillContextJson : Option (JsonText SkillContext))
  deriving DecidableEq

instance : Nested InterruptedState where
  depth
    | .pendingPhaseGate .. => 2
    | _ => 3

@[simp] theorem InterruptedState.fromStr_ofValue (state : InterruptedState) :
    (JsonText.ofValue state).fromStr = .ok state := by
  cases state <;> rfl

@[simp] theorem InterruptedState.fromStr_printed (state : InterruptedState) :
    (JsonText.printed state).fromStr = .ok state := fromStr_ofValue state

/-- `approval_id_str`; the source compares the texts of ids, which differ where the ids do. -/
def InterruptedState.approvalId : InterruptedState → Uuid
  | pendingToolCall id .. => id
  | pendingPhaseGate id _ => id
  | pendingCheckpoint id .. => id

structure SessionRow where
  id : SessionId
  userId : String
  status : SessionStatus
  createdAt : Int
  updatedAt : Int
  consolidationWatermark : Int
  skillContextJson : Option (JsonText SkillContext)
  phaseOpeningContext : Option String
  interruptedState : Option (JsonText InterruptedState)
  deriving DecidableEq

structure MessageRow where
  id : Nat
  sessionId : SessionId
  message : Message
  sequenceNum : Int
  createdAt : Int
  deriving DecidableEq

structure Store where
  sessions : List SessionRow
  messages : List MessageRow
  lastRowId : Nat
  deriving DecidableEq

def SessionRow.toSession (r : SessionRow) : Session := ⟨r.id, r.userId, r.status, r.createdAt, r.updatedAt⟩

namespace Store

def empty : Store := ⟨[], [], 0⟩

variable (s : Store)

/-! ### Statements on `sessions` -/

/-- The row of a session. -/
def row? (sid : SessionId) : Option SessionRow := s.sessions.find? fun r => r.id = sid

/-- `INSERT INTO sessions`. -/
def insertSession (r : SessionRow) : Except String Unit × Store :=
  match s.row? r.id with
  | some _ => (.error "UNIQUE constraint failed: sessions.id", s)
  | none => (.ok (), { s with sessions := s.sessions ++ [r] })

/-- `UPDATE sessions SET .. WHERE id = ?`, with the number of rows affected. -/
def updateSession (sid : SessionId) (f : SessionRow → SessionRow) : Nat × Store :=
  ((s.sessions.filter fun r => r.id = sid).length,
    { s with sessions := s.sessions.map fun r => if r.id = sid then f r else r })

/-- `DELETE FROM sessions WHERE ..`, which cascades to messages. -/
def deleteSessions (p : SessionRow → Bool) : Nat × Store :=
  ((s.sessions.filter p).length,
    { s with
      sessions := s.sessions.filter fun r => !p r
      messages := s.messages.filter fun m => !(s.sessions.filter p).any fun r => r.id = m.sessionId })

/-- `SELECT .. WHERE user_id = ? ORDER BY created_at DESC`. -/
def sessionsOf (userId : String) : List Session :=
  ((s.sessions.filter fun r => r.userId = userId).map SessionRow.toSession).insertionSort
    fun a b => b.createdAt ≤ a.createdAt

/-- The sessions with unconsolidated messages, or with consolidated ones older than `now`. -/
def sessionsNeedingMaintenance (now : Int) : List Session :=
  ((s.sessions.filter fun r => s.messages.any fun m =>
      m.sessionId = r.id && (r.consolidationWatermark < m.sequenceNum ||
        (m.sequenceNum ≤ r.consolidationWatermark && m.createdAt < now))).map
    SessionRow.toSession).insertionSort fun a b => a.updatedAt ≤ b.updatedAt

/-- `DELETE FROM sessions WHERE status != 'active' AND updated_at < ?`. -/
def endedBefore (cutoff : Int) (r : SessionRow) : Bool := r.status ≠ .active && r.updatedAt < cutoff

/-! ### Statements on `messages` -/

/-- The message rows of a session. -/
def rows (sid : SessionId) : List MessageRow := s.messages.filter fun m => m.sessionId = sid

/-- `SELECT COALESCE(MAX(sequence_num), 0)`. -/
def maxSequence (sid : SessionId) : Int := (((s.rows sid).map (·.sequenceNum)).max?).getD 0

/-- One `INSERT INTO messages`. -/
def insertMessage (sid : SessionId) (m : Message) (seq now : Int) : Store :=
  { s with
    messages := s.messages ++ [⟨s.lastRowId + 1, sid, m, seq, now⟩]
    lastRowId := s.lastRowId + 1 }

/-- The inserts of a transaction, at consecutive sequence numbers. -/
def insertFrom (s : Store) (sid : SessionId) (seq now : Int) : List Message → Store
  | [] => s
  | m :: ms => (s.insertMessage sid m seq now).insertFrom sid (seq + 1) now ms

/-- The transaction of `append_message` and `append_turn`. -/
def appendMessages (sid : SessionId) (ms : List Message) (now : Int) : Except String Unit × Store :=
  match s.row? sid with
  | none => (.error "FOREIGN KEY constraint failed", s)
  | some _ => (.ok (), s.insertFrom sid (s.maxSequence sid + 1) now ms)

/-- `ORDER BY sequence_num ASC`. -/
def bySequence (l : List MessageRow) : List MessageRow :=
  l.insertionSort fun a b => a.sequenceNum ≤ b.sequenceNum

/-- `SELECT .. WHERE session_id = ? AND sequence_num > ? ORDER BY sequence_num ASC`. -/
def messagesAbove (sid : SessionId) (wm : Int) : List MessageRow :=
  bySequence ((s.rows sid).filter fun m => wm < m.sequenceNum)

/-- The rows that `cleanup_expired_messages` deletes. -/
def expired (sid : SessionId) (cutoff wm : Int) (m : MessageRow) : Bool :=
  m.sessionId = sid && m.createdAt < cutoff && m.sequenceNum ≤ wm

/-- `DELETE FROM messages WHERE session_id = ? AND created_at < ? AND sequence_num <= ?`, with the rows deleted. -/
def deleteExpired (sid : SessionId) (cutoff wm : Int) : List MessageRow × Store :=
  (s.messages.filter (expired sid cutoff wm),
    { s with messages := s.messages.filter fun m => !expired sid cutoff wm m })

/-! ### How statements act on one row -/

variable {s}

theorem row?_id {sid : SessionId} {r : SessionRow} (h : s.row? sid = some r) : r.id = sid := by
  simpa using List.find?_some h

theorem row?_updateSession_same {sid : SessionId} {f : SessionRow → SessionRow} (hf : ∀ r, (f r).id = r.id) :
    (s.updateSession sid f).2.row? sid = (s.row? sid).map f := by
  simp only [updateSession, row?, List.find?_map]
  have hp : ((fun r : SessionRow => decide (r.id = sid)) ∘ fun r => if r.id = sid then f r else r) =
      fun r => decide (r.id = sid) := by
    funext r
    by_cases hr : r.id = sid <;> simp [hr, hf]
  rw [hp]
  cases hr : s.sessions.find? (fun r => decide (r.id = sid)) with
  | none => rfl
  | some r => simp [show r.id = sid by simpa using List.find?_some hr]

theorem row?_updateSession_other {sid sid' : SessionId} {f : SessionRow → SessionRow}
    (hf : ∀ r, (f r).id = r.id) (hne : sid' ≠ sid) :
    (s.updateSession sid f).2.row? sid' = s.row? sid' := by
  simp only [updateSession, row?, List.find?_map]
  have hp : ((fun r : SessionRow => decide (r.id = sid')) ∘ fun r => if r.id = sid then f r else r) =
      fun r => decide (r.id = sid') := by
    funext r
    by_cases hr : r.id = sid <;> simp [hr, hf]
  rw [hp]
  cases hr : s.sessions.find? (fun r => decide (r.id = sid')) with
  | none => rfl
  | some r =>
    have hid : r.id = sid' := by simpa using List.find?_some hr
    simp [hid, hne]

/-- An update affects no row exactly when the session does not exist. -/
theorem updateSession_none {sid : SessionId} {f : SessionRow → SessionRow} :
    (s.updateSession sid f).1 = 0 ↔ s.row? sid = none := by
  simp [updateSession, row?, List.filter_eq_nil_iff, List.find?_eq_none]

theorem row?_insertSession_other {r : SessionRow} {sid : SessionId} (hne : sid ≠ r.id) :
    (s.insertSession r).2.row? sid = s.row? sid := by
  unfold insertSession
  cases s.row? r.id with
  | some _ => rfl
  | none => simp [row?, List.find?_append, Ne.symm hne]

theorem row?_insertSession_same {r : SessionRow} (h : s.row? r.id = none) :
    (s.insertSession r).2.row? r.id = some r := by
  unfold insertSession
  rw [h]
  simp only [row?] at h ⊢
  simp [List.find?_append, h]

private theorem find?_filter_keep {α : Type} (p q : α → Bool) (l : List α)
    (h : ∀ r, l.find? q = some r → p r = false) : (l.filter fun r => !p r).find? q = l.find? q := by
  induction l with
  | nil => rfl
  | cons a l ih =>
    by_cases hq : q a = true
    · have hp : p a = false := h a (by simp [hq])
      simp [hp, hq]
    · have ih' := ih fun r hr => h r (by simpa [hq] using hr)
      by_cases hp : p a = true
      · simp [hp, hq, ih']
      · simp [hp, hq, ih']

/-- Deleting other sessions does not touch a row that is kept. -/
theorem row?_deleteSessions {p : SessionRow → Bool} {sid : SessionId}
    (hp : ∀ r, s.row? sid = some r → p r = false) : (s.deleteSessions p).2.row? sid = s.row? sid :=
  find?_filter_keep p _ _ hp

@[simp] theorem sessions_insertFrom (sid : SessionId) (seq now : Int) (ms : List Message) :
    (s.insertFrom sid seq now ms).sessions = s.sessions := by
  induction ms generalizing s seq with
  | nil => rfl
  | cons m ms ih =>
    rw [insertFrom, ih]
    rfl

@[simp] theorem sessions_appendMessages (sid : SessionId) (ms : List Message) (now : Int) :
    (s.appendMessages sid ms now).2.sessions = s.sessions := by
  unfold appendMessages
  cases s.row? sid <;> simp

@[simp] theorem row?_appendMessages (sid sid' : SessionId) (ms : List Message) (now : Int) :
    (s.appendMessages sid ms now).2.row? sid' = s.row? sid' := by
  rw [row?, row?, sessions_appendMessages]

@[simp] theorem row?_deleteExpired (sid sid' : SessionId) (cutoff wm : Int) :
    (s.deleteExpired sid cutoff wm).2.row? sid' = s.row? sid' := rfl

end Store

end AgentVerse
