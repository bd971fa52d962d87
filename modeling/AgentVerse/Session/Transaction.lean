import AgentVerse.Effects.Pool
import AgentVerse.Session.Ledger

/-!
# Transactions of the session store

The statements of `append_message` and `append_turn` one by one, inside their transactions, against a database that
runs many of them at once. The database isolates transactions at read committed: a statement sees the committed rows
and those of its own transaction. It enforces `UNIQUE(session_id, sequence_num)` against the rows of all transactions
and the foreign key of messages. A statement that has to wait for another transaction is taken when it goes on, or
fails; any statement may fail for reasons of its own.
-/

namespace AgentVerse

open Effects

/-- The statements of a transaction. Transactions are numbered. -/
inductive TxStatement where
  /-- `SELECT COALESCE(MAX(sequence_num), 0) + 1 FROM messages WHERE session_id = ?`. -/
  | selectNext (sid : SessionId)
  /-- `INSERT INTO messages`; the result is the row, which the code does not look at. -/
  | insertMessage (sid : SessionId) (message : Message) (sequenceNum createdAt : Int)
  | commit

@[reducible] def TxStatement.Result : TxStatement → Type
  | selectNext _ => Int
  | insertMessage .. => MessageRow
  | commit => Unit

inductive DbRequest where
  /-- A request outside any transaction. -/
  | auto (q : Request)
  | begin
  | inTx (tx : Nat) (st : TxStatement)
  | rollback (tx : Nat)

@[reducible] def DbReply : DbRequest → Type
  | .auto q => Reply q
  | .begin => Except String Nat
  | .inTx _ st => Except String st.Result
  | .rollback _ => Unit

/-- A program over the database. -/
abbrev Db.M (ε α : Type) : Type := Prog DbRequest DbReply ε α

/-! ### The database -/

/-- An open transaction with the rows it inserted. -/
structure Transaction where
  id : Nat
  rows : List MessageRow

/-- The committed world and the open transactions. -/
structure Db where
  world : World
  opened : List Transaction
  nextTx : Nat
  /-- The last id drawn for a message row. -/
  lastRowId : Nat

namespace Db

variable (db : Db)

/-- The rows that are committed. -/
def messages : List MessageRow := db.world.store.messages

/-- The rows that are not committed yet. -/
def pending : List MessageRow := db.opened.flatMap (·.rows)

/-- The rows that a transaction inserted. -/
def own (tx : Nat) : List MessageRow := (db.opened.filter fun t => t.id = tx).flatMap (·.rows)

/-- What a transaction sees of the tables. -/
def visible (tx : Nat) : Store :=
  { db.world.store with messages := db.messages ++ db.own tx }

/-- The rows that a unique index covers. -/
def rows : List MessageRow := db.messages ++ db.pending

def tick (env : Env) : Db := { db with world := db.world.tick env }

/-- The open transactions without `tx`. -/
def close (tx : Nat) : List Transaction := db.opened.filter fun t => t.id ≠ tx

/-- The open transactions after `tx` inserted a row. -/
def insert (tx : Nat) (row : MessageRow) : List Transaction :=
  db.opened.map fun t => if t.id = tx then { t with rows := t.rows ++ [row] } else t

end Db

/-- The effect of a statement that the database executes. -/
def TxStatement.exec (db : Db) (tx : Nat) : (st : TxStatement) → Except String st.Result × Db
  | selectNext sid => (.ok ((db.visible tx).maxSequence sid + 1), db)
  | insertMessage sid message seq now =>
    if db.world.store.row? sid = none then (.error "FOREIGN KEY constraint failed", db)
    else if db.rows.any fun m => m.sessionId = sid && m.sequenceNum = seq then
      (.error "UNIQUE constraint failed: messages.session_id, messages.sequence_num", db)
    else
      let row : MessageRow := ⟨db.lastRowId + 1, sid, message, seq, now⟩
      (.ok row, { db with opened := db.insert tx row, lastRowId := db.lastRowId + 1 })
  | commit =>
    (.ok (), { db with
      world := { db.world with
        store := { db.world.store with
          messages := db.messages ++ db.own tx
          lastRowId := db.lastRowId } }
      opened := db.close tx })

/-- What the database answers. -/
def answerDb (env : Env) (db : Db) : (q : DbRequest) → DbReply q × Db
  | .auto (.sql (.deleteSession sid)) =>
    -- An insertion holds a lock on the session until its transaction ends.
    if db.pending.any fun m => m.sessionId = sid then (.error "database is locked", db.tick env)
    else ((handle env (.sql (.deleteSession sid)) db.world).1,
      { db with world := (handle env (.sql (.deleteSession sid)) db.world).2 })
  | .auto q => ((handle env q db.world).1, { db with world := (handle env q db.world).2 })
  | .begin =>
    match env.storeError db.world.steps with
    | some e => (.error e, db.tick env)
    | none => (.ok db.nextTx, { db.tick env with opened := db.opened ++ [⟨db.nextTx, []⟩], nextTx := db.nextTx + 1 })
  | .inTx tx st =>
    match env.storeError db.world.steps with
    | some e => (.error e, db.tick env)
    | none => st.exec (db.tick env) tx
  | .rollback tx => ((), { db.tick env with opened := db.close tx })

def handleDb (env : Env) : Handler DbReply Db := fun q db => answerDb env db q

/-! ### The calls -/

/-- A program whose requests stand outside any transaction. -/
def autocommit {ε α : Type} : M ε α → Db.M ε α
  | .ret a => .ret a
  | .fail e => .fail e
  | .ask q k => .ask (.auto q) fun r => autocommit (k r)

namespace SessionMemory

/-- A statement of a transaction. When it fails, the transaction is dropped, which rolls it back. -/
def inTx (tx : Nat) (st : TxStatement) : Db.M SessionMemoryError st.Result :=
  .ask (.inTx tx st) fun
    | .ok a => .ret a
    | .error e => .ask (.rollback tx) fun _ => .fail (.database e)

/-- The insertions of a transaction, at consecutive sequence numbers. -/
def insertAll (tx : Nat) (sid : SessionId) (now seq : Int) : List Message → Db.M SessionMemoryError Unit
  | [] => .ret ()
  | m :: ms => do
    let _ ← inTx tx (.insertMessage sid m seq now)
    insertAll tx sid now (seq + 1) ms

/-- The transaction of `append_message` and `append_turn`. -/
def appendTx (sid : SessionId) (now : Int) (ms : List Message) : Db.M SessionMemoryError Unit :=
  .ask .begin fun
    | .error e => .fail (.database e)
    | .ok tx => do
      let next ← inTx tx (.selectNext sid)
      insertAll tx sid now next ms
      inTx tx .commit

/-- `append_message` and `append_turn`, statement by statement. -/
def appendSteps (sid : SessionId) (ms : List Message) : Db.M SessionMemoryError Unit := do
  match ← autocommit (get sid) with
  | none => .fail (.notFound sid)
  | some _ =>
    let now ← autocommit nowTimestamp
    appendTx sid now ms

end SessionMemory

/-- The calls that add and remove the messages of a session. -/
inductive MessageCall where
  | appendTurn (sid : SessionId) (userMessage assistantMessage : Message)
  | appendMessage (sid : SessionId) (message : Message)
  | cleanupExpiredMessages (sid : SessionId) (cutoff watermark : Int)
  | deleteSession (sid : SessionId)

def MessageCall.program : MessageCall → Db.M SessionMemoryError Unit
  | appendTurn sid userMessage assistantMessage => SessionMemory.appendSteps sid [userMessage, assistantMessage]
  | appendMessage sid message => SessionMemory.appendSteps sid [message]
  | cleanupExpiredMessages sid cutoff watermark => do
    let _ ← autocommit (SessionMemory.cleanupExpiredMessages sid cutoff watermark)
    return ()
  | deleteSession sid => autocommit (SessionMemory.deleteSession sid)

/-- Calls in progress on a database without open transactions. -/
def MessageCall.pool {ι : Type} (calls : ι → MessageCall) (w : World) :
    Pool ι DbReply Db SessionMemoryError Unit :=
  ⟨fun i => (calls i).program, ⟨⟨w, [], 0, w.store.lastRowId⟩, []⟩⟩

/-! ### An append that runs alone -/

/-- The tables with the rows of all transactions. -/
def Db.merged (db : Db) : Store := { db.world.store with messages := db.rows, lastRowId := db.lastRowId }

namespace SessionMemory

variable {env : Env} {sid : SessionId} {now seq : Int} {tx : Nat}

/-- The insertion of a row with an unused number. -/
theorem insertMessage_alone (hserves : ∀ n, env.storeError n = none) {db : Db} {own : List MessageRow} {m : Message}
    (hopened : db.opened = [⟨tx, own⟩]) (hrow : db.world.store.row? sid ≠ none)
    (hnew : ∀ r ∈ db.rows, r.sessionId = sid → r.sequenceNum < seq) :
    handleDb env (.inTx tx (.insertMessage sid m seq now)) db =
      (.ok ⟨db.lastRowId + 1, sid, m, seq, now⟩, { db.tick env with
        opened := [⟨tx, own ++ [⟨db.lastRowId + 1, sid, m, seq, now⟩]⟩], lastRowId := db.lastRowId + 1 }) := by
  have hfree : ¬ ((db.tick env).rows.any fun r => r.sessionId = sid && r.sequenceNum = seq) = true := by
    intro h
    obtain ⟨r, hr, heq⟩ := List.any_eq_true.mp h
    simp only [Bool.and_eq_true, decide_eq_true_eq] at heq
    have hlt := hnew r hr heq.1
    omega
  have hexec : handleDb env (.inTx tx (.insertMessage sid m seq now)) db =
      TxStatement.exec (db.tick env) tx (.insertMessage sid m seq now) := by
    simp [handleDb, answerDb, hserves]
  have hrow' : ¬ (db.tick env).world.store.row? sid = none := hrow
  rw [hexec, TxStatement.exec, if_neg hrow', if_neg hfree]
  simp [Db.insert, Db.tick, hopened]

/-- The insertions of the only transaction. -/
theorem insertAll_alone (hserves : ∀ n, env.storeError n = none) (ms : List Message) {c : Config DbReply Db}
    {own : List MessageRow} (hopened : c.state.opened = [⟨tx, own⟩]) (hrow : c.state.world.store.row? sid ≠ none)
    (hnew : ∀ r ∈ c.state.rows, r.sessionId = sid → r.sequenceNum < seq) :
    ∃ c' own', (insertAll tx sid now seq ms).run (handleDb env) c = (.ok (), c') ∧ c'.state.opened = [⟨tx, own'⟩] ∧
      c'.state.merged = c.state.merged.insertFrom sid seq now ms := by
  induction ms generalizing c own seq with
  | nil => exact ⟨c, own, rfl, hopened, rfl⟩
  | cons m ms ih =>
    have hone : handleDb env (.inTx tx (.insertMessage sid m seq now)) c.state = _ :=
      insertMessage_alone hserves hopened hrow hnew
    have hrows : (c.after (handleDb env) (.inTx tx (.insertMessage sid m seq now))).state.rows =
        c.state.rows ++ [⟨c.state.lastRowId + 1, sid, m, seq, now⟩] := by
      simp [hone, Db.rows, Db.pending, Db.messages, hopened, Db.tick, World.tick]
    have hafter : (c.after (handleDb env) (.inTx tx (.insertMessage sid m seq now))).state.merged =
        c.state.merged.insertMessage sid m seq now := by
      simp only [Db.merged, hrows]
      simp [hone, Db.tick, World.tick, Store.insertMessage]
    have hbelow : ∀ r ∈ (c.after (handleDb env) (.inTx tx (.insertMessage sid m seq now))).state.rows,
        r.sessionId = sid → r.sequenceNum < seq + 1 := by
      intro r hr hsid
      rw [hrows] at hr
      rcases List.mem_append.mp hr with hr | hr
      · have hlt := hnew r hr hsid
        omega
      · rw [List.mem_singleton.mp hr]
        exact Int.lt_succ seq
    obtain ⟨c', own', hrun, hopened', hmerged⟩ :=
      ih (by rw [Config.after_state, hone]) (by rw [Config.after_state, hone]; exact hrow) hbelow
    refine ⟨c', own', ?_, hopened', hmerged.trans (by rw [hafter]; rfl)⟩
    rw [← hrun]
    simp only [insertAll, inTx, Prog.ask_bind, Prog.run_ask]
    rw [hone]
    rfl

/-- The transaction of an append that runs alone. -/
theorem appendTx_alone (hserves : ∀ n, env.storeError n = none) (ms : List Message) {c : Config DbReply Db}
    (hopened : c.state.opened = []) (hlast : c.state.lastRowId = c.state.world.store.lastRowId)
    (hrow : c.state.world.store.row? sid ≠ none) :
    ((appendTx sid now ms).run (handleDb env) c).1 = .ok () ∧
      ((appendTx sid now ms).run (handleDb env) c).2.state.world.store =
        (c.state.world.store.appendMessages sid ms now).2 := by
  -- `c₁`, `c₂` and `c₃` follow BEGIN, the read of the next number, and the inserts.
  have hbegin : handleDb env .begin c.state = (.ok c.state.nextTx, { c.state.tick env with
      opened := [⟨c.state.nextTx, []⟩], nextTx := c.state.nextTx + 1 }) := by
    simp [handleDb, answerDb, hserves, hopened, Db.tick]
  generalize hc₁ : c.after (handleDb env) .begin = c₁
  have hopened₁ : c₁.state.opened = [⟨c.state.nextTx, []⟩] := by rw [← hc₁, Config.after_state, hbegin]
  have hstore₁ : c₁.state.world.store = c.state.world.store := by rw [← hc₁, Config.after_state, hbegin]; rfl
  have hlast₁ : c₁.state.lastRowId = c.state.world.store.lastRowId := by
    rw [← hc₁, Config.after_state, hbegin]
    exact hlast
  have hselect : handleDb env (.inTx c.state.nextTx (.selectNext sid)) c₁.state =
      (.ok (c.state.world.store.maxSequence sid + 1), c₁.state.tick env) := by
    simp [handleDb, answerDb, hserves, TxStatement.exec, Db.visible, Db.tick, World.tick, Db.own, Db.messages,
      hopened₁, hstore₁]
  generalize hc₂ : c₁.after (handleDb env) (.inTx c.state.nextTx (.selectNext sid)) = c₂
  have hstate₂ : c₂.state = c₁.state.tick env := by rw [← hc₂, Config.after_state, hselect]
  have hrows₂ : c₂.state.rows = c.state.world.store.messages := by
    simp [hstate₂, Db.tick, World.tick, Db.rows, Db.pending, Db.messages, hopened₁, hstore₁]
  have hmerged₂ : c₂.state.merged = c.state.world.store := by
    simp only [Db.merged, hrows₂]
    simp [hstate₂, Db.tick, World.tick, hstore₁, hlast₁]
  have hbelow : ∀ r ∈ c₂.state.rows, r.sessionId = sid → r.sequenceNum < c.state.world.store.maxSequence sid + 1 := by
    intro r hr hsid
    rw [hrows₂] at hr
    have hle : r.sequenceNum ≤ c.state.world.store.maxSequence sid :=
      Store.sequenceNum_le_max (List.mem_filter.mpr ⟨hr, by simpa using hsid⟩)
    omega
  have hopened₂ : c₂.state.opened = [⟨c.state.nextTx, []⟩] := by rw [hstate₂]; exact hopened₁
  have hrow₂ : c₂.state.world.store.row? sid ≠ none := by rw [hstate₂]; exact hstore₁ ▸ hrow
  obtain ⟨c₃, own, hrun, hopened₃, hmerged₃⟩ : ∃ c' own', (insertAll c.state.nextTx sid now
      (c.state.world.store.maxSequence sid + 1) ms).run (handleDb env) c₂ = (.ok (), c') ∧
        c'.state.opened = [⟨c.state.nextTx, own'⟩] ∧ c'.state.merged =
          c₂.state.merged.insertFrom sid (c.state.world.store.maxSequence sid + 1) now ms :=
    insertAll_alone hserves ms hopened₂ hrow₂ hbelow
  have hcommit : handleDb env (.inTx c.state.nextTx .commit) c₃.state =
      TxStatement.exec (c₃.state.tick env) c.state.nextTx .commit := by
    simp [handleDb, answerDb, hserves]
  have hrest : (appendTx sid now ms).run (handleDb env) c =
      (.ok (), c₃.after (handleDb env) (.inTx c.state.nextTx .commit)) := by
    simp only [appendTx, inTx, Prog.ask_bind, Prog.run_ask]
    rw [hbegin]
    simp only [Prog.run_ask, hc₁]
    rw [hselect]
    simp only [Prog.ret_bind, hc₂]
    rw [Prog.run_bind, hrun]
    simp only [Prog.run_ask]
    rw [hcommit]
    rfl
  refine ⟨by rw [hrest], ?_⟩
  cases hr : c.state.world.store.row? sid with
  | none => exact absurd hr hrow
  | some r =>
    rw [hmerged₂] at hmerged₃
    rw [hrest, Store.appendMessages, hr]
    dsimp only
    rw [← hmerged₃, Config.after_state, hcommit]
    simp [TxStatement.exec, Db.merged, Db.rows, Db.pending, Db.own, Db.tick, World.tick, Db.messages, hopened₃]

/-- Statement by statement or in one step, an append that runs alone has the same effect. -/
theorem appendSteps_alone (hserves : ∀ n, env.storeError n = none) (ms : List Message) (w : World) (next : Nat) :
    ((appendSteps sid ms).run (handleDb env) ⟨⟨w, [], next, w.store.lastRowId⟩, []⟩).1 =
        ((append sid ms).run (handle env) ⟨w, []⟩).1 ∧
      ((appendSteps sid ms).run (handleDb env) ⟨⟨w, [], next, w.store.lastRowId⟩, []⟩).2.state.world.store =
        ((append sid ms).run (handle env) ⟨w, []⟩).2.state.store := by
  -- Both read the session and the time first; then the transaction is compared with the one statement.
  generalize hsteps : (⟨⟨w, [], next, w.store.lastRowId⟩, []⟩ : Config DbReply Db) = c
  have hget : handleDb env (.auto (.sql (.selectSession sid))) c.state =
      (.ok ((w.store.row? sid).map SessionRow.toSession), { c.state with world := w.tick env }) := by
    simp [← hsteps, handleDb, answerDb, handle_sql_ok _ (hserves _), Statement.exec, World.tick]
  have hget' : handle env (.sql (.selectSession sid)) w =
      (.ok ((w.store.row? sid).map SessionRow.toSession), w.tick env) := by
    simp [handle_sql_ok _ (hserves _), Statement.exec, World.tick]
  cases hr : w.store.row? sid with
  | none =>
    have hrun : (appendSteps sid ms).run (handleDb env) c =
        (.error (.notFound sid), c.after (handleDb env) (.auto (.sql (.selectSession sid)))) := by
      simp only [appendSteps, get, query, autocommit, Prog.ask_bind, Prog.run_ask]
      rw [hget, hr]
      rfl
    have hrun' : (append sid ms).run (handle env) ⟨w, []⟩ =
        (.error (.notFound sid), (⟨w, []⟩ : Config Reply World).after (handle env) (.sql (.selectSession sid))) := by
      simp only [append, get, query, Prog.ask_bind, Prog.run_ask]
      rw [hget', hr]
      rfl
    rw [hrun, hrun', Config.after_state, Config.after_state, hget, hget']
    exact ⟨rfl, rfl⟩
  | some r =>
    let w₁ : World := w.tick env
    let c₂ := (c.after (handleDb env) (.auto (.sql (.selectSession sid)))).after (handleDb env) (.auto .now)
    have hstate₂ : c₂.state = ⟨w₁.tick env, [], next, w.store.lastRowId⟩ := by
      simp only [c₂, Config.after_state, hget]
      rw [← hsteps]
      rfl
    have hrun : (appendSteps sid ms).run (handleDb env) c =
        (appendTx sid (timestamp (w₁.tick env).clock) ms).run (handleDb env) c₂ := by
      simp only [appendSteps, get, query, nowTimestamp, autocommit, Prog.ask_bind, Prog.run_ask]
      rw [hget, hr]
      simp only [Option.map_some, autocommit, Prog.ret_bind, Prog.run_ask, c₂]
      rw [Config.after_state, hget]
      rfl
    have happend : handle env (.sql (.appendMessages sid ms (timestamp (w₁.tick env).clock))) (w₁.tick env) =
        (.ok (), { (w₁.tick env).tick env with
          store := (w.store.appendMessages sid ms (timestamp (w₁.tick env).clock)).2 }) := by
      simp [handle_sql_ok _ (hserves _), Statement.exec, Store.appendMessages, hr, w₁, World.tick]
    have hrun' : (append sid ms).run (handle env) ⟨w, []⟩ =
        (query (.appendMessages sid ms (timestamp (w₁.tick env).clock))).run (handle env)
          (((⟨w, []⟩ : Config Reply World).after (handle env) (.sql (.selectSession sid))).after (handle env) .now) := by
      simp only [append, get, query, nowTimestamp, Prog.ask_bind, Prog.run_ask]
      rw [hget', hr]
      simp only [Option.map_some, Prog.ret_bind, Prog.run_ask]
      rw [Config.after_state, hget']
      rfl
    have hstate : (((⟨w, []⟩ : Config Reply World).after (handle env) (.sql (.selectSession sid))).after
        (handle env) .now).state = w₁.tick env := by
      simp only [Config.after_state, hget']
      rfl
    have hrow₂ : c₂.state.world.store.row? sid ≠ none := by
      rw [hstate₂]
      exact fun h => absurd (hr.symm.trans h) (by simp)
    obtain ⟨hok, hstore⟩ : ((appendTx sid (timestamp (w₁.tick env).clock) ms).run (handleDb env) c₂).1 = .ok () ∧
        ((appendTx sid (timestamp (w₁.tick env).clock) ms).run (handleDb env) c₂).2.state.world.store =
          (c₂.state.world.store.appendMessages sid ms (timestamp (w₁.tick env).clock)).2 :=
      appendTx_alone hserves ms (by rw [hstate₂]) (by rw [hstate₂]; rfl) hrow₂
    rw [hrun, hok, hstore, hrun', run_query, hstate₂, hstate, happend]
    refine ⟨rfl, ?_⟩
    rw [Config.after_state, hstate, happend]
    rfl

end SessionMemory

end AgentVerse
