import Mathlib.Data.List.Flatten
import AgentVerse.Effects.Keyed
import AgentVerse.Session.Transaction

/-!
# Accounts of the message tables

What concurrent appends, cleanups and deletions of messages did (`Inserted`, `Committed`, `Removed`), and the order
they keep the tables in (`Accounted`). `OfAppends.turn` says what a turn of theirs does to the database, and
`Accounted.turn` that it keeps the order.
-/

namespace AgentVerse

open Effects

/-! ### What happened -/

/-- The transaction that was begun. -/
def begunTx : Step DbReply → Option Nat
  | ⟨.begin, .ok tx⟩ => some tx
  | _ => none

/-- The row that was inserted. -/
def insertedRow : Step DbReply → Option MessageRow
  | ⟨.inTx _ (.insertMessage ..), .ok row⟩ => some row
  | _ => none

/-- Whether a transaction was committed. -/
def isCommit : Step DbReply → Bool
  | ⟨.inTx _ .commit, .ok _⟩ => true
  | _ => false

/-- Whether a row was removed, by a cleanup that returned it or by the deletion of its session. -/
def removes (row : MessageRow) : Step DbReply → Bool
  | ⟨.auto (.sql (.deleteExpired ..)), .ok rows⟩ => rows.contains row
  | ⟨.auto (.sql (.deleteSession sid)), .ok _⟩ => row.sessionId = sid
  | _ => false

variable {ι : Type}

abbrev DbView (ι : Type) : Type := View ι DbReply Db

def Begun (v : DbView ι) (i : ι) (tx : Nat) : Prop := Happened v i fun x => begunTx x = some tx

def Inserted (v : DbView ι) (i : ι) (row : MessageRow) : Prop := Happened v i fun x => insertedRow x = some row

def Committed (v : DbView ι) (i : ι) : Prop := Happened v i fun x => isCommit x = true

/-- A row was removed after it was inserted. -/
def Removed (v : DbView ι) (row : MessageRow) : Prop :=
  ∃ before x after, v.trace = before ++ x :: after ∧ removes row x.2 = true ∧
    ∃ y ∈ before, insertedRow y.2 = some row

/-- A row is stored, unless a cleanup or a deletion removed it. -/
def Kept (v : DbView ι) (row : MessageRow) : Prop := row ∈ v.state.messages ∨ Removed v row

theorem Removed.after {h : Handler DbReply Db} {v : DbView ι} {j : ι} {q : DbRequest} {row : MessageRow} (hr : Removed v row) : Removed (v.after h j q) row := by
  obtain ⟨before, x, rest, htrace, hx, hins⟩ := hr
  exact ⟨before, x, rest ++ [(j, ⟨q, (h q v.state).1⟩)], by simp [htrace], hx, hins⟩

/-! ### The database in order -/

/-- The columns of the unique index. -/
def MessageRow.key (row : MessageRow) : SessionId × Int := (row.sessionId, row.sequenceNum)

/-- The tables are in order, and every row and every transaction is accounted for. -/
structure Accounted (init : Store) (v : DbView ι) : Prop where
  unique : (v.state.rows.map MessageRow.key).Nodup
  ids : (v.state.opened.map (·.id)).Nodup
  opened_lt : ∀ t ∈ v.state.opened, t.id < v.state.nextTx
  begun_lt : ∀ i tx, Begun v i tx → tx < v.state.nextTx
  begun_once : ∀ i j tx, Begun v i tx → Begun v j tx → i = j
  lastRowId_le : init.lastRowId ≤ v.state.lastRowId
  inserted_id : ∀ i row, Inserted v i row → init.lastRowId < row.id ∧ row.id ≤ v.state.lastRowId
  inserted_once : ∀ i j row, Inserted v i row → Inserted v j row → i = j
  owned : ∀ t ∈ v.state.opened, ∀ row ∈ t.rows, ∃ i, Begun v i t.id ∧ Inserted v i row
  stored : ∀ row ∈ v.state.messages, row ∈ init.messages ∨ ∃ i, Inserted v i row ∧ Committed v i

/-- What the threads ask. A thread touches its own transactions only. -/
inductive OfAppends (v : DbView ι) (i : ι) : DbRequest → Prop where
  | idle {q : Request} (hq : q.Idle) : OfAppends v i (.auto q)
  | expire (sid : SessionId) (cutoff wm : Int) : OfAppends v i (.auto (.sql (.deleteExpired sid cutoff wm)))
  | delete (sid : SessionId) : OfAppends v i (.auto (.sql (.deleteSession sid)))
  | begin : OfAppends v i .begin
  | inTx {tx : Nat} (hb : Begun v i tx) (st : TxStatement) : OfAppends v i (.inTx tx st)
  | rollback {tx : Nat} (hb : Begun v i tx) : OfAppends v i (.rollback tx)

def appending (init : Store) : Discipline ι DbReply Db := ⟨Accounted init, fun _ _ _ => True, OfAppends⟩

/-! ### How the database changes -/

namespace Db

variable {db : Db} {tx : Nat}

theorem own_eq {t : Transaction} (hids : (db.opened.map (·.id)).Nodup) (ht : t ∈ db.opened) :
    db.own t.id = t.rows := by
  simp [own, filter_key_eq hids ht]

/-- The rows of one transaction, and those of the others. -/
theorem pending_perm {t : Transaction} (hids : (db.opened.map (·.id)).Nodup) (ht : t ∈ db.opened) :
    db.pending.Perm (t.rows ++ (db.close t.id).flatMap (·.rows)) :=
  (perm_front hids ht).flatMap_right _

theorem insert_perm {t : Transaction} (hids : (db.opened.map (·.id)).Nodup) (ht : t ∈ db.opened)
    (row : MessageRow) : ((db.insert t.id row).flatMap (·.rows)).Perm (row :: db.pending) := by
  have hafter : ((db.insert t.id row).flatMap (·.rows)).Perm
      ((t.rows ++ [row]) ++ (db.close t.id).flatMap (·.rows)) :=
    (map_update_perm hids ht fun t => { t with rows := t.rows ++ [row] }).flatMap_right _
  have hmove : ((t.rows ++ [row]) ++ (db.close t.id).flatMap (·.rows)).Perm
      (row :: (t.rows ++ (db.close t.id).flatMap (·.rows))) := by
    rw [List.append_assoc]
    exact List.perm_middle
  exact hafter.trans (hmove.trans ((pending_perm hids ht).symm.cons row))

theorem insert_absent (habsent : ∀ t ∈ db.opened, t.id ≠ tx) (row : MessageRow) : db.insert tx row = db.opened := by
  unfold insert
  calc db.opened.map _ = db.opened.map id := List.map_congr_left fun t ht => if_neg (habsent t ht)
    _ = db.opened := List.map_id _

@[simp] theorem insert_ids (row : MessageRow) : (db.insert tx row).map (·.id) = db.opened.map (·.id) := by
  simp only [insert, List.map_map]
  refine List.map_congr_left fun t _ => ?_
  simp only [Function.comp_apply]
  split <;> rfl

end Db

variable {env : Env} {init : Store} {v : DbView ι} {i j : ι} {q : DbRequest}

/-- What a turn of the threads does to the database. -/
inductive Turn (env : Env) (db : Db) (q : DbRequest) : Prop where
  /-- Rows or transactions may go. -/
  | shrinks (hbegun : begunTx ⟨q, (handleDb env q db).1⟩ = none)
      (hinserted : insertedRow ⟨q, (handleDb env q db).1⟩ = none)
      (hcommit : isCommit ⟨q, (handleDb env q db).1⟩ = false)
      (hmessages : (handleDb env q db).2.messages.Sublist db.messages)
      (hremoved : ∀ row ∈ db.messages, row ∉ (handleDb env q db).2.messages →
        removes row ⟨q, (handleDb env q db).1⟩ = true)
      (hopened : (handleDb env q db).2.opened.Sublist db.opened)
      (hkeeps : ∀ t ∈ db.opened, q ≠ .rollback t.id → t ∈ (handleDb env q db).2.opened)
      (hnext : (handleDb env q db).2.nextTx = db.nextTx) (hlast : (handleDb env q db).2.lastRowId = db.lastRowId)
  /-- A transaction begins. -/
  | begins (hq : q = .begin) (hevent : begunTx ⟨q, (handleDb env q db).1⟩ = some db.nextTx)
      (hmessages : (handleDb env q db).2.messages = db.messages)
      (hopened : (handleDb env q db).2.opened = db.opened ++ [⟨db.nextTx, []⟩])
      (hnext : (handleDb env q db).2.nextTx = db.nextTx + 1) (hlast : (handleDb env q db).2.lastRowId = db.lastRowId)
  /-- A row is inserted. -/
  | inserts {tx : Nat} {row : MessageRow} {st : TxStatement} (hq : q = .inTx tx st)
      (hevent : insertedRow ⟨q, (handleDb env q db).1⟩ = some row)
      (hid : row.id = db.lastRowId + 1) (hkey : row.key ∉ db.rows.map MessageRow.key)
      (hmessages : (handleDb env q db).2.messages = db.messages)
      (hopened : (handleDb env q db).2.opened = db.insert tx row)
      (hnext : (handleDb env q db).2.nextTx = db.nextTx)
      (hlast : (handleDb env q db).2.lastRowId = db.lastRowId + 1)
  /-- A transaction is committed. -/
  | commits {tx : Nat} (hq : q = .inTx tx .commit) (hevent : isCommit ⟨q, (handleDb env q db).1⟩ = true)
      (hmessages : (handleDb env q db).2.messages = db.messages ++ db.own tx)
      (hopened : (handleDb env q db).2.opened = db.close tx)
      (hnext : (handleDb env q db).2.nextTx = db.nextTx) (hlast : (handleDb env q db).2.lastRowId = db.lastRowId)

/-- A turn that leaves the messages and the transactions as they are. -/
private theorem Turn.same {db : Db} (hbegun : begunTx ⟨q, (handleDb env q db).1⟩ = none)
    (hinserted : insertedRow ⟨q, (handleDb env q db).1⟩ = none) (hcommit : isCommit ⟨q, (handleDb env q db).1⟩ = false)
    (hmessages : (handleDb env q db).2.messages = db.messages)
    (hopened : (handleDb env q db).2.opened = db.opened)
    (hnext : (handleDb env q db).2.nextTx = db.nextTx) (hlast : (handleDb env q db).2.lastRowId = db.lastRowId) :
    Turn env db q :=
  .shrinks hbegun hinserted hcommit (hmessages ▸ .refl _) (fun _ hrow hgone => absurd (hmessages ▸ hrow) hgone)
    (hopened ▸ .refl _) (fun _ ht _ => hopened ▸ ht) hnext hlast

private theorem handleDb_idle {q : Request} (hq : q.Idle) (db : Db) :
    handleDb env (.auto q) db = ((handle env q db.world).1, { db with world := (handle env q db.world).2 }) := by
  cases q with
  | sql st => cases st <;> first | rfl | exact hq.elim
  | _ => rfl

/-- The messages after a deletion of messages. -/
private theorem messages_deleteExpired (env : Env) (w : World) (sid : SessionId) (cutoff wm : Int) :
    (handle env (.sql (.deleteExpired sid cutoff wm)) w).2.store.messages.Sublist w.store.messages ∧
      ∀ row ∈ w.store.messages, row ∉ (handle env (.sql (.deleteExpired sid cutoff wm)) w).2.store.messages →
        removes row ⟨.auto (.sql (.deleteExpired sid cutoff wm)),
          (handle env (.sql (.deleteExpired sid cutoff wm)) w).1⟩ = true := by
  cases hs : env.storeError w.steps with
  | some e =>
    rw [handle_sql_error _ hs]
    exact ⟨.refl _, fun row hrow hgone => absurd hrow hgone⟩
  | none =>
    rw [handle_sql_ok _ hs]
    refine ⟨List.filter_sublist, fun row hrow hgone => ?_⟩
    by_cases hexp : Store.expired sid cutoff wm row = true
    · simp only [removes, Statement.exec, Store.deleteExpired, List.contains_iff_mem]
      exact List.mem_filter.mpr ⟨hrow, hexp⟩
    · exact absurd (List.mem_filter.mpr ⟨hrow, by simpa using hexp⟩) hgone

/-- The messages after a deletion of their session. -/
private theorem messages_deleteSession (env : Env) (w : World) (sid : SessionId) :
    (handle env (.sql (.deleteSession sid)) w).2.store.messages.Sublist w.store.messages ∧
      ∀ row ∈ w.store.messages, row ∉ (handle env (.sql (.deleteSession sid)) w).2.store.messages →
        removes row ⟨.auto (.sql (.deleteSession sid)), (handle env (.sql (.deleteSession sid)) w).1⟩ = true := by
  cases hs : env.storeError w.steps with
  | some e =>
    rw [handle_sql_error _ hs]
    exact ⟨.refl _, fun row hrow hgone => absurd hrow hgone⟩
  | none =>
    rw [handle_sql_ok _ hs]
    refine ⟨List.filter_sublist, fun row hrow hgone => ?_⟩
    simp only [removes, Statement.exec, decide_eq_true_eq]
    by_contra hne
    refine hgone (List.mem_filter.mpr ⟨hrow, ?_⟩)
    simp only [Bool.not_eq_true', List.any_eq_false, List.mem_filter, decide_eq_true_eq, and_imp]
    intro r _ hr heq
    exact hne (heq ▸ hr)

/-- Every turn of the threads is of one of these kinds. -/
theorem OfAppends.turn (hq : OfAppends v i q) : Turn env v.state q := by
  cases hq with
  | @idle q hq =>
    have hstore : (handleDb env (.auto q) v.state).2.messages = v.state.messages := by
      rw [handleDb_idle hq]
      exact congrArg Store.messages (hq.store v.state.world)
    refine .same rfl rfl rfl hstore ?_ ?_ ?_ <;> rw [handleDb_idle hq]
  | expire sid cutoff wm =>
    obtain ⟨hsub, hgone⟩ := messages_deleteExpired env v.state.world sid cutoff wm
    exact .shrinks rfl rfl rfl hsub hgone (.refl _) (fun t ht _ => ht) rfl rfl
  | delete sid =>
    by_cases hlocked : (v.state.pending.any fun m => m.sessionId = sid) = true
    · have h : handleDb env (.auto (.sql (.deleteSession sid))) v.state =
          (.error "database is locked", v.state.tick env) := if_pos hlocked
      refine .same rfl rfl rfl ?_ ?_ ?_ ?_ <;> rw [h] <;> rfl
    · have h : handleDb env (.auto (.sql (.deleteSession sid))) v.state =
          ((handle env (.sql (.deleteSession sid)) v.state.world).1,
            { v.state with world := (handle env (.sql (.deleteSession sid)) v.state.world).2 }) := if_neg hlocked
      obtain ⟨hsub, hgone⟩ := messages_deleteSession env v.state.world sid
      refine .shrinks rfl rfl rfl ?_ ?_ ?_ ?_ ?_ ?_
      · rw [h]; exact hsub
      · rw [h]; exact hgone
      · rw [h]
      · rw [h]; exact fun t ht _ => ht
      · rw [h]
      · rw [h]
  | begin =>
    cases hs : env.storeError v.state.world.steps with
    | some e =>
      have h : handleDb env .begin v.state = (.error e, v.state.tick env) := by simp [handleDb, answerDb, hs]
      refine .same ?_ rfl rfl ?_ ?_ ?_ ?_ <;> rw [h] <;> rfl
    | none =>
      have h : handleDb env .begin v.state = (.ok v.state.nextTx, { v.state.tick env with
          opened := v.state.opened ++ [⟨v.state.nextTx, []⟩], nextTx := v.state.nextTx + 1 }) := by
        simp [handleDb, answerDb, hs, Db.tick]
      refine .begins rfl ?_ ?_ ?_ ?_ ?_ <;> rw [h] <;> rfl
  | @inTx tx hb st =>
    cases hs : env.storeError v.state.world.steps with
    | some e =>
      have h : handleDb env (.inTx tx st) v.state = (.error e, v.state.tick env) := by
        simp [handleDb, answerDb, hs]
      refine .same rfl ?_ ?_ ?_ ?_ ?_ ?_ <;> rw [h] <;> first | rfl | (cases st <;> rfl)
    | none =>
      have h : handleDb env (.inTx tx st) v.state = st.exec (v.state.tick env) tx := by
        simp [handleDb, answerDb, hs]
      cases st with
      | selectNext sid => refine .same rfl rfl rfl ?_ ?_ ?_ ?_ <;> rw [h] <;> rfl
      | commit => refine .commits rfl ?_ ?_ ?_ ?_ ?_ <;> rw [h] <;> rfl
      | insertMessage sid m seq now =>
        -- The row violates the foreign key, or the unique key, or is inserted.
        by_cases hrow : (v.state.tick env).world.store.row? sid = none
        · rw [TxStatement.exec, if_pos hrow] at h
          refine .same rfl ?_ rfl ?_ ?_ ?_ ?_ <;> rw [h] <;> rfl
        · by_cases hdup : ((v.state.tick env).rows.any fun m => m.sessionId = sid && m.sequenceNum = seq) = true
          · rw [TxStatement.exec, if_neg hrow, if_pos hdup] at h
            refine .same rfl ?_ rfl ?_ ?_ ?_ ?_ <;> rw [h] <;> rfl
          · rw [TxStatement.exec, if_neg hrow, if_neg hdup] at h
            have hevent : insertedRow ⟨.inTx tx (.insertMessage sid m seq now),
                (handleDb env (.inTx tx (.insertMessage sid m seq now)) v.state).1⟩ =
                  some ⟨v.state.lastRowId + 1, sid, m, seq, now⟩ := by
              rw [h]
              rfl
            refine .inserts rfl hevent rfl ?_ ?_ ?_ ?_ ?_
            · intro hmem
              obtain ⟨r, hr, heq⟩ := List.mem_map.mp hmem
              simp only [MessageRow.key, Prod.mk.injEq] at heq
              exact hdup (List.any_eq_true.mpr ⟨r, hr, by simp [heq.1, heq.2]⟩)
            all_goals
              rw [h]
              rfl
  | @rollback tx hb =>
    refine .shrinks rfl rfl rfl (.refl _) (fun row hrow hgone => absurd hrow hgone) List.filter_sublist
      (fun t ht hne => ?_) rfl rfl
    refine List.mem_filter.mpr ⟨ht, ?_⟩
    simp only [ne_eq, decide_eq_true_eq]
    rintro rfl
    exact hne rfl

namespace Accounted

/-- A turn that begins no transaction and inserts nothing keeps the tables in order if it only takes rows and
transactions away. -/
theorem shrink (h : Accounted init v) (hbegun : begunTx ⟨q, (handleDb env q v.state).1⟩ = none)
    (hinserted : insertedRow ⟨q, (handleDb env q v.state).1⟩ = none)
    (hmessages : (v.after (handleDb env) j q).state.messages.Sublist v.state.messages)
    (hopened : (v.after (handleDb env) j q).state.opened.Sublist v.state.opened)
    (hnext : (v.after (handleDb env) j q).state.nextTx = v.state.nextTx)
    (hlast : (v.after (handleDb env) j q).state.lastRowId = v.state.lastRowId) :
    Accounted init (v.after (handleDb env) j q) := by
  have hb : ∀ i tx, Begun (v.after (handleDb env) j q) i tx → Begun v i tx := by
    intro i tx hx
    rcases happened_after.mp hx with hx | ⟨-, hx⟩
    · exact hx
    · rw [hbegun] at hx
      cases hx
  have hi : ∀ i row, Inserted (v.after (handleDb env) j q) i row → Inserted v i row := by
    intro i row hx
    rcases happened_after.mp hx with hx | ⟨-, hx⟩
    · exact hx
    · rw [hinserted] at hx
      cases hx
  have hrows : (v.after (handleDb env) j q).state.rows.Sublist v.state.rows :=
    hmessages.append (hopened.flatMap _)
  exact {
    unique := h.unique.sublist (hrows.map _)
    ids := h.ids.sublist (hopened.map _)
    opened_lt := fun t ht => hnext ▸ h.opened_lt t (hopened.subset ht)
    begun_lt := fun i tx hx => hnext ▸ h.begun_lt i tx (hb i tx hx)
    begun_once := fun i k tx hx hy => h.begun_once i k tx (hb i tx hx) (hb k tx hy)
    lastRowId_le := hlast ▸ h.lastRowId_le
    inserted_id := fun i row hx => hlast ▸ h.inserted_id i row (hi i row hx)
    inserted_once := fun i k row hx hy => h.inserted_once i k row (hi i row hx) (hi k row hy)
    owned := fun t ht row hrow =>
      (h.owned t (hopened.subset ht) row hrow).imp fun i hx => ⟨hx.1.after, hx.2.after⟩
    stored := fun row hrow => (h.stored row (hmessages.subset hrow)).imp_right fun hx =>
      hx.imp fun i hx => ⟨hx.1.after, hx.2.after⟩ }

/-- A new transaction. -/
theorem begins (h : Accounted init v) (hevent : begunTx ⟨.begin, (handleDb env .begin v.state).1⟩ = some v.state.nextTx)
    (hmessages : (v.after (handleDb env) j .begin).state.messages = v.state.messages)
    (hopened : (v.after (handleDb env) j .begin).state.opened = v.state.opened ++ [⟨v.state.nextTx, []⟩])
    (hnext : (v.after (handleDb env) j .begin).state.nextTx = v.state.nextTx + 1)
    (hlast : (v.after (handleDb env) j .begin).state.lastRowId = v.state.lastRowId) :
    Accounted init (v.after (handleDb env) j .begin) := by
  have hb : ∀ i tx, Begun (v.after (handleDb env) j .begin) i tx → Begun v i tx ∨ (j = i ∧ tx = v.state.nextTx) := by
    intro i tx hx
    refine (happened_after.mp hx).imp_right fun ⟨hj, hx⟩ => ⟨hj, ?_⟩
    rw [hevent] at hx
    exact (Option.some.inj hx).symm
  have hi : ∀ i row, Inserted (v.after (handleDb env) j .begin) i row → Inserted v i row :=
    fun i row hx => (happened_after.mp hx).elim id fun hx => by cases hx.2
  have hrows : (v.after (handleDb env) j .begin).state.rows = v.state.rows := by
    simp only [Db.rows, Db.pending, hmessages, hopened, List.flatMap_append, List.flatMap_cons, List.flatMap_nil,
      List.append_nil]
  refine {
    unique := by rw [hrows]; exact h.unique
    ids := ?_
    opened_lt := fun t ht => ?_
    begun_lt := fun i tx hx => ?_
    begun_once := fun i k tx hx hy => ?_
    lastRowId_le := hlast ▸ h.lastRowId_le
    inserted_id := fun i row hx => hlast ▸ h.inserted_id i row (hi i row hx)
    inserted_once := fun i k row hx hy => h.inserted_once i k row (hi i row hx) (hi k row hy)
    owned := fun t ht row hrow => ?_
    stored := fun row hrow => (h.stored row (hmessages ▸ hrow)).imp_right fun hx =>
      hx.imp fun i hx => ⟨hx.1.after, hx.2.after⟩ }
  · -- Every open transaction has a smaller number.
    rw [hopened, List.map_append, List.nodup_append]
    refine ⟨h.ids, List.nodup_singleton _, ?_⟩
    intro a ha b hb heq
    obtain ⟨t, ht, rfl⟩ := List.mem_map.mp ha
    have hlt := h.opened_lt t ht
    simp only [List.map_cons, List.map_nil, List.mem_singleton] at hb
    omega
  · rw [hnext]
    rw [hopened] at ht
    rcases List.mem_append.mp ht with ht | ht
    · have hlt := h.opened_lt t ht
      omega
    · rw [List.mem_singleton.mp ht]
      exact Nat.lt_succ_self _
  · rw [hnext]
    rcases hb i tx hx with hx | ⟨-, rfl⟩
    · have hlt := h.begun_lt i tx hx
      omega
    · exact Nat.lt_succ_self _
  · rcases hb i tx hx with hx | ⟨hj, htx⟩
    · rcases hb k tx hy with hy | ⟨-, rfl⟩
      · exact h.begun_once i k tx hx hy
      · exact absurd (h.begun_lt i _ hx) (Nat.lt_irrefl _)
    · rcases hb k tx hy with hy | ⟨hk, -⟩
      · exact absurd (htx ▸ h.begun_lt k tx hy) (Nat.lt_irrefl _)
      · exact hj.symm.trans hk
  · rw [hopened] at ht
    rcases List.mem_append.mp ht with ht | ht
    · exact (h.owned t ht row hrow).imp fun i hx => ⟨hx.1.after, hx.2.after⟩
    · rw [List.mem_singleton.mp ht] at hrow
      cases hrow

/-- A new row of a transaction. -/
theorem inserts (h : Accounted init v) {tx : Nat} {row : MessageRow} {st : TxStatement} (hbegun : Begun v j tx)
    (hevent : insertedRow ⟨.inTx tx st, (handleDb env (.inTx tx st) v.state).1⟩ = some row)
    (hid : row.id = v.state.lastRowId + 1) (hkey : row.key ∉ v.state.rows.map MessageRow.key)
    (hmessages : (v.after (handleDb env) j (.inTx tx st)).state.messages = v.state.messages)
    (hopened : (v.after (handleDb env) j (.inTx tx st)).state.opened = v.state.insert tx row)
    (hnext : (v.after (handleDb env) j (.inTx tx st)).state.nextTx = v.state.nextTx)
    (hlast : (v.after (handleDb env) j (.inTx tx st)).state.lastRowId = v.state.lastRowId + 1) :
    Accounted init (v.after (handleDb env) j (.inTx tx st)) := by
  have hb : ∀ i tx', Begun (v.after (handleDb env) j (.inTx tx st)) i tx' → Begun v i tx' :=
    fun i tx' hx => (happened_after.mp hx).elim id fun hx => by cases hx.2
  have hi : ∀ i r, Inserted (v.after (handleDb env) j (.inTx tx st)) i r → Inserted v i r ∨ (j = i ∧ r = row) := by
    intro i r hx
    refine (happened_after.mp hx).imp_right fun ⟨hj, hx⟩ => ⟨hj, ?_⟩
    rw [hevent] at hx
    exact (Option.some.inj hx).symm
  -- A row of a transaction that is not open any more is lost.
  have hrows : (v.after (handleDb env) j (.inTx tx st)).state.rows.Perm (row :: v.state.rows) ∨
      (v.after (handleDb env) j (.inTx tx st)).state.rows = v.state.rows := by
    simp only [Db.rows, hmessages]
    by_cases htx : ∃ t ∈ v.state.opened, t.id = tx
    · obtain ⟨t, ht, rfl⟩ := htx
      refine .inl ?_
      rw [Db.pending, hopened]
      exact ((Db.insert_perm h.ids ht row).append_left _).trans List.perm_middle
    · refine .inr ?_
      rw [Db.pending, hopened, Db.insert_absent (fun t ht heq => htx ⟨t, ht, heq⟩), Db.pending]
  have hnew : ∀ i, ¬ Inserted v i row := by
    intro i hx
    have hle := (h.inserted_id i row hx).2
    omega
  refine {
    unique := ?_
    ids := by rw [hopened, Db.insert_ids]; exact h.ids
    opened_lt := fun t ht => ?_
    begun_lt := fun i tx' hx => hnext ▸ h.begun_lt i tx' (hb i tx' hx)
    begun_once := fun i k tx' hx hy => h.begun_once i k tx' (hb i tx' hx) (hb k tx' hy)
    lastRowId_le := by rw [hlast]; exact Nat.le_succ_of_le h.lastRowId_le
    inserted_id := fun i r hx => ?_
    inserted_once := fun i k r hx hy => ?_
    owned := fun t ht r hr => ?_
    stored := fun r hr => (h.stored r (hmessages ▸ hr)).imp_right fun hx =>
      hx.imp fun i hx => ⟨hx.1.after, hx.2.after⟩ }
  · rcases hrows with hrows | hrows
    · refine (hrows.map _).nodup_iff.mpr ?_
      rw [List.map_cons]
      exact List.nodup_cons.mpr ⟨hkey, h.unique⟩
    · rw [hrows]
      exact h.unique
  · rw [hnext]
    have hmem : t.id ∈ (v.state.insert tx row).map (·.id) := List.mem_map_of_mem (hopened ▸ ht)
    rw [Db.insert_ids] at hmem
    obtain ⟨t', ht', heq⟩ := List.mem_map.mp hmem
    exact heq ▸ h.opened_lt t' ht'
  · rw [hlast]
    have hle := h.lastRowId_le
    rcases hi i r hx with hx | ⟨-, rfl⟩
    · have hb := h.inserted_id i r hx
      omega
    · omega
  · rcases hi i r hx with hx | ⟨hj, rfl⟩
    · rcases hi k r hy with hy | ⟨-, rfl⟩
      · exact h.inserted_once i k r hx hy
      · exact absurd hx (hnew i)
    · rcases hi k r hy with hy | ⟨hk, -⟩
      · exact absurd hy (hnew k)
      · exact hj.symm.trans hk
  · rw [hopened] at ht
    obtain ⟨t₀, ht₀, rfl⟩ := List.mem_map.mp ht
    by_cases htx : t₀.id = tx
    · rw [if_pos htx] at hr ⊢
      rcases List.mem_append.mp hr with hr | hr
      · exact (h.owned t₀ ht₀ r hr).imp fun i hx => ⟨hx.1.after, hx.2.after⟩
      · obtain rfl := List.mem_singleton.mp hr
        refine ⟨j, ?_, happened_after.mpr (.inr ⟨rfl, hevent⟩)⟩
        exact (htx ▸ hbegun : Begun v j t₀.id).after
    · rw [if_neg htx] at hr ⊢
      exact (h.owned t₀ ht₀ r hr).imp fun i hx => ⟨hx.1.after, hx.2.after⟩

/-- The rows of a transaction become visible. -/
theorem commits (h : Accounted init v) {tx : Nat} (hbegun : Begun v j tx)
    (hevent : isCommit ⟨.inTx tx .commit, (handleDb env (.inTx tx .commit) v.state).1⟩ = true)
    (hmessages : (v.after (handleDb env) j (.inTx tx .commit)).state.messages = v.state.messages ++ v.state.own tx)
    (hopened : (v.after (handleDb env) j (.inTx tx .commit)).state.opened = v.state.close tx)
    (hnext : (v.after (handleDb env) j (.inTx tx .commit)).state.nextTx = v.state.nextTx)
    (hlast : (v.after (handleDb env) j (.inTx tx .commit)).state.lastRowId = v.state.lastRowId) :
    Accounted init (v.after (handleDb env) j (.inTx tx .commit)) := by
  have hb : ∀ i tx', Begun (v.after (handleDb env) j (.inTx tx .commit)) i tx' → Begun v i tx' :=
    fun i tx' hx => (happened_after.mp hx).elim id fun hx => by cases hx.2
  have hi : ∀ i r, Inserted (v.after (handleDb env) j (.inTx tx .commit)) i r → Inserted v i r :=
    fun i r hx => (happened_after.mp hx).elim id fun hx => by cases hx.2
  have hsub : (v.after (handleDb env) j (.inTx tx .commit)).state.opened.Sublist v.state.opened := by
    rw [hopened]
    exact List.filter_sublist
  have hrows : (v.after (handleDb env) j (.inTx tx .commit)).state.rows.Perm v.state.rows := by
    simp only [Db.rows, hmessages, List.append_assoc]
    refine List.Perm.append_left _ ?_
    rw [Db.pending, hopened]
    by_cases htx : ∃ t ∈ v.state.opened, t.id = tx
    · obtain ⟨t, ht, rfl⟩ := htx
      rw [Db.own_eq h.ids ht]
      exact (Db.pending_perm h.ids ht).symm
    · have hown : v.state.own tx = [] := by
        have hnil : (v.state.opened.filter fun t => t.id = tx) = [] :=
          List.filter_eq_nil_iff.mpr fun t ht heq => htx ⟨t, ht, by simpa using heq⟩
        rw [Db.own, hnil, List.flatMap_nil]
      have hclose : v.state.close tx = v.state.opened :=
        List.filter_eq_self.mpr fun t ht => by simpa using fun heq => htx ⟨t, ht, heq⟩
      rw [hown, hclose, List.nil_append, Db.pending]
  exact {
    unique := (hrows.map _).nodup_iff.mpr h.unique
    ids := h.ids.sublist (hsub.map _)
    opened_lt := fun t ht => hnext ▸ h.opened_lt t (hsub.subset ht)
    begun_lt := fun i tx' hx => hnext ▸ h.begun_lt i tx' (hb i tx' hx)
    begun_once := fun i k tx' hx hy => h.begun_once i k tx' (hb i tx' hx) (hb k tx' hy)
    lastRowId_le := hlast ▸ h.lastRowId_le
    inserted_id := fun i r hx => hlast ▸ h.inserted_id i r (hi i r hx)
    inserted_once := fun i k r hx hy => h.inserted_once i k r (hi i r hx) (hi k r hy)
    owned := fun t ht r hr => (h.owned t (hsub.subset ht) r hr).imp fun i hx => ⟨hx.1.after, hx.2.after⟩
    stored := fun r hr => by
      rw [hmessages] at hr
      rcases List.mem_append.mp hr with hr | hr
      · exact (h.stored r hr).imp_right fun hx => hx.imp fun i hx => ⟨hx.1.after, hx.2.after⟩
      · obtain ⟨t, ht, hr⟩ := List.mem_flatMap.mp hr
        obtain ⟨ht, htx⟩ := List.mem_filter.mp ht
        obtain ⟨i, hbi, hii⟩ := h.owned t ht r hr
        have hij : i = j := h.begun_once i j t.id hbi (by simpa using of_decide_eq_true htx ▸ hbegun)
        exact .inr ⟨i, hii.after, happened_after.mpr (.inr ⟨hij.symm, hevent⟩)⟩ }

/-- Every turn of the threads keeps the database in order. -/
theorem turn (h : Accounted init v) (hq : OfAppends v j q) : Accounted init (v.after (handleDb env) j q) := by
  cases (OfAppends.turn hq : Turn env v.state q) with
  | shrinks hbegun hinserted hcommit hmessages hremoved hopened hkeeps hnext hlast =>
    exact h.shrink hbegun hinserted hmessages hopened hnext hlast
  | begins hq hevent hmessages hopened hnext hlast =>
    subst hq
    exact h.begins hevent hmessages hopened hnext hlast
  | inserts heq hevent hid hkey hmessages hopened hnext hlast =>
    subst heq
    cases hq with
    | inTx hb => exact h.inserts hb hevent hid hkey hmessages hopened hnext hlast
  | commits heq hevent hmessages hopened hnext hlast =>
    subst heq
    cases hq with
    | inTx hb => exact h.commits hb hevent hmessages hopened hnext hlast

end Accounted

end AgentVerse
