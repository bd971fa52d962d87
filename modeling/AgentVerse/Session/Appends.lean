import AgentVerse.Session.Accounts

/-!
# Concurrent appends

Any number of appends, cleanups and deletions of messages, in any interleaving of their statements. The unique index
turns every race for a sequence number into a rollback: the numbers of a session stay distinct, the rows of a
successful append have consecutive ones, and a failed append leaves nothing (`appends_atomic`).
-/

namespace AgentVerse

open Effects

variable {ι : Type} {env : Env} {init : Store} {v : DbView ι} {i j : ι} {q : DbRequest}

/-! ### What a thread holds -/

/-- Thread `i` has an open transaction with the rows `rows`. -/
structure Holding (i : ι) (tx : Nat) (rows : List MessageRow) (v : DbView ι) : Prop where
  opened : ∃ t ∈ v.state.opened, t.id = tx ∧ t.rows = rows
  begun : Begun v i tx
  uncommitted : ¬ Committed v i
  inserted : ∀ row ∈ rows, Inserted v i row

theorem uncommitted_stable (i : ι) : (appending init).Stable (handleDb env) i fun v => ¬ Committed v i :=
  fun _ _ _ hj _ _ _ hK hc => hK ((happened_other hj).mp hc)

theorem begun_stable (i : ι) (tx : Nat) : (appending init).Stable (handleDb env) i fun v => Begun v i tx :=
  fun _ _ _ _ _ _ _ hK => hK.after

/-- The others leave the transaction of a thread alone. -/
theorem holding_stable (i : ι) (tx : Nat) (rows : List MessageRow) :
    (appending init).Stable (handleDb env) i (Holding i tx rows) := by
  intro v j q hj hI _ hG hK
  have hmine : ¬ Begun v j tx := fun hb => hj (hI.begun_once j i tx hb hK.begun)
  obtain ⟨t, ht, rfl, rfl⟩ := hK.opened
  have hopened : t ∈ (v.after (handleDb env) j q).state.opened := by
    cases (OfAppends.turn hG : Turn env v.state q) with
    | shrinks _ _ _ _ _ _ hkeeps _ _ =>
      refine hkeeps t ht ?_
      rintro rfl
      cases hG with
      | rollback hb => exact hmine hb
    | begins _ _ _ hopened _ _ =>
      rw [View.after_state, hopened]
      exact List.mem_append_left _ ht
    | @inserts tx row st hq _ _ _ _ hopened _ _ =>
      subst hq
      have hne : t.id ≠ tx := by
        rintro rfl
        cases hG with
        | inTx hb => exact hmine hb
      rw [View.after_state, hopened]
      exact List.mem_map.mpr ⟨t, ht, if_neg hne⟩
    | @commits tx hq _ _ hopened _ _ =>
      subst hq
      have hne : t.id ≠ tx := by
        rintro rfl
        cases hG with
        | inTx hb => exact hmine hb
      rw [View.after_state, hopened]
      exact List.mem_filter.mpr ⟨ht, by simpa using hne⟩
  exact ⟨⟨t, hopened, rfl, rfl⟩, hK.begun.after, fun hc => hK.uncommitted ((happened_other hj).mp hc),
    fun row hrow => (hK.inserted row hrow).after⟩

/-- A stored row stays until a cleanup or a deletion removes it. -/
theorem Kept.turn {row : MessageRow} (hrow : Kept v row) (hins : Inserted v i row) (hq : OfAppends v j q) :
    Kept (v.after (handleDb env) j q) row := by
  rcases hrow with hrow | hrow
  · by_cases hafter : row ∈ (v.after (handleDb env) j q).state.messages
    · exact .inl hafter
    · refine .inr ?_
      obtain ⟨y, hy, -, hyrow⟩ := hins
      cases (OfAppends.turn hq : Turn env v.state q) with
      | shrinks _ _ _ _ hremoved _ _ _ _ =>
        exact ⟨v.trace, _, [], rfl, hremoved row hrow hafter, y, hy, hyrow⟩
      | begins _ _ hmessages _ _ _ => exact absurd (by rw [View.after_state, hmessages]; exact hrow) hafter
      | inserts _ _ _ _ hmessages _ _ _ => exact absurd (by rw [View.after_state, hmessages]; exact hrow) hafter
      | commits _ _ hmessages _ _ _ =>
        exact absurd (by rw [View.after_state, hmessages]; exact List.mem_append_left _ hrow) hafter
  · exact .inr hrow.after

theorem kept_stable (i : ι) (row : MessageRow) :
    (appending init).Stable (handleDb env) i fun v => Inserted v i row ∧ Kept v row :=
  fun _ _ _ _ _ _ hG hK => ⟨hK.1.after, hK.2.turn hK.1 hG⟩

/-! ### The statements of a thread -/

/-- A statement of an open transaction: on success the thread knows `E`, otherwise nothing is committed. -/
theorem inTx_safe {tx : Nat} (st : TxStatement) {rows : List MessageRow} {E : st.Result → DbView ι → Prop}
    (hv : Holding i tx rows v) (hstable : ∀ a, (appending init).Stable (handleDb env) i (E a))
    (hok : ∀ v' a, Accounted init v' → Holding i tx rows v' →
      (handleDb env (.inTx tx st) v'.state).1 = .ok a → E a (v'.after (handleDb env) i (.inTx tx st))) :
    (appending init).Safe (handleDb env) i
      (fun r v => match r with
        | .ok a => E a v
        | .error _ => ¬ Committed v i) (SessionMemory.inTx tx st) v := by
  refine ⟨_, holding_stable i tx rows, hv, fun v' hI hK _ => ?_⟩
  have hG : OfAppends v' i (.inTx tx st) := .inTx hK.begun st
  refine ⟨hG, hI.turn hG, ?_⟩
  cases hr : (handleDb env (.inTx tx st) v'.state).1 with
  | ok a => exact Discipline.Safe.ret (hstable a) (hok v' a hI hK hr)
  | error e =>
    have hfree : ¬ Committed (v'.after (handleDb env) i (.inTx tx st)) i := by
      intro hc
      rcases happened_after.mp hc with hc | ⟨-, hc⟩
      · exact hK.uncommitted hc
      · rw [hr] at hc
        cases st <;> cases hc
    refine ⟨_, (begun_stable i tx).and (uncommitted_stable i), ⟨hK.begun.after, hfree⟩, fun v'' hI'' hK'' _ => ?_⟩
    have hG'' : OfAppends v'' i (.rollback tx) := .rollback hK''.1
    refine ⟨hG'', hI''.turn hG'', ?_⟩
    refine Discipline.Safe.fail (uncommitted_stable i) ?_
    intro hc
    rcases happened_after.mp hc with hc | ⟨-, hc⟩
    · exact hK''.2 hc
    · cases hc

/-- The columns of the rows that an append of `ms` inserts from number `seq` on. -/
def numbered (sid : SessionId) (seq : Int) : List Message → List (SessionId × Message × Int)
  | [] => []
  | m :: ms => (sid, m, seq) :: numbered sid (seq + 1) ms

def MessageRow.columns (row : MessageRow) : SessionId × Message × Int := (row.sessionId, row.message, row.sequenceNum)

theorem insert_ok {db : Db} {tx : Nat} {sid : SessionId} {m : Message} {seq now : Int} {row : MessageRow}
    (h : (handleDb env (.inTx tx (.insertMessage sid m seq now)) db).1 = .ok row) :
    row.columns = (sid, m, seq) ∧
      (handleDb env (.inTx tx (.insertMessage sid m seq now)) db).2.opened = db.insert tx row := by
  simp only [handleDb, answerDb] at h ⊢
  cases hs : env.storeError db.world.steps with
  | some e => rw [hs] at h; cases h
  | none =>
    rw [hs] at h
    simp only [TxStatement.exec] at h ⊢
    split at h
    · cases h
    · rename_i hrow
      rw [if_neg hrow]
      split at h
      · cases h
      · rename_i hdup
        rw [if_neg hdup]
        obtain rfl := Except.ok.inj h
        exact ⟨rfl, rfl⟩

/-- The insertions of a transaction. -/
theorem insertAll_safe {tx : Nat} {sid : SessionId} {now : Int} (ms : List Message) {rows : List MessageRow}
    {seq : Int} (hI : Accounted init v) (hv : Holding i tx rows v) :
    (appending init).Safe (handleDb env) i
      (fun r v => match r with
        | .ok () => ∃ new, new.map MessageRow.columns = numbered sid seq ms ∧ Holding i tx (rows ++ new) v
        | .error _ => ¬ Committed v i) (SessionMemory.insertAll tx sid now seq ms) v := by
  induction ms generalizing v rows seq with
  | nil =>
    refine Discipline.Safe.ret ?_ ⟨[], rfl, by simpa using hv⟩
    rintro v j q hj hI hC hG ⟨new, hnew, hK⟩
    exact ⟨new, hnew, holding_stable i tx _ v j q hj hI hC hG hK⟩
  | cons m ms ih =>
    refine Discipline.Safe.bind hI (inTx_safe (.insertMessage sid m seq now) hv
      (E := fun row v => row.columns = (sid, m, seq) ∧ Holding i tx (rows ++ [row]) v) ?_ ?_) ?_ ?_
    · rintro row v j q hj hI hC hG ⟨hcol, hK⟩
      exact ⟨hcol, holding_stable i tx _ v j q hj hI hC hG hK⟩
    · intro v' row hI' hK hr
      obtain ⟨hcol, hopened⟩ := insert_ok hr
      obtain ⟨t, ht, rfl, rfl⟩ := hK.opened
      refine ⟨hcol, ⟨{ t with rows := t.rows ++ [row] }, ?_, rfl, rfl⟩, hK.begun.after, ?_, ?_⟩
      · rw [View.after_state, hopened]
        exact List.mem_map.mpr ⟨t, ht, if_pos rfl⟩
      · intro hc
        rcases happened_after.mp hc with hc | ⟨-, hc⟩
        · exact hK.uncommitted hc
        · cases hc
      · intro r hmem
        rcases List.mem_append.mp hmem with hmem | hmem
        · exact (hK.inserted r hmem).after
        · rw [List.mem_singleton.mp hmem]
          exact happened_after.mpr (.inr ⟨rfl, by rw [hr]; rfl⟩)
    · rintro row v' hI' ⟨hcol, hK⟩
      refine Discipline.Safe.imp ?_ (ih hI' hK)
      rintro (e | ⟨⟩) v'' hE
      · exact hE
      · obtain ⟨new, hnew, hK'⟩ := hE
        exact ⟨row :: new, by rw [List.map_cons, hcol, hnew]; rfl, by simpa using hK'⟩
    · intro e v' _ hc
      exact Discipline.Safe.fail (uncommitted_stable i) hc

/-! ### The calls -/

/-- What an append leaves behind. -/
def Appended (sid : SessionId) (ms : List Message) (i : ι) : Except SessionMemoryError Unit → DbView ι → Prop
  | .ok (), v => ∃ (seq : Int) (rows : List MessageRow), rows.map MessageRow.columns = numbered sid seq ms ∧
      ∀ row ∈ rows, Inserted v i row ∧ Kept v row
  | .error _, v => ¬ Committed v i

theorem begin_ok {db : Db} {tx : Nat} (h : (handleDb env .begin db).1 = .ok tx) :
    (handleDb env .begin db).2.opened = db.opened ++ [⟨tx, []⟩] := by
  simp only [handleDb, answerDb] at h ⊢
  cases hs : env.storeError db.world.steps with
  | some e => rw [hs] at h; cases h
  | none =>
    rw [hs] at h
    obtain rfl := Except.ok.inj h
    rfl

theorem selectNext_ok {db : Db} {tx : Nat} {sid : SessionId} {next : Int}
    (h : (handleDb env (.inTx tx (.selectNext sid)) db).1 = .ok next) :
    (handleDb env (.inTx tx (.selectNext sid)) db).2.opened = db.opened := by
  simp only [handleDb, answerDb] at h ⊢
  cases hs : env.storeError db.world.steps with
  | some e => rw [hs] at h; cases h
  | none => rfl

theorem commit_ok {db : Db} {tx : Nat} {u : Unit} (h : (handleDb env (.inTx tx .commit) db).1 = .ok u) :
    (handleDb env (.inTx tx .commit) db).2.messages = db.messages ++ db.own tx := by
  simp only [handleDb, answerDb] at h ⊢
  cases hs : env.storeError db.world.steps with
  | some e => rw [hs] at h; cases h
  | none => rfl

/-- The transaction of an append. -/
theorem appendTx_safe {sid : SessionId} {now : Int} {ms : List Message} (hv : ¬ Committed v i) :
    (appending init).Safe (handleDb env) i (Appended sid ms i) (SessionMemory.appendTx sid now ms) v := by
  -- From BEGIN on the thread holds its transaction, with the rows that it has inserted so far.
  refine ⟨_, uncommitted_stable i, hv, fun v' hI' hK _ => ?_⟩
  have hG : OfAppends v' i .begin := .begin
  have hfree : ¬ Committed (v'.after (handleDb env) i .begin) i := by
    intro hc
    rcases happened_after.mp hc with hc | ⟨-, hc⟩
    · exact hK hc
    · cases hc
  refine ⟨hG, hI'.turn hG, ?_⟩
  cases hr : (handleDb env .begin v'.state).1 with
  | error e => exact Discipline.Safe.fail (uncommitted_stable i) hfree
  | ok tx =>
    have hopen : Holding i tx [] (v'.after (handleDb env) i .begin) := by
      refine ⟨⟨⟨tx, []⟩, ?_, rfl, rfl⟩, happened_after.mpr (.inr ⟨rfl, by rw [hr]; rfl⟩), hfree, by simp⟩
      rw [View.after_state, begin_ok hr]
      simp
    have hselect : ∀ v'' next, Accounted init v'' → Holding i tx [] v'' →
        (handleDb env (.inTx tx (.selectNext sid)) v''.state).1 = .ok next →
        Holding i tx [] (v''.after (handleDb env) i (.inTx tx (.selectNext sid))) := by
      intro v'' next _ hK'' hnext
      refine ⟨?_, hK''.begun.after, ?_, fun row hrow => (hK''.inserted row hrow).after⟩
      · rw [View.after_state, selectNext_ok hnext]
        exact hK''.opened
      · intro hc
        rcases happened_after.mp hc with hc | ⟨-, hc⟩
        · exact hK''.uncommitted hc
        · cases hc
    refine Discipline.Safe.bind (hI'.turn hG) (inTx_safe (.selectNext sid) hopen
      (E := fun _ => Holding i tx []) (fun _ => holding_stable i tx []) hselect) ?_ ?_
    · intro next v'' hI'' hK''
      refine Discipline.Safe.bind hI'' (insertAll_safe ms hI'' hK'') ?_ ?_
      · rintro ⟨⟩ v₃ hI₃ ⟨rows, hrows, hK₃⟩
        refine (inTx_safe .commit hK₃ (E := fun _ v => ∀ row ∈ rows, Inserted v i row ∧ Kept v row)
          ?_ ?_).imp ?_
        · intro _ v₄ j q hj hI₄ hC hG₄ hkept row hrow
          exact kept_stable i row v₄ j q hj hI₄ hC hG₄ (hkept row hrow)
        · intro v₄ u hI₄ hK₄ hu row hrow
          obtain ⟨t, ht, rfl, hrt⟩ := hK₄.opened
          refine ⟨(hK₄.inserted row (by simpa using hrow)).after, .inl ?_⟩
          rw [View.after_state, commit_ok hu, Db.own_eq hI₄.ids ht, hrt]
          exact List.mem_append_right _ (by simpa using hrow)
        · rintro (e | ⟨⟩) v₄ hE
          · exact hE
          · exact ⟨next, rows, by simpa using hrows, hE⟩
      · intro e v₃ _ hc
        exact Discipline.Safe.fail (uncommitted_stable i) hc
    · intro e v'' _ hc
      exact Discipline.Safe.fail (uncommitted_stable i) hc

/-- The requests of the calls that stand outside any transaction. -/
def OutsideTx : Request → Prop
  | .sql (.deleteExpired ..) | .sql (.deleteSession _) => True
  | q => q.Idle

theorem OutsideTx.ofAppends {q : Request} (hq : OutsideTx q) : OfAppends v i (.auto q) := by
  cases q with
  | sql st => cases st <;> first | exact .expire _ _ _ | exact .delete _ | exact .idle hq
  | _ => exact .idle hq

/-- Nothing is committed outside the transactions. -/
theorem autocommit_safe {ε α : Type} {p : M ε α} (hp : p.Only OutsideTx) (hI : Accounted init v)
    (hv : ¬ Committed v i) :
    (appending init).Safe (handleDb env) i (fun _ v => ¬ Committed v i) (autocommit p) v := by
  induction p generalizing v with
  | ret a => exact Discipline.Safe.ret (uncommitted_stable i) hv
  | fail e => exact Discipline.Safe.fail (uncommitted_stable i) hv
  | ask q k ih =>
    refine ⟨_, uncommitted_stable i, hv, fun v' hI' hK _ => ?_⟩
    have hG : OfAppends v' i (.auto q) := OutsideTx.ofAppends hp.1
    refine ⟨hG, hI'.turn hG, ih _ (hp.2 _ trivial) (hI'.turn hG) ?_⟩
    intro hc
    rcases happened_after.mp hc with hc | ⟨-, hc⟩
    · exact hK hc
    · cases hc

theorem appendSteps_safe {sid : SessionId} {ms : List Message} (hI : Accounted init v) (hv : ¬ Committed v i) :
    (appending init).Safe (handleDb env) i (Appended sid ms i) (SessionMemory.appendSteps sid ms) v := by
  refine Discipline.Safe.bind hI (autocommit_safe (query_only trivial) hI hv) ?_ ?_
  · intro session v' hI' hK'
    cases session with
    | none => exact Discipline.Safe.fail (uncommitted_stable i) hK'
    | some _ =>
      refine Discipline.Safe.bind hI' (autocommit_safe (nowTimestamp_only trivial) hI' hK') ?_ ?_
      · intro now v'' _ hK''
        exact appendTx_safe hK''
      · intro e v'' _ hK''
        exact Discipline.Safe.fail (uncommitted_stable i) hK''
  · intro e v' _ hK'
    exact Discipline.Safe.fail (uncommitted_stable i) hK'

namespace MessageCall

/-- The messages that a call appends, and where. -/
def appends : MessageCall → Option (SessionId × List Message)
  | appendTurn sid userMessage assistantMessage => some (sid, [userMessage, assistantMessage])
  | appendMessage sid message => some (sid, [message])
  | _ => none

/-- What a call leaves behind. -/
def Leaves (call : MessageCall) (i : ι) (r : Except SessionMemoryError Unit) (v : DbView ι) : Prop :=
  match call.appends with
  | some (sid, ms) => Appended sid ms i r v
  | none => ¬ Committed v i

theorem safe (call : MessageCall) (hI : Accounted init v) (hv : ¬ Committed v i) :
    (appending init).Safe (handleDb env) i (call.Leaves i) call.program v := by
  cases call with
  | appendTurn sid m m' => exact appendSteps_safe hI hv
  | appendMessage sid m => exact appendSteps_safe hI hv
  | cleanupExpiredMessages sid cutoff wm =>
    have honly : (SessionMemory.cleanupExpiredMessages sid cutoff wm).Only OutsideTx := by
      unfold SessionMemory.cleanupExpiredMessages
      split
      · trivial
      · refine Prog.Only.bind (query_only trivial) fun storedWm => ?_
        dsimp only
        split
        · trivial
        · exact Prog.Only.bind (query_only trivial) fun _ => trivial
    refine Discipline.Safe.bind hI (autocommit_safe honly hI hv) ?_ ?_
    · intro n v' _ hK
      exact Discipline.Safe.ret (uncommitted_stable i) hK
    · intro e v' _ hK
      exact Discipline.Safe.fail (uncommitted_stable i) hK
  | deleteSession sid => exact autocommit_safe (query_only trivial) hI hv

end MessageCall

/-! ### Runs -/

/-- The rows of an append have consecutive numbers. -/
theorem consecutive_of_columns {sid : SessionId} {seq : Int} {ms : List Message} {rows : List MessageRow}
    (h : rows.map MessageRow.columns = numbered sid seq ms) :
    Consecutive (·.sequenceNum) seq rows ∧ ∀ row ∈ rows, row.sessionId = sid := by
  induction ms generalizing rows seq with
  | nil =>
    obtain rfl := List.map_eq_nil_iff.mp h
    exact ⟨trivial, by simp⟩
  | cons m ms ih =>
    obtain ⟨row, rows, rfl, hrow, hrows⟩ := List.map_eq_cons_iff.mp h
    obtain ⟨hnum, hsid⟩ := ih hrows
    simp only [MessageRow.columns, Prod.mk.injEq] at hrow
    exact ⟨⟨hrow.2.2, hnum⟩, by simpa using ⟨hrow.1, hsid⟩⟩

/-- The unique index numbers the rows of a session. -/
theorem sequenceNums_nodup {s : Store} (h : (s.messages.map MessageRow.key).Nodup) (sid : SessionId) :
    ((s.rows sid).map (·.sequenceNum)).Nodup := by
  have hrows : ((s.rows sid).map MessageRow.key).Nodup := h.sublist (List.filter_sublist.map _)
  have hkeys : (s.rows sid).map MessageRow.key = ((s.rows sid).map (·.sequenceNum)).map (Prod.mk sid) := by
    rw [List.map_map]
    refine List.map_congr_left fun row hrow => ?_
    have hsid : row.sessionId = sid := by simpa using (List.mem_filter.mp hrow).2
    simp [MessageRow.key, hsid]
  rw [hkeys] at hrows
  exact hrows.of_map

/-- `ORDER BY sequence_num` sorts strictly. -/
theorem bySequence_sorted {l : List MessageRow} (h : (l.map (·.sequenceNum)).Nodup) :
    (Store.bySequence l).Pairwise fun x y => x.sequenceNum < y.sequenceNum := by
  have hperm : (Store.bySequence l).Perm l := List.perm_insertionSort _ l
  have hsorted : (Store.bySequence l).Pairwise fun x y => x.sequenceNum ≤ y.sequenceNum :=
    have : Std.Total fun x y : MessageRow => x.sequenceNum ≤ y.sequenceNum := ⟨fun x y => le_total _ _⟩
    have : IsTrans MessageRow fun x y => x.sequenceNum ≤ y.sequenceNum := ⟨fun _ _ _ => le_trans⟩
    List.pairwise_insertionSort _ l
  have hne : (Store.bySequence l).Pairwise fun x y => x.sequenceNum ≠ y.sequenceNum :=
    List.pairwise_map.mp ((hperm.map _).nodup_iff.mpr h)
  exact (hsorted.and hne).imp fun hxy => lt_of_le_of_ne hxy.1 hxy.2

/-- What a run of calls leaves in the tables: distinct numbers; the messages of a successful append, next to each
other in their order, until a cleanup or a deletion removes one of them; and nothing of a failed append. -/
structure AppendedAtomically (calls : ι → MessageCall) (P : Pool ι DbReply Db SessionMemoryError Unit) : Prop where
  distinct : ∀ sid, ((P.view.state.world.store.rows sid).map (·.sequenceNum)).Nodup
  succeeded : ∀ i sid ms, (calls i).appends = some (sid, ms) → P.threads i = .ret () →
    ∃ (seq : Int) (rows : List MessageRow), rows.map MessageRow.columns = numbered sid seq ms ∧
      (∀ row ∈ rows, Inserted P.view i row ∧ Kept P.view row) ∧
      ((∀ row ∈ rows, row ∈ P.view.state.messages) →
        rows <:+: Store.bySequence (P.view.state.world.store.rows sid))
  failed : ∀ i e, P.threads i = .fail e → ∀ row ∈ P.view.state.messages, ¬ Inserted P.view i row

/-- In every interleaving of appends, cleanups and deletions, appends are atomic and in order. -/
theorem appends_atomic [DecidableEq ι] (env : Env) (calls : ι → MessageCall) (w : World)
    (hkeys : (w.store.messages.map MessageRow.key).Nodup)
    (hids : ∀ row ∈ w.store.messages, row.id ≤ w.store.lastRowId) (schedule : List ι) :
    AppendedAtomically calls ((MessageCall.pool calls w).run (handleDb env) schedule) := by
  have hstart : Accounted w.store (MessageCall.pool calls w).view := {
    unique := by simpa [MessageCall.pool, Db.rows, Db.messages, Db.pending] using hkeys
    ids := List.nodup_nil
    opened_lt := by simp [MessageCall.pool]
    begun_lt := by simp [MessageCall.pool, Begun, Happened]
    begun_once := by simp [MessageCall.pool, Begun, Happened]
    lastRowId_le := le_rfl
    inserted_id := by simp [MessageCall.pool, Inserted, Happened]
    inserted_once := by simp [MessageCall.pool, Inserted, Happened]
    owned := by simp [MessageCall.pool]
    stored := fun row hrow => .inl hrow }
  have hsafe : ∀ i, (appending w.store).Safe (handleDb env) i ((calls i).Leaves i)
      ((MessageCall.pool calls w).threads i) (MessageCall.pool calls w).view :=
    fun i => (calls i).safe hstart (by simp [MessageCall.pool, Committed, Happened])
  have hC : (MessageCall.pool calls w).Conforms (handleDb env) (appending w.store).allowed schedule :=
    Pool.conforms_true _ (fun _ _ _ => trivial) schedule
  have hI := (Pool.run_safe hstart hsafe hC).1
  have hpost := fun i => Pool.run_post hstart hsafe hC i
  generalize (MessageCall.pool calls w).run (handleDb env) schedule = P at hI hpost
  have hdistinct : ∀ sid, ((P.view.state.world.store.rows sid).map (·.sequenceNum)).Nodup :=
    sequenceNums_nodup (hI.unique.sublist ((List.sublist_append_left _ _).map _))
  refine ⟨hdistinct, fun i sid ms hms hret => ?_, fun i e hfail row hrow hins => ?_⟩
  · have hleaves := (hpost i).1 () hret
    simp only [MessageCall.Leaves, hms] at hleaves
    obtain ⟨seq, rows, hcols, hrows⟩ := hleaves
    obtain ⟨hnum, hsid⟩ := consecutive_of_columns hcols
    refine ⟨seq, rows, hcols, hrows, fun hstored => ?_⟩
    refine hnum.isInfix (bySequence_sorted (hdistinct sid)) fun row hrow => ?_
    refine (List.mem_insertionSort _).mpr (List.mem_filter.mpr ⟨hstored row hrow, ?_⟩)
    simpa using hsid row hrow
  · have hfree : ¬ Committed P.view i := by
      have hleaves := (hpost i).2 e hfail
      unfold MessageCall.Leaves at hleaves
      split at hleaves <;> exact hleaves
    rcases hI.stored row hrow with hinit | ⟨j, hj, hc⟩
    · have hid := (hI.inserted_id i row hins).1
      have hle := hids row hinit
      omega
    · exact hfree (hI.inserted_once i j row hins hj ▸ hc)

/-- One session with one message. -/
def World.oneMessage : World :=
  { World.fresh ⟨[]⟩ 0 with
    store := ⟨[SessionMemory.newRow 0 "u" 0 none], [⟨1, 0, .ofText .user "hello", 1, 0⟩], 1⟩
    nextUuid := 1 }

/-- Two turns appended to one session at the same time. -/
def twoTurns : Bool → MessageCall
  | false => .appendTurn 0 (.ofText .user "a") (.ofText .assistant "b")
  | true => .appendTurn 0 (.ofText .user "c") (.ofText .assistant "d")

/-- Both transactions compute number 2; the second one to use it is rolled back. -/
theorem appends_atomic_race : AppendedAtomically twoTurns
    ((MessageCall.pool twoTurns .oneMessage).run (handleDb (.steady fun _ _ => ⟨[], .zero⟩))
      [false, false, false, false, true, true, true, true, false, true, true, false, false]) :=
  appends_atomic _ twoTurns .oneMessage (by decide) (by decide) _

example : ((MessageCall.pool twoTurns .oneMessage).run (handleDb (.steady fun _ _ => ⟨[], .zero⟩))
    [false, false, false, false, true, true, true, true, false, true, true, false, false]).view.state.messages.map
      MessageRow.columns =
    [(0, .ofText .user "hello", 1), (0, .ofText .user "a", 2), (0, .ofText .assistant "b", 3)] := by
  decide +kernel

end AgentVerse
