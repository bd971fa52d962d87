import AgentVerse.Effects.Pool
import AgentVerse.Session.Ledger
import AgentVerse.Workers

/-!
# Consolidation before deletion

Appends, ticks of the consolidation worker and cleanups share the message rows and the watermark of a session,
statement by statement. The watermark is meant to separate the rows that were written to long-term memory from those
that were not (`Protected.covered`); this is kept by every operation except an append to a session whose rows at the
watermark are gone: its sequence numbers start again below the watermark.
-/

namespace AgentVerse

open Effects

variable {ι : Type}

/-! ### The operations -/

inductive MessageOp where
  | appendMessage (sid : SessionId) (message : Message)
  | appendTurn (sid : SessionId) (userMessage assistantMessage : Message)
  /-- `ConsolidationWorker::tick`. -/
  | consolidate (cfg : ConsolidationConfig)
  /-- The part of `CleanupWorker::tick` that is about one session. -/
  | cleanup (sid : SessionId) (cutoff : Int)

def MessageOp.program : MessageOp → M WorkerError Unit
  | .appendMessage sid m => (SessionMemory.appendMessage sid m).mapErr .session
  | .appendTurn sid m m' => (SessionMemory.appendTurn sid m m').mapErr .session
  | .consolidate cfg => ConsolidationWorker.tick cfg
  | .cleanup sid cutoff => do
    let _ ← CleanupWorker.cleanupSession sid cutoff
    return ()

/-! ### What is claimed of a trace -/

/-- A successful write of a message row to long-term memory. -/
def writesRow (row : MessageRow) : Event → Bool
  | ⟨.longtermWrite _ content source, .ok _⟩ => content = row.message.asText && source = some row.id
  | _ => false

def Written (t : List (ι × Event)) (row : MessageRow) : Prop := t.any (fun x => writesRow row x.2) = true

instance (t : List (ι × Event)) (row : MessageRow) : Decidable (Written t row) := inferInstanceAs (Decidable (_ = _))

/-- The rows of a session that a request deletes. -/
def deletedRows (sid : SessionId) : Event → List MessageRow
  | ⟨.sql (.deleteExpired s _ _), .ok rows⟩ => if s = sid then rows else []
  | _ => []

/-- Every deleted row of a session was written to long-term memory before. -/
def ConsolidatedFirst (sid : SessionId) (t : List (ι × Event)) : Prop :=
  ∀ n x, t[n]? = some x → ∀ row ∈ deletedRows sid x.2, Written (t.take n) row

theorem Written.append {t : List (ι × Event)} {row : MessageRow} (h : Written t row) (t' : List (ι × Event)) :
    Written (t ++ t') row := by
  rw [Written, List.any_append, h]
  rfl

theorem ConsolidatedFirst.concat {sid : SessionId} {t : List (ι × Event)} {x : ι × Event}
    (h : ConsolidatedFirst sid t) (hx : ∀ row ∈ deletedRows sid x.2, Written t row) :
    ConsolidatedFirst sid (t ++ [x]) := by
  intro n y hy row hrow
  rcases Nat.lt_trichotomy n t.length with hn | rfl | hn
  · rw [List.getElem?_append_left hn] at hy
    rw [List.take_append_of_le_length (Nat.le_of_lt hn)]
    exact h n y hy row hrow
  · rw [List.getElem?_concat_length, Option.some.injEq] at hy
    rw [List.take_left']
    · exact hx row (hy ▸ hrow)
    · rfl
  · rw [List.getElem?_eq_none (by simp; omega)] at hy
    cases hy

/-! ### The discipline -/

section Discipline

variable (sid : SessionId)

/-- What the watermark of a session stands for. -/
structure Protected (v : View ι Reply World) : Prop where
  numbered : v.state.store.Numbered sid
  covered : ∀ row ∈ v.state.store.rows sid, row.sequenceNum ≤ v.state.store.watermark sid → Written v.trace row
  consolidated : ConsolidatedFirst sid v.trace

/-- An append to the session comes when its watermark is not above its rows. -/
def AppendsAbove (v : View ι Reply World) (_ : ι) : Request → Prop
  | .sql (.appendMessages s _ _) => s = sid → v.state.store.watermark sid ≤ v.state.store.maxSequence sid
  | _ => True

instance (v : View ι Reply World) (i : ι) (q : Request) : Decidable (AppendsAbove sid v i q) := by
  unfold AppendsAbove
  split <;> infer_instance

/-- What the operations ask: nothing about the session, an append, a move of the watermark, or the deletion of rows
below the watermark. -/
inductive OfMessages (v : View ι Reply World) (i : ι) : Request → Prop where
  | quiet {q : Request} (h : q.Quiet sid) : OfMessages v i q
  | append (ms : List Message) (now : Int) : OfMessages v i (.sql (.appendMessages sid ms now))
  | advance (wm : Int) : OfMessages v i (.sql (.updateWatermark sid wm))
  | delete (cutoff wm : Int) (h : wm ≤ v.state.store.watermark sid) :
      OfMessages v i (.sql (.deleteExpired sid cutoff wm))

def terms : Discipline ι Reply World := ⟨Protected sid, AppendsAbove sid, OfMessages sid⟩

end Discipline

variable {env : Env} {sid : SessionId} {v : View ι Reply World} {i : ι} {q : Request}

/-- Every turn of the operations moves the session on. -/
theorem OfMessages.advances (hC : AppendsAbove sid v i q) (hq : OfMessages sid v i q) :
    v.state.store.Advances sid (v.after (handle env) i q).state.store := by
  cases hq with
  | quiet h => exact .of_eq (h.rows v.state) (le_of_eq (h.watermark v.state).symm)
  | append ms now =>
    obtain ⟨new, hrows, hnew, -⟩ := append_rows env sid ms now v.state
    refine ⟨le_of_eq (append_watermark env sid ms now v.state).symm, fun m hm => ?_, fun m hm => .inl ?_⟩
    · rw [View.after_state, hrows] at hm
      exact (List.mem_append.mp hm).imp_right fun hm => ⟨hC rfl, hnew m hm⟩
    · rw [View.after_state, hrows]
      exact List.mem_append_left _ hm
  | advance wm => exact .of_eq (advance_rows env sid wm v.state) (advance_watermark env sid wm v.state).1
  | delete cutoff wm h =>
    have hwm := delete_watermark env sid cutoff wm v.state
    rcases delete_rows env sid cutoff wm v.state with hrows | hrows
    · exact .of_eq hrows (le_of_eq hwm.symm)
    · refine ⟨le_of_eq hwm.symm, fun m hm => .inl ?_, fun m hm => ?_⟩
      · rw [View.after_state, hrows] at hm
        exact List.mem_of_mem_filter hm
      · rw [View.after_state, hrows]
        cases hexp : Store.expired sid cutoff wm m with
        | false => exact .inl (List.mem_filter.mpr ⟨hm, by simp [hexp]⟩)
        | true =>
          have : m.sequenceNum ≤ wm := by simpa using (Bool.and_eq_true_iff.mp hexp).2
          exact .inr (le_trans this h)

theorem deletedRows_of_quiet (hq : q.Quiet sid) (r : Reply q) : deletedRows sid ⟨q, r⟩ = [] := by
  cases q with
  | sql st =>
    cases st with
    | deleteExpired s cutoff wm =>
      have hs : s ≠ sid := hq
      cases r <;> simp [deletedRows, hs]
    | _ => rfl
  | _ => rfl

theorem Protected.quiet (h : Protected sid v) (hq : q.Quiet sid) : Protected sid (v.after (handle env) i q) where
  numbered := by
    rw [Store.Numbered, View.after_state, hq.rows]
    exact h.numbered
  covered row hrow hle := by
    rw [View.after_state, hq.rows] at hrow
    rw [View.after_state, hq.watermark] at hle
    exact (h.covered row hrow hle).append _
  consolidated := h.consolidated.concat fun row hrow => by
    rw [deletedRows_of_quiet hq] at hrow
    cases hrow

theorem Protected.append (h : Protected sid v) (ms : List Message) (now : Int)
    (hC : v.state.store.watermark sid ≤ v.state.store.maxSequence sid) :
    Protected sid (v.after (handle env) i (.sql (.appendMessages sid ms now))) := by
  obtain ⟨new, hrows, hnew, hsorted⟩ := append_rows env sid ms now v.state
  refine ⟨?_, fun row hrow hle => ?_, h.consolidated.concat fun row hrow => by cases hrow⟩
  · rw [Store.Numbered, View.after_state, hrows]
    refine List.pairwise_append.mpr ⟨h.numbered, hsorted, fun m hm m' hm' => ?_⟩
    have := Store.sequenceNum_le_max hm
    have := hnew m' hm'
    omega
  · rw [View.after_state, hrows] at hrow
    rw [View.after_state, append_watermark] at hle
    rcases List.mem_append.mp hrow with hrow | hrow
    · exact (h.covered row hrow hle).append _
    · have := hnew row hrow
      omega

/-- The watermark may move to `wm` when all rows up to `wm` are written. -/
theorem Protected.advance (h : Protected sid v) {wm : Int}
    (hwm : ∀ row ∈ v.state.store.rows sid, row.sequenceNum ≤ wm → Written v.trace row) :
    Protected sid (v.after (handle env) i (.sql (.updateWatermark sid wm))) where
  numbered := by
    rw [Store.Numbered, View.after_state, advance_rows]
    exact h.numbered
  covered row hrow hle := by
    rw [View.after_state, advance_rows] at hrow
    have hle' := le_trans hle (advance_watermark env sid wm v.state).2
    rcases le_max_iff.mp hle' with hle | hle
    · exact (h.covered row hrow hle).append _
    · exact (hwm row hrow hle).append _
  consolidated := h.consolidated.concat fun row hrow => by cases hrow

theorem Protected.delete (h : Protected sid v) {cutoff wm : Int} (hwm : wm ≤ v.state.store.watermark sid) :
    Protected sid (v.after (handle env) i (.sql (.deleteExpired sid cutoff wm))) := by
  have hsub : (handle env (.sql (.deleteExpired sid cutoff wm)) v.state).2.store.rows sid |>.Sublist
      (v.state.store.rows sid) := by
    rcases delete_rows env sid cutoff wm v.state with hrows | hrows <;> rw [hrows]
    exact List.filter_sublist
  refine ⟨h.numbered.sublist hsub, fun row hrow hle => ?_, h.consolidated.concat fun row hrow => ?_⟩
  · rw [View.after_state, delete_watermark] at hle
    exact (h.covered row (hsub.subset hrow) hle).append _
  · cases he : env.storeError v.state.steps with
    | some e =>
      rw [handle_sql_error _ he] at hrow
      cases hrow
    | none =>
      rw [handle_sql_ok _ he] at hrow
      have hrow : row ∈ if sid = sid then (v.state.store.deleteExpired sid cutoff wm).1 else [] := hrow
      rw [if_pos rfl] at hrow
      obtain ⟨hmem, hle⟩ := Store.mem_expired hrow
      exact h.covered row hmem (le_trans hle hwm)

/-! ### Threads -/

section Threads

variable {α β : Type}

/-- A thread of which nothing is asked but to keep the discipline. -/
abbrev Keeps (env : Env) (sid : SessionId) (i : ι) (p : M WorkerError α) (v : View ι Reply World) : Prop :=
  (terms sid).Safe (handle env) i (fun _ _ => True) p v

theorem keeps_ret {a : α} : Keeps env sid i (.ret a) v := ⟨fun _ => True, Discipline.stable_true, trivial, fun _ _ _ => trivial⟩

theorem keeps_fail {e : WorkerError} : Keeps env sid i (.fail e : M WorkerError α) v :=
  ⟨fun _ => True, Discipline.stable_true, trivial, fun _ _ _ => trivial⟩

theorem keeps_bind {p : M WorkerError α} {f : α → M WorkerError β} (hv : Protected sid v) (hp : Keeps env sid i p v)
    (hf : ∀ a v', Protected sid v' → Keeps env sid i (f a) v') : Keeps env sid i (p >>= f) v :=
  Discipline.Safe.bind hv hp (fun a v' hv' _ => hf a v' hv') fun _ _ _ _ => keeps_fail

/-- A program of quiet requests and appends keeps the discipline. -/
theorem keeps_of_only {p : M WorkerError α}
    (hp : p.Only fun q => q.Quiet sid ∨ ∃ ms now, q = .sql (.appendMessages sid ms now)) :
    Keeps env sid i p v := by
  induction p generalizing v with
  | ret a => exact keeps_ret
  | fail e => exact keeps_fail
  | ask q k ih =>
    refine Discipline.Safe.ask fun v' hI hC => ?_
    rcases hp.1 with hq | ⟨ms, now, rfl⟩
    · exact ⟨.quiet hq, hI.quiet hq, ih _ (hp.2 _ trivial)⟩
    · exact ⟨.append ms now, hI.append ms now (hC rfl), ih _ (hp.2 _ trivial)⟩

/-- The rule for a database request from which the thread knows `K`. -/
theorem keeps_query {st : Statement} {g : SessionMemoryError → WorkerError} {f : st.Result → M WorkerError α}
    {K : View ι Reply World → Prop} (hK : (terms sid).Stable (handle env) i K) (hv : K v)
    (hask : ∀ v', Protected sid v' → K v' → AppendsAbove sid v' i (.sql st) →
      OfMessages sid v' i (.sql st) ∧ Protected sid (v'.after (handle env) i (.sql st)))
    (hstep : ∀ v' r, Protected sid v' → K v' → AppendsAbove sid v' i (.sql st) →
      (handle env (.sql st) v'.state).1 = .ok r → Keeps env sid i (f r) (v'.after (handle env) i (.sql st))) :
    Keeps env sid i ((query st).mapErr g >>= f) v := by
  refine ⟨K, hK, hv, fun v' hI hKv hC => ⟨(hask v' hI hKv hC).1, (hask v' hI hKv hC).2, ?_⟩⟩
  cases hr : (handle env (.sql st) v'.state).1 with
  | error e => exact keeps_fail
  | ok r => exact hstep v' r hI hKv hC hr

/-- Messages that were loaded above the watermark and are still to be written. -/
def Pending (sid : SessionId) (rest : List MessageRow) (v : View ι Reply World) : Prop :=
  ∀ x ∈ rest, (x.sequenceNum ≤ v.state.store.watermark sid ∨
      ∃ m ∈ v.state.store.rows sid, x.sequenceNum ≤ m.sequenceNum) ∧
    ∀ m ∈ v.state.store.rows sid, m.sequenceNum ≤ x.sequenceNum → Written v.trace m ∨ m ∈ rest

theorem Pending.advances {rest : List MessageRow} {v' : View ι Reply World} {x : ι × Event} (h : Pending sid rest v)
    (ha : v.state.store.Advances sid v'.state.store) (ht : v'.trace = v.trace ++ [x]) : Pending sid rest v' := by
  intro y hy
  obtain ⟨hreach, hrows⟩ := h y hy
  refine ⟨?_, fun m hm hle => ?_⟩
  · rcases hreach with hle | ⟨m, hm, hle⟩
    · exact .inl (le_trans hle ha.watermark)
    · rcases ha.gone m hm with hm | hgone
      · exact .inr ⟨m, hm, hle⟩
      · exact .inl (le_trans (le_trans hle hgone) ha.watermark)
  · rcases ha.new m hm with hold | ⟨hwm, hnew⟩
    · rw [ht]
      exact (hrows m hold hle).imp_left fun h => h.append _
    · -- A new row is numbered above everything that was loaded.
      exfalso
      rcases hreach with hle' | ⟨m', hm', hle'⟩
      · omega
      · have := Store.sequenceNum_le_max hm'
        omega

theorem pending_stable (rest : List MessageRow) : (terms sid).Stable (handle env) i (Pending sid rest) :=
  fun _ _ _ _ _ hC hG h => h.advances (OfMessages.advances hC hG) rfl

theorem watermark_stable (wm : Int) :
    (terms sid).Stable (handle env) i fun v => wm ≤ v.state.store.watermark sid :=
  fun _ _ _ _ _ hC hG h => le_trans h (OfMessages.advances hC hG).watermark

/-- What a read of the watermark of a session tells. -/
theorem watermark_of_select {w : World} {wm : Int} (h : (handle env (.sql (.selectWatermark sid)) w).1 = .ok wm) :
    wm = w.store.watermark sid := by
  cases he : env.storeError w.steps with
  | some e => rw [handle_sql_error _ he] at h; cases h
  | none =>
    rw [handle_sql_ok _ he] at h
    simp only [Statement.exec, Store.watermark] at h ⊢
    cases hr : w.store.row? sid with
    | none => rw [hr] at h; cases h
    | some row => rw [hr] at h; cases h; rfl

/-- What a read of the rows above a watermark gives. -/
theorem messages_of_select {w : World} {wm : Int} {msgs : List MessageRow} (hn : w.store.Numbered sid)
    (h : (handle env (.sql (.selectMessagesAbove sid wm)) w).1 = .ok msgs) :
    msgs = (w.store.rows sid).filter fun m => wm < m.sequenceNum := by
  cases he : env.storeError w.steps with
  | some e => rw [handle_sql_error _ he] at h; cases h
  | none =>
    rw [handle_sql_ok _ he] at h
    exact (Except.ok.inj h).symm.trans (Store.messagesAbove_eq hn wm)

theorem keeps_quiet {p : M WorkerError α} (hp : p.Only (Request.Quiet sid)) : Keeps env sid i p v :=
  keeps_of_only (Prog.Only.mono hp fun _ h => .inl h)

/-- A cleanup deletes no row above the watermark. -/
theorem cleanupSession_keeps (s : SessionId) (cutoff : Int) :
    Keeps env sid i (CleanupWorker.cleanupSession s cutoff) v := by
  have hread : ∀ {α : Type} {f : Int → M WorkerError α} {v : View ι Reply World},
      (∀ wm v', (s = sid → wm ≤ v'.state.store.watermark sid) → Keeps env sid i (f wm) v') →
      Keeps env sid i ((SessionMemory.getWatermark s).mapErr .session >>= f) v := by
    intro α f v hf
    refine keeps_query (K := fun _ => True) Discipline.stable_true trivial
      (fun v' hI _ _ => ⟨.quiet trivial, hI.quiet trivial⟩) fun v' wm hI _ _ hr => hf wm _ ?_
    rintro rfl
    rw [watermark_of_select hr]
    exact le_of_eq (Request.Quiet.watermark (q := .sql (.selectWatermark s)) trivial v'.state).symm
  unfold CleanupWorker.cleanupSession
  refine hread fun wm v₁ hwm => ?_
  unfold SessionMemory.cleanupExpiredMessages
  split
  · exact keeps_ret
  · rw [Prog.mapErr_bind]
    refine hread fun storedWm v₂ hstored => ?_
    dsimp only
    split
    · exact keeps_ret
    · rw [Prog.mapErr_bind]
      refine keeps_query (K := fun v => s = sid → storedWm ≤ v.state.store.watermark sid) ?_ hstored
        (fun v' hI hK _ => ?_) fun _ _ _ _ _ _ => keeps_ret
      · exact fun v j q hj hI hC hG hv hs => watermark_stable storedWm v j q hj hI hC hG (hv hs)
      · by_cases hs : s = sid
        · subst hs
          have hle := le_trans (min_le_right wm storedWm) (hK rfl)
          exact ⟨.delete cutoff _ hle, hI.delete hle⟩
        · exact ⟨.quiet hs, hI.quiet hs⟩

/-- The messages that a tick goes through, if they are of the session. -/
def Ready (sid s : SessionId) (rest : List MessageRow) (v : View ι Reply World) : Prop := s = sid → Pending sid rest v

theorem ready_stable (s : SessionId) (rest : List MessageRow) :
    (terms sid).Stable (handle env) i (Ready sid s rest) :=
  fun v j q hj hI hC hG h hs => pending_stable rest v j q hj hI hC hG (h hs)

theorem Ready.quiet {s : SessionId} {rest : List MessageRow} (h : Ready sid s rest v) (hq : q.Quiet sid) :
    Ready sid s rest (v.after (handle env) i q) :=
  fun hs => (h hs).advances (.of_eq (hq.rows v.state) (le_of_eq (hq.watermark v.state).symm)) rfl

/-- A tick moves the watermark behind the messages that it has written. -/
theorem consolidate_keeps (session : Session) {rest : List MessageRow}
    (hsorted : session.id = sid → rest.Pairwise fun m m' => m.sequenceNum < m'.sequenceNum) (hready : Ready sid session.id rest v) :
    Keeps env sid i (ConsolidationWorker.consolidate session rest) v := by
  induction rest generalizing v with
  | nil => exact keeps_ret
  | cons x xs ih =>
    have hxs := fun hs => List.pairwise_cons.mp (hsorted hs)
    unfold ConsolidationWorker.consolidate
    refine ⟨Ready sid session.id (x :: xs), ready_stable _ _, hready, fun v₁ hI₁ hR₁ _ =>
      ⟨.quiet trivial, hI₁.quiet trivial, ?_⟩⟩
    cases hr : (handle env (.longtermWrite session.userId x.message.asText (some x.id)) v₁.state).1 with
    | error e => exact keeps_fail
    | ok u =>
      have hwritten : Written (v₁.after (handle env) i
          (.longtermWrite session.userId x.message.asText (some x.id))).trace x := by
        rw [Written, View.after_trace, List.any_append, hr]
        simp [writesRow]
      dsimp only
      rw [SessionMemory.advanceWatermark, Prog.mapErr_bind, Prog.bind_assoc]
      refine keeps_query (K := fun v => Ready sid session.id (x :: xs) v ∧ Written v.trace x) ?_
        ⟨hR₁.quiet trivial, hwritten⟩ (fun v₂ hI₂ ⟨hR₂, hw⟩ _ => ?_) fun v₂ n hI₂ ⟨hR₂, hw⟩ hC _ => ?_
      · exact (ready_stable _ _).and fun _ _ _ _ _ _ _ h => h.append _
      · by_cases hs : session.id = sid
        · rw [hs]
          refine ⟨.advance _, hI₂.advance fun row hrow hle => ?_⟩
          -- The rows up to this message are written, since it is the first of those that are left.
          rcases ((hR₂ hs) x (by simp)).2 row hrow hle with h | h
          · exact h
          · rcases List.mem_cons.mp h with rfl | h
            · exact hw
            · have := (hxs hs).1 row h
              omega
        · exact ⟨.quiet hs, hI₂.quiet hs⟩
      · unfold SessionMemory.mustAffect
        split
        · exact keeps_fail
        · refine ih (fun hs => (hxs hs).2) fun hs y hy => ?_
          have ha : v₂.state.store.Advances sid
              (v₂.after (handle env) i (.sql (.updateWatermark session.id x.sequenceNum))).state.store :=
            OfMessages.advances hC (hs ▸ .advance _)
          obtain ⟨hreach, hrows⟩ := ((hR₂ hs).advances ha rfl) y (List.mem_cons_of_mem _ hy)
          refine ⟨hreach, fun m hm hle => ?_⟩
          rcases hrows m hm hle with h | h
          · exact .inl h
          · rcases List.mem_cons.mp h with rfl | h
            · exact .inl (hw.append _)
            · exact .inr h

theorem tickSessions_keeps (cfg : ConsolidationConfig) (sessions : List Session) (hv : Protected sid v) :
    Keeps env sid i (ConsolidationWorker.tickSessions cfg sessions) v := by
  induction sessions generalizing v with
  | nil => exact keeps_ret
  | cons session sessions ih =>
    unfold ConsolidationWorker.tickSessions SessionMemory.loadMessagesAboveWatermark
    rw [Prog.mapErr_bind, Prog.bind_assoc]
    refine keeps_query (K := fun _ => True) Discipline.stable_true trivial
      (fun v' hI _ _ => ⟨.quiet trivial, hI.quiet trivial⟩) fun v₁ wm hI₁ _ _ hr => ?_
    have hwm : session.id = sid → wm ≤
        (v₁.after (handle env) i (.sql (.selectWatermark session.id))).state.store.watermark sid := by
      rintro rfl
      rw [watermark_of_select hr]
      exact le_of_eq (Request.Quiet.watermark (q := .sql (.selectWatermark session.id)) trivial v₁.state).symm
    refine keeps_query (K := fun v => session.id = sid → wm ≤ v.state.store.watermark sid)
      (fun v j q hj hI hC hG h hs => watermark_stable wm v j q hj hI hC hG (h hs)) hwm
      (fun v' hI _ _ => ⟨.quiet trivial, hI.quiet trivial⟩) fun v₂ msgs hI₂ hK _ hmsgs => ?_
    have hI₃ : Protected sid (v₂.after (handle env) i (.sql (.selectMessagesAbove session.id wm))) :=
      hI₂.quiet trivial
    have hsorted : session.id = sid → msgs.Pairwise fun m m' => m.sequenceNum < m'.sequenceNum := by
      rintro rfl
      rw [messages_of_select hI₂.numbered hmsgs]
      exact hI₂.numbered.filter _
    have hready : Ready sid session.id msgs
        (v₂.after (handle env) i (.sql (.selectMessagesAbove session.id wm))) := by
      rintro rfl x hx
      rw [messages_of_select hI₂.numbered hmsgs] at hx ⊢
      have hrows : (handle env (.sql (.selectMessagesAbove session.id wm)) v₂.state).2.store.rows session.id =
          v₂.state.store.rows session.id :=
        (show Request.Quiet session.id (.sql (.selectMessagesAbove session.id wm)) from trivial).rows v₂.state
      rw [View.after_state, hrows]
      refine ⟨.inr ⟨x, List.mem_of_mem_filter hx, le_refl _⟩, fun m hm _ => ?_⟩
      by_cases hle : m.sequenceNum ≤ wm
      · exact .inl ((hI₂.covered m hm (le_trans hle (hK rfl))).append _)
      · exact .inr (List.mem_filter.mpr ⟨hm, by simpa using hle⟩)
    split
    · exact ih hI₃
    · refine Discipline.Safe.bind (M := fun _ => Ready sid session.id msgs) hI₃ ?_ (fun early v₄ hI₄ hR₄ => ?_)
        fun _ _ _ _ => keeps_fail
      · unfold ConsolidationWorker.tooEarly
        split
        · exact ⟨_, ready_stable _ _, hready, fun v' hI hR _ => ⟨.quiet trivial, hI.quiet trivial,
            _, ready_stable _ _, hR.quiet trivial, fun _ _ h => h⟩⟩
        · exact ⟨_, ready_stable _ _, hready, fun _ _ h => h⟩
      · split
        · exact ih hI₄
        · exact keeps_bind hI₄ (consolidate_keeps session hsorted hR₄) fun _ _ hI => ih hI

/-- Every operation keeps the discipline. -/
theorem MessageOp.keeps (op : MessageOp) (hv : Protected sid v) : Keeps env sid i op.program v := by
  have happend : ∀ s ms, Keeps env sid i ((SessionMemory.append s ms).mapErr .session) v := fun s ms => by
    refine keeps_of_only (Prog.Only.mapErr (SessionMemory.append_only (.inl trivial) (.inl trivial) fun now => ?_))
    by_cases hs : s = sid
    · exact .inr ⟨ms, now, by rw [hs]⟩
    · exact .inl hs
  cases op with
  | appendMessage s m => exact happend s [m]
  | appendTurn s m m' => exact happend s [m, m']
  | cleanup s cutoff => exact keeps_bind hv (cleanupSession_keeps s cutoff) fun _ _ _ => keeps_ret
  | consolidate cfg =>
    unfold MessageOp.program ConsolidationWorker.tick
    refine keeps_bind hv (keeps_quiet (Prog.Only.mapErr ?_)) fun sessions v' hI => tickSessions_keeps cfg sessions hI
    exact Prog.Only.bind (nowTimestamp_only trivial) fun _ => query_only trivial

end Threads

/-! ### Runs -/

variable [DecidableEq ι]

/-- Operations on the messages of sessions, before any of them has begun. -/
def MessageOp.pool (ops : ι → MessageOp) (w : World) : Pool ι Reply World WorkerError Unit :=
  ⟨fun i => (ops i).program, ⟨w, []⟩⟩

/-- In every interleaving of operations in which no append comes while the watermark is above all rows of the
session, only rows that were written to long-term memory are deleted. -/
theorem consolidated_before_deletion (env : Env) (sid : SessionId) (ops : ι → MessageOp) (w : World)
    (hrows : w.store.rows sid = []) (schedule : List ι)
    (hC : (MessageOp.pool ops w).Conforms (handle env) (AppendsAbove sid) schedule) :
    ConsolidatedFirst sid ((MessageOp.pool ops w).run (handle env) schedule).view.trace := by
  have hstart : Protected sid (⟨w, []⟩ : View ι Reply World) :=
    ⟨by simp [Store.Numbered, hrows], by simp [hrows], fun n x h => by simp at h⟩
  exact (Pool.run_safe (P := MessageOp.pool ops w) (D := terms sid) (E := fun _ _ _ => True) hstart
    (fun i => (ops i).keeps hstart) hC).1.consolidated

/-- One session without messages. -/
def World.oneSession : World :=
  { World.fresh ⟨[]⟩ 0 with store := ⟨[SessionMemory.newRow 0 "u" 0 none], [], 0⟩, nextUuid := 1 }

/-- Two appends, a tick, and two cleanups of everything older than a second. -/
def twoMessages : Nat → MessageOp
  | 0 => .appendMessage 0 (.ofText .user "first")
  | 1 => .consolidate ⟨1, 0, by decide⟩
  | 2 => .cleanup 0 1
  | 3 => .appendMessage 0 (.ofText .user "second")
  | _ => .cleanup 0 1

/-- The model does not matter here. -/
def Env.silent : Env := .steady fun _ _ => ⟨[], .zero⟩

theorem consolidated_two : ConsolidatedFirst 0 ((MessageOp.pool twoMessages World.oneSession).run (handle .silent)
    ([0, 0, 0, 3, 3, 3] ++ List.replicate 8 1 ++ [2, 2, 2])).view.trace :=
  consolidated_before_deletion .silent 0 twoMessages World.oneSession rfl _ (by decide +kernel)

/-- A message that is appended after the first one was consolidated and deleted is deleted unconsolidated. -/
theorem deleted_unconsolidated : World.oneSession.store.rows 0 = [] ∧
    ¬ ConsolidatedFirst 0 ((MessageOp.pool twoMessages World.oneSession).run (handle .silent)
      ([0, 0, 0] ++ List.replicate 6 1 ++ [2, 2, 2, 3, 3, 3, 4, 4, 4])).view.trace := by
  refine ⟨rfl, fun h => ?_⟩
  generalize ht : ((MessageOp.pool twoMessages World.oneSession).run (handle .silent)
      ([0, 0, 0] ++ List.replicate 6 1 ++ [2, 2, 2, 3, 3, 3, 4, 4, 4])).view.trace = t at h
  have hbad : ∃ row ∈ (t[17]?.map (deletedRows 0 ·.2)).getD [], ¬ Written (t.take 17) row := by
    rw [← ht]
    decide +kernel
  obtain ⟨row, hrow, hnot⟩ := hbad
  cases hx : t[17]? with
  | none => rw [hx] at hrow; cases hrow
  | some x => rw [hx] at hrow; exact hnot (h 17 x hx row hrow)

end AgentVerse
