import AgentVerse.Effects.Loop
import AgentVerse.Retention
import AgentVerse.Session.Entries

/-!
# One bad session

Both ticks go through the listed sessions in order and end at the first operation that fails. The sessions do not
touch each other's rows (`Request.Quiet`), so a session whose operations fail costs the others nothing but their
turn: those behind it in the listing are not served in this tick, however long they have been due.
-/

namespace AgentVerse

open Effects

variable {env : Env} {c c' : Config Reply World} {sid : SessionId}

/-! ### What is due -/

/-- The rows of a session above its watermark. -/
def Store.unconsolidated (s : Store) (sid : SessionId) : List MessageRow := s.messagesAbove sid (s.watermark sid)

theorem Store.mem_unconsolidated {s : Store} {row : MessageRow} :
    row ∈ s.unconsolidated sid ↔ row ∈ s.rows sid ∧ s.watermark sid < row.sequenceNum := by
  rw [unconsolidated, messagesAbove, bySequence, List.mem_insertionSort, List.mem_filter, decide_eq_true_eq]

/-- The rows of a session that a cleanup deletes: past the cutoff and at or below a watermark that has moved. -/
def Store.expiredRows (s : Store) (sid : SessionId) (cutoff : Int) : List MessageRow :=
  (s.rows sid).filter fun row => row.createdAt < cutoff && s.Passed row

/-- A session has a batch of messages above its watermark, or has some and is idle. -/
def ConsolidationWorker.Due (cfg : ConsolidationConfig) (session : Session) (w : World) : Prop :=
  w.store.unconsolidated session.id ≠ [] ∧
    (cfg.batchSize ≤ (w.store.unconsolidated session.id).length ∨
      cfg.idleTimeout.asSecs ≤ timestamp w.clock - session.updatedAt)

/-- The rows are in long-term memory and the watermark is behind them. -/
def ConsolidationWorker.Drained (sid : SessionId) (rows : List MessageRow) (c : Config Reply World) : Prop :=
  c.state.store.unconsolidated sid = [] ∧ ∀ row ∈ rows, Consolidated c.trace row

/-! ### The loops -/

namespace ConsolidationWorker

/-- One turn of `tickSessions`. -/
def serveSession (cfg : ConsolidationConfig) (session : Session) : M WorkerError Unit := do
  let msgs ← (SessionMemory.loadMessagesAboveWatermark session.id).mapErr .session
  if msgs.isEmpty then .ret () else do
    let early ← tooEarly cfg session msgs.length
    if early then .ret () else consolidate session msgs

theorem tickSessions_eq_forEach (cfg : ConsolidationConfig) (sessions : List Session) :
    tickSessions cfg sessions = Prog.forEach (serveSession cfg) sessions := by
  induction sessions with
  | nil => rfl
  | cons session sessions ih =>
    rw [tickSessions, Prog.forEach, serveSession, Prog.bind_assoc, ih]
    congr 1
    funext msgs
    split
    · rfl
    · rw [Prog.bind_assoc]
      congr 1
      funext early
      split <;> rfl

/-- The tick is the loop over what the listing returns. -/
theorem tick_of_listing {cfg : ConsolidationConfig} {sessions : List Session}
    (h : SessionMemory.listSessionsNeedingMaintenance.run (handle env) c = (.ok sessions, c')) :
    (tick cfg).run (handle env) c = (tickSessions cfg sessions).run (handle env) c' :=
  Prog.run_bind_ok _ (Prog.run_mapErr_eq_ok _ |>.mpr h) _

end ConsolidationWorker

namespace CleanupWorker

/-- One turn of `cleanupSessions`. -/
def serveSession (cutoff : Int) (session : Session) : M WorkerError Unit := do
  let _ ← cleanupSession session.id cutoff
  return ()

/-- A tick up to its loop: what it goes by and what it goes through. -/
def prepare (cfg : CleanupConfig) : M WorkerError (Int × List Session) := do
  let now ← nowTimestamp
  let _ ← (SessionMemory.deleteEndedSessionsBefore (cfg.sessionRetention.cutoff now)).mapErr .session
  let now ← nowTimestamp
  let sessions ← SessionMemory.listSessionsNeedingMaintenance.mapErr .session
  return (cfg.messageRetention.cutoff now, sessions)

theorem tick_of_prepared {cfg : CleanupConfig} {cutoff : Int} {sessions : List Session}
    (h : (prepare cfg).run (handle env) c = (.ok (cutoff, sessions), c')) :
    (tick cfg).run (handle env) c = (cleanupSessions cutoff sessions).run (handle env) c' := by
  have htick : tick cfg = prepare cfg >>= fun x => cleanupSessions x.1 x.2 := by
    simp only [tick, prepare, Prog.bind_assoc]
    rfl
  rw [htick]
  exact Prog.run_bind_ok _ h _

theorem cleanupSessions_eq_forEach (cutoff : Int) (sessions : List Session) :
    cleanupSessions cutoff sessions = Prog.forEach (serveSession cutoff) sessions := by
  induction sessions with
  | nil => rfl
  | cons session sessions ih =>
    rw [cleanupSessions, Prog.forEach, serveSession, Prog.bind_assoc, ih]
    rfl

end CleanupWorker

/-! ### A turn leaves the other sessions alone -/

theorem ConsolidationWorker.consolidate_only {A : Request → Prop} {session : Session}
    (hwrite : ∀ u content source, A (.longtermWrite u content source))
    (hadvance : ∀ wm, A (.sql (.updateWatermark session.id wm))) (rows : List MessageRow) :
    (consolidate session rows).Only A := by
  induction rows with
  | nil => trivial
  | cons row rows ih =>
    refine ⟨hwrite _ _ _, fun r _ => ?_⟩
    cases r with
    | error e => trivial
    | ok u =>
      refine Prog.Only.bind (Prog.Only.mapErr ?_) fun _ => ih
      exact Prog.Only.bind (query_only (hadvance _)) fun n => SessionMemory.mustAffect_only _ n

theorem ConsolidationWorker.serveSession_quiet {cfg : ConsolidationConfig} {session : Session}
    (hne : session.id ≠ sid) : (serveSession cfg session).Only (Request.Quiet sid) := by
  refine Prog.Only.bind (Prog.Only.mapErr ?_) fun msgs => ?_
  · exact Prog.Only.bind (query_only trivial) fun wm => query_only trivial
  · split
    · trivial
    · refine Prog.Only.bind ?_ fun early => ?_
      · unfold tooEarly
        split
        · exact Prog.Only.bind (nowTimestamp_only trivial) fun _ => trivial
        · trivial
      · split
        · trivial
        · exact consolidate_only (fun _ _ _ => trivial) (fun _ => hne) msgs

theorem CleanupWorker.serveSession_quiet {cutoff : Int} {session : Session} (hne : session.id ≠ sid) :
    (serveSession cutoff session).Only (Request.Quiet sid) :=
  Prog.Only.bind (cleanupSession_only trivial fun _ => hne) fun _ => trivial

/-! ### What a turn leaves as it is -/

/-- A program that is quiet for a session keeps its rows and its watermark. -/
theorem quiet_keeps {α : Type} {p : M WorkerError α} (hp : p.Only (Request.Quiet sid)) (c : Config Reply World) :
    (p.run (handle env) c).2.state.store.rows sid = c.state.store.rows sid ∧
      (p.run (handle env) c).2.state.store.watermark sid = c.state.store.watermark sid :=
  ⟨(hp.reaches c).frame (fun w => w.store.rows sid) fun _ w hq => hq.rows w,
    (hp.reaches c).frame (fun w => w.store.watermark sid) fun _ w hq => hq.watermark w⟩

theorem quiet_unconsolidated {α : Type} {p : M WorkerError α} (hp : p.Only (Request.Quiet sid))
    (c : Config Reply World) :
    (p.run (handle env) c).2.state.store.unconsolidated sid = c.state.store.unconsolidated sid := by
  obtain ⟨hrows, hwm⟩ := @quiet_keeps env _ _ _ hp c
  rw [Store.unconsolidated, Store.messagesAbove, hrows, hwm, ← Store.messagesAbove, ← Store.unconsolidated]

/-- The clock of a run never goes back. -/
theorem clock_le {ε α : Type} (p : M ε α) (c : Config Reply World) :
    c.state.clock ≤ (p.run (handle env) c).2.state.clock := by
  refine ((Prog.only_true p).reaches c).preserves (fun w => c.state.clock ≤ w.clock) (fun q w _ hw => ?_) (le_refl _)
  exact hw.trans ((Nat.le_add_right _ _).trans (handle_clock q w).symm.le)

theorem timestamp_mono {n m : Nat} (h : n ≤ m) : timestamp n ≤ timestamp m :=
  Int.ediv_le_ediv (by decide) (Int.ofNat_le.mpr h)

/-- What was written stays written. -/
theorem consolidated_run {ε α : Type} {p : M ε α} {c : Config Reply World} {row : MessageRow}
    (h : Consolidated c.trace row) : Consolidated (p.run (handle env) c).2.trace row := by
  obtain ⟨t, ht, -⟩ := ((Prog.only_true p).reaches (h := handle env) c).trace
  rw [Consolidated, ht, List.any_append, Bool.or_eq_true]
  exact .inl h

/-! ### What a turn that ends well does -/

theorem SessionMemory.advanceWatermark_ok {wm : Int} {u : Unit}
    (h : (SessionMemory.advanceWatermark sid wm).run (handle env) c = (.ok u, c')) :
    c'.state.store.watermark sid = max (c.state.store.watermark sid) wm := by
  obtain ⟨n, c₁, h₁, h₂⟩ := (Prog.run_bind_eq_ok _).mp h
  obtain ⟨hn, hstate⟩ := query_ok h₁
  have hc : c' = c₁ ∧ n ≠ 0 := by
    unfold mustAffect at h₂
    split at h₂
    · cases h₂
    · cases h₂
      exact ⟨rfl, ‹_›⟩
  obtain ⟨rfl, hne⟩ := hc
  rw [hstate]
  simp only [Statement.exec, Except.ok.injEq] at hn
  cases hrow : c.state.store.row? sid with
  | none =>
    refine absurd hn (Ne.symm ?_)
    rw [Store.updateSession, List.filter_eq_nil_iff.mpr fun r hr => List.find?_eq_none.mp hrow r hr]
    exact hne
  | some row =>
    simp only [Statement.exec, Store.watermark]
    rw [Store.row?_updateSession_same (f := fun row =>
      { row with consolidationWatermark := max row.consolidationWatermark wm }) fun _ => rfl, hrow]
    rfl

namespace ConsolidationWorker

theorem consolidate_ok {session : Session} {rows : List MessageRow} {u : Unit}
    (h : (consolidate session rows).run (handle env) c = (.ok u, c')) :
    c.state.store.watermark session.id ≤ c'.state.store.watermark session.id ∧
      ∀ row ∈ rows, row.sequenceNum ≤ c'.state.store.watermark session.id ∧ Consolidated c'.trace row := by
  induction rows generalizing c with
  | nil =>
    cases h
    exact ⟨le_refl _, fun row hrow => by cases hrow⟩
  | cons row rows ih =>
    rw [consolidate, Prog.run_ask] at h
    cases hw : (handle env (.longtermWrite session.userId row.message.asText (some row.id)) c.state).1 with
    | error e =>
      rw [hw] at h
      cases h
    | ok r =>
      rw [hw] at h
      obtain ⟨r', c₁, h₁, hrest⟩ := (Prog.run_bind_eq_ok _).mp h
      have hadvance := SessionMemory.advanceWatermark_ok ((Prog.run_mapErr_eq_ok _).mp h₁)
      obtain ⟨hwm, hrows⟩ := ih hrest
      have hkept : c.state.store.watermark session.id ≤ c₁.state.store.watermark session.id := by
        rw [hadvance]
        exact le_max_left _ _
      have hbehind : row.sequenceNum ≤ c₁.state.store.watermark session.id := by
        rw [hadvance]
        exact le_max_right _ _
      refine ⟨hkept.trans hwm, fun row' hrow' => ?_⟩
      rcases List.mem_cons.mp hrow' with rfl | hrow'
      · refine ⟨hbehind.trans hwm, ?_⟩
        have hwritten : Consolidated c₁.trace row' := by
          rw [show c₁ = (Prog.run (handle env) _ _).2 from (congrArg Prod.snd h₁).symm]
          refine consolidated_run ?_
          rw [Consolidated, Config.after_trace, List.any_append, hw]
          simp [writesRow]
        rw [show c' = (Prog.run (handle env) _ _).2 from (congrArg Prod.snd hrest).symm]
        exact consolidated_run hwritten
      · exact hrows row' hrow'

/-- The rows of a session stay while it is consolidated. -/
theorem consolidate_rows (session : Session) (rows : List MessageRow) (c : Config Reply World) :
    ((consolidate session rows).run (handle env) c).2.state.store.rows sid = c.state.store.rows sid := by
  have honly : (consolidate session rows).Only
      fun q => ∀ w, (handle env q w).2.store.rows sid = w.store.rows sid := by
    refine consolidate_only (fun u content source w => ?_) (fun wm w => ?_) rows
    · rw [handle_store (by simp)]
    · by_cases hs : session.id = sid
      · rw [hs]
        exact advance_rows env sid wm w
      · exact Request.Quiet.rows (q := .sql (.updateWatermark session.id wm)) hs w
  exact (honly.reaches c).frame (fun w => w.store.rows sid) fun q w hq => hq w

/-- A turn that ends well drains a session that is due. -/
theorem serveSession_ok {cfg : ConsolidationConfig} {session : Session} {u : Unit} (hdue : Due cfg session c.state)
    (h : (serveSession cfg session).run (handle env) c = (.ok u, c')) :
    Drained session.id (c.state.store.unconsolidated session.id) c' := by
  obtain ⟨msgs, c₁, h₁, h⟩ := (Prog.run_bind_eq_ok _).mp h
  have hload : msgs = c.state.store.unconsolidated session.id ∧ c₁.state.store = c.state.store := by
    obtain ⟨wm, c₂, hread, hselect⟩ := (Prog.run_bind_eq_ok _).mp ((Prog.run_mapErr_eq_ok _).mp h₁)
    obtain ⟨rfl, hstore⟩ := SessionMemory.getWatermark_ok hread
    obtain ⟨hmsgs, hstate⟩ := query_ok hselect
    rw [hstate, ← hstore]
    simp only [Statement.exec, Except.ok.injEq] at hmsgs ⊢
    rw [← hmsgs, Store.unconsolidated, hstore]
    exact ⟨rfl, trivial⟩
  obtain ⟨rfl, hstore⟩ := hload
  have hclock : c.state.clock ≤ c₁.state.clock := by
    rw [show c₁ = (Prog.run (handle env) _ _).2 from (congrArg Prod.snd h₁).symm]
    exact clock_le _ c
  have hsome : (c.state.store.unconsolidated session.id).isEmpty = false := by
    rw [List.isEmpty_eq_false_iff]
    exact hdue.1
  rw [hsome, if_neg Bool.false_ne_true] at h
  obtain ⟨early, c₂, h₂, h⟩ := (Prog.run_bind_eq_ok _).mp h
  -- The session is due by its size, or is still idle at the clock reading of its turn.
  have hdecision : early = false ∧ c₂.state.store = c₁.state.store := by
    unfold tooEarly at h₂
    split at h₂
    · rename_i hfew
      simp only [nowTimestamp, Prog.pure_eq, Prog.ask_bind, Prog.ret_bind, Prog.run_ask, Prog.run_ret,
        Prod.mk.injEq, Except.ok.injEq] at h₂
      obtain ⟨rfl, rfl⟩ := h₂
      refine ⟨decide_eq_false (not_lt.mpr ?_), handle_store (by simp)⟩
      rcases hdue.2 with hbatch | hidle
      · omega
      · have := timestamp_mono (hclock.trans (Nat.le_add_right _ (env.elapse c₁.state.steps)))
        exact cfg.idleTimeout.asI64_le.trans (hidle.trans (Int.sub_le_sub_right this _))
    · cases h₂
      exact ⟨rfl, rfl⟩
  obtain ⟨rfl, hstore₂⟩ := hdecision
  rw [if_neg Bool.false_ne_true] at h
  obtain ⟨hwm, hrows⟩ := consolidate_ok h
  have hkept := @consolidate_rows env session.id session (c.state.store.unconsolidated session.id) c₂
  rw [h] at hkept
  dsimp only at hkept
  rw [hstore₂, hstore] at hkept hwm
  refine ⟨List.eq_nil_iff_forall_not_mem.mpr fun row hrow => ?_, fun row hrow => (hrows row hrow).2⟩
  rw [Store.mem_unconsolidated, hkept] at hrow
  rcases lt_or_ge (c.state.store.watermark session.id) row.sequenceNum with hlt | hge
  · have := (hrows row (Store.mem_unconsolidated.mpr ⟨hrow.1, hlt⟩)).1
    omega
  · omega

end ConsolidationWorker

theorem CleanupWorker.serveSession_ok {cutoff : Int} {session : Session} {u : Unit}
    (h : (serveSession cutoff session).run (handle env) c = (.ok u, c')) :
    c'.state.store.expiredRows session.id cutoff = [] := by
  obtain ⟨n, c₁, h₁, h⟩ := (Prog.run_bind_eq_ok _).mp h
  cases h
  rw [cleanupSession_ok h₁]
  refine List.filter_eq_nil_iff.mpr fun row hrow hexp => ?_
  obtain ⟨hmem, hsid⟩ := List.mem_filter.mp hrow
  obtain ⟨-, hkept⟩ := Store.mem_prune.mp hmem
  simp only [Bool.and_eq_true, decide_eq_true_eq, Store.Passed, Store.prune_watermark] at hexp hsid
  exact hkept ⟨hsid, hexp⟩

/-! ### Which ticks serve the other sessions -/

namespace ConsolidationWorker

/-- From `c` to `c'`, every listed session that is due is consolidated, those whose own operations fail apart. -/
def ServesOthers (env : Env) (cfg : ConsolidationConfig) (sessions : List Session) (c c' : Config Reply World) :
    Prop :=
  ∀ session ∈ sessions, Due cfg session c.state →
    Prog.FailsIn (handle env) (serveSession cfg) sessions c session ∨
      Drained session.id (c.state.store.unconsolidated session.id) c'

/-- What a turn promises, for the rows that were above the watermarks at the start. -/
theorem serveSession_serves (env : Env) (cfg : ConsolidationConfig) (rows : SessionId → List MessageRow) :
    Prog.Serves (handle env) (serveSession cfg) (fun session => session.id)
      (fun session c => Due cfg session c.state ∧ c.state.store.unconsolidated session.id = rows session.id)
      (fun session c => Drained session.id (rows session.id) c) where
  serve hdue h := hdue.2 ▸ serveSession_ok hdue.1 h
  keepsDue {x y c} hne hdue := by
    obtain ⟨⟨hsome, hcase⟩, hrows⟩ := hdue
    have hquiet := @quiet_unconsolidated env _ _ _ (@serveSession_quiet _ cfg _ hne) c
    refine ⟨⟨by rw [hquiet]; exact hsome, ?_⟩, by rw [hquiet]; exact hrows⟩
    rw [hquiet]
    refine hcase.imp_right fun hidle => hidle.trans (Int.sub_le_sub_right (timestamp_mono ?_) _)
    exact clock_le _ c
  keepsDone {x y c} hne hdone :=
    ⟨(quiet_unconsolidated (serveSession_quiet hne) c).trans hdone.1,
      fun row hrow => consolidated_run (hdone.2 row hrow)⟩
  undone hdue hdone := hdue.1.1 hdone.1

end ConsolidationWorker

namespace CleanupWorker

/-- From `c` to `c'`, every listed session loses its expired rows, those whose own operations fail apart. -/
def ServesOthers (env : Env) (cutoff : Int) (sessions : List Session) (c c' : Config Reply World) : Prop :=
  ∀ session ∈ sessions, c.state.store.expiredRows session.id cutoff ≠ [] →
    Prog.FailsIn (handle env) (serveSession cutoff) sessions c session ∨
      c'.state.store.expiredRows session.id cutoff = []

theorem expiredRows_quiet {cutoff : Int} {α : Type} {p : M WorkerError α} (hp : p.Only (Request.Quiet sid))
    (c : Config Reply World) :
    (p.run (handle env) c).2.state.store.expiredRows sid cutoff = c.state.store.expiredRows sid cutoff := by
  obtain ⟨hrows, hwm⟩ := @quiet_keeps env _ _ _ hp c
  unfold Store.expiredRows
  rw [hrows]
  refine List.filter_congr fun row hrow => ?_
  have hsid : row.sessionId = sid := by simpa using (List.mem_filter.mp hrow).2
  simp only [Store.Passed, hsid, hwm]

theorem serveSession_serves (env : Env) (cutoff : Int) :
    Prog.Serves (handle env) (serveSession cutoff) (fun session => session.id)
      (fun session c => c.state.store.expiredRows session.id cutoff ≠ [])
      (fun session c => c.state.store.expiredRows session.id cutoff = []) where
  serve _ h := serveSession_ok h
  keepsDue {x y c} hne hdue := by
    rw [expiredRows_quiet (serveSession_quiet hne) c]
    exact hdue
  keepsDone {x y c} hne hdone := (expiredRows_quiet (serveSession_quiet hne) c).trans hdone
  undone hdue hdone := hdue hdone

end CleanupWorker

/-- Both loops serve every listed session that is due, the failing ones apart, exactly when none of them stands
behind a session whose operations fail. So does a tick, from the end of its listing on. -/
theorem maintenance_serves_others_iff (env : Env) (cfg : ConsolidationConfig) (cutoff : Int)
    (sessions : List Session) (c : Config Reply World) (hids : (sessions.map (·.id)).Nodup) :
    (ConsolidationWorker.ServesOthers env cfg sessions c
        ((ConsolidationWorker.tickSessions cfg sessions).run (handle env) c).2 ↔
      Prog.NoneBehind (handle env) (ConsolidationWorker.serveSession cfg)
        (fun session => ConsolidationWorker.Due cfg session c.state) sessions c) ∧
    (CleanupWorker.ServesOthers env cutoff sessions c
        ((CleanupWorker.cleanupSessions cutoff sessions).run (handle env) c).2 ↔
      Prog.NoneBehind (handle env) (CleanupWorker.serveSession cutoff)
        (fun session => c.state.store.expiredRows session.id cutoff ≠ []) sessions c) ∧
    (∀ c₀, SessionMemory.listSessionsNeedingMaintenance.run (handle env) c₀ = (.ok sessions, c) →
      (ConsolidationWorker.ServesOthers env cfg sessions c
          ((ConsolidationWorker.tick cfg).run (handle env) c₀).2 ↔
        Prog.NoneBehind (handle env) (ConsolidationWorker.serveSession cfg)
          (fun session => ConsolidationWorker.Due cfg session c.state) sessions c)) ∧
    (∀ (clean : CleanupConfig) c₀,
      (CleanupWorker.prepare clean).run (handle env) c₀ = (.ok (cutoff, sessions), c) →
        (CleanupWorker.ServesOthers env cutoff sessions c ((CleanupWorker.tick clean).run (handle env) c₀).2 ↔
          Prog.NoneBehind (handle env) (CleanupWorker.serveSession cutoff)
            (fun session => c.state.store.expiredRows session.id cutoff ≠ []) sessions c)) := by
  have hconsolidation : ConsolidationWorker.ServesOthers env cfg sessions c
      ((ConsolidationWorker.tickSessions cfg sessions).run (handle env) c).2 ↔
        Prog.NoneBehind (handle env) (ConsolidationWorker.serveSession cfg)
          (fun session => ConsolidationWorker.Due cfg session c.state) sessions c := by
    rw [ConsolidationWorker.tickSessions_eq_forEach]
    have hserves := ConsolidationWorker.serveSession_serves env cfg c.state.store.unconsolidated
    exact Prog.forEach_serves_iff hserves hids fun session _ hdue => ⟨hdue, rfl⟩
  have hcleanup : CleanupWorker.ServesOthers env cutoff sessions c
      ((CleanupWorker.cleanupSessions cutoff sessions).run (handle env) c).2 ↔
        Prog.NoneBehind (handle env) (CleanupWorker.serveSession cutoff)
          (fun session => c.state.store.expiredRows session.id cutoff ≠ []) sessions c := by
    rw [CleanupWorker.cleanupSessions_eq_forEach]
    exact Prog.forEach_serves_iff (CleanupWorker.serveSession_serves env cutoff) hids fun session _ hdue => hdue
  refine ⟨hconsolidation, hcleanup, fun c₀ h => ?_, fun clean c₀ h => ?_⟩
  · rw [ConsolidationWorker.tick_of_listing h]
    exact hconsolidation
  · rw [CleanupWorker.tick_of_prepared h]
    exact hcleanup

/-- Two days after two sessions were opened with a message each, which is consolidated up to `wm`. -/
def World.twoBacklogs (wm : Int) : World :=
  { World.afterTwoDays wm with
    store := ⟨[⟨0, "u", .active, 0, 0, wm, none, none, none⟩, ⟨1, "v", .active, 0, 0, wm, none, none, none⟩],
      [⟨1, 0, .ofText .user "hello", 1, 0⟩, ⟨2, 1, .ofText .user "hi", 1, 0⟩], 2⟩
    nextUuid := 2 }

/-- The sessions that a listing returned, one of which was deleted since. -/
def World.oneDeleted (sid : SessionId) : World :=
  { World.twoBacklogs 1 with store := ((World.twoBacklogs 1).store.deleteSessions fun row => row.id = sid).2 }

def World.listed : List Session := (World.twoBacklogs 1).store.sessionsNeedingMaintenance 172800

/-- The sixth request is a write to long-term memory, which fails. -/
def Env.writeFails : Env :=
  { Env.silent with longtermWrite := fun n => if n = 5 then .error "unavailable" else .ok () }

/-- A session that was deleted meanwhile does no harm at the end of the listing. -/
theorem first_session_cleaned : CleanupWorker.ServesOthers .silent 86400 World.listed ⟨.oneDeleted 1, []⟩
    ((CleanupWorker.cleanupSessions 86400 World.listed).run (handle .silent) ⟨.oneDeleted 1, []⟩).2 := by
  refine (maintenance_serves_others_iff .silent .default 86400 World.listed ⟨.oneDeleted 1, []⟩
    (by decide +kernel)).2.1.mpr fun pre x post c' e hL hpre hx y hy => ?_
  have hlisted : World.listed = [⟨0, "u", .active, 0, 0⟩, ⟨1, "v", .active, 0, 0⟩] := by decide +kernel
  rw [hlisted] at hL
  match pre, hL with
  | [], hL =>
    obtain ⟨rfl, rfl⟩ := List.cons_eq_cons.mp hL
    cases hpre
    have hok : ((CleanupWorker.serveSession 86400 ⟨0, "u", .active, 0, 0⟩).run (handle .silent)
        ⟨.oneDeleted 1, []⟩).1 = .ok () := by decide +kernel
    rw [hok] at hx
    cases hx
  | [_], hL =>
    simp only [List.cons_append, List.nil_append, List.cons.injEq] at hL
    obtain ⟨-, -, rfl⟩ := hL
    cases hy
  | _ :: _ :: _, hL => simp at hL

/-- A failed write for the first user leaves the messages of the second one where they are, and so does the deletion
of the first session with the expired messages of the second. -/
theorem second_session_left :
    (∃ sessions c, SessionMemory.listSessionsNeedingMaintenance.run (handle .writeFails) ⟨.twoBacklogs 0, []⟩ =
        (.ok sessions, c) ∧
      ¬ ConsolidationWorker.ServesOthers .writeFails .default sessions c
        ((ConsolidationWorker.tick .default).run (handle .writeFails) ⟨.twoBacklogs 0, []⟩).2) ∧
      ¬ CleanupWorker.ServesOthers .silent 86400 World.listed ⟨.oneDeleted 0, []⟩
        ((CleanupWorker.cleanupSessions 86400 World.listed).run (handle .silent) ⟨.oneDeleted 0, []⟩).2 := by
  constructor
  · refine ⟨_, _, rfl, fun h => ?_⟩
    rcases h ⟨1, "v", .active, 0, 0⟩ (by decide +kernel) ⟨by decide +kernel, .inr (by decide +kernel)⟩ with
      hfails | hdrained
    · exact absurd hfails.turn (by decide +kernel)
    · exact absurd hdrained.1 (by decide +kernel)
  · intro h
    rcases h ⟨1, "v", .active, 0, 0⟩ (by decide +kernel) (by decide +kernel) with hfails | hpurged
    · exact absurd hfails.turn (by decide +kernel)
    · exact absurd hpurged (by decide +kernel)

end AgentVerse
