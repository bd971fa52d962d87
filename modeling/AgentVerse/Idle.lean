import AgentVerse.Consolidation

/-!
# When a session is idle

A tick of the consolidation worker takes a session that has fewer unconsolidated messages than a batch only if the
session is idle. It measures the idle time from `updated_at`, which no append moves, so the time since the last
message may be shorter. The rule for the time since the last message (`Due`) holds as long as the worker never reads
the clock at a moment when the two differ (`RowsCurrent`).
-/

namespace AgentVerse

open Effects

variable {ι : Type} [DecidableEq ι]

/-! ### The rule -/

/-- The time of an append to a session. -/
def appendTime (sid : SessionId) : Event → Option Int
  | ⟨.sql (.appendMessages s _ now), .ok _⟩ => if s = sid then some now else none
  | _ => none

/-- When the last message of a session was appended: in the trace, or before it. -/
def lastAppended (s₀ : Store) (sid : SessionId) (t : List (ι × Event)) : Option Int :=
  (t.filterMap fun x => appendTime sid x.2).getLast?.or ((s₀.rows sid).getLast?.map (·.createdAt))

/-- The two statements by which a tick loads the messages of a session above its watermark. -/
def loads (sid : SessionId) (wm : Int) (rows : List MessageRow) : List Event :=
  [⟨.sql (.selectWatermark sid), .ok wm⟩, ⟨.sql (.selectMessagesAbove sid wm), .ok rows⟩]

/-- A tick may write a message to long-term memory: it is one of those it has loaded of a session, and these are a
batch, or when it read the clock next, the last message of the session was old enough. -/
def Due (s₀ : Store) (cfg : ConsolidationConfig) (i : ι) (rowId : Option Nat) (content : String)
    (t : List (ι × Event)) : Prop :=
  ∃ sid wm rows, (∃ row ∈ rows, rowId = some row.id ∧ content = row.message.asText) ∧
    ((cfg.batchSize ≤ rows.length ∧ loads sid wm rows <:+: eventsOf i t) ∨
      ∃ pre clock post, t = pre ++ (i, ⟨.now, clock⟩) :: post ∧ loads sid wm rows <:+ eventsOf i pre ∧
        ∀ last ∈ lastAppended s₀ sid pre, cfg.idleTimeout.asSecs ≤ timestamp clock - last)

/-- Every write of the tick that thread `i` runs is due. -/
def WritesDue (s₀ : Store) (ops : ι → MessageOp) (v : View ι Reply World) (i : ι) (q : Request) : Prop :=
  ∀ cfg, ops i = .consolidate cfg → ∀ userId content rowId, q = .longtermWrite userId content rowId →
    Due s₀ cfg i rowId content v.trace

/-- When a tick that has loaded fewer messages than a batch reads the clock, and the row of the session was not
updated for what the worker takes for the idle time, no message was appended to the session for the idle time. -/
def RowsCurrent (env : Env) (s₀ : Store) (ops : ι → MessageOp) (v : View ι Reply World) (i : ι) (q : Request) :
    Prop :=
  ∀ cfg, ops i = .consolidate cfg → q = .now →
    ∀ sid wm rows, loads sid wm rows <:+ eventsOf i v.trace → rows ≠ [] → rows.length < cfg.batchSize →
      ∀ row ∈ v.state.store.sessions, row.id = sid →
        let now := timestamp (handle env .now v.state).1
        cfg.idleTimeout.asI64 ≤ now - row.updatedAt →
          ∀ last ∈ lastAppended s₀ sid v.trace, cfg.idleTimeout.asSecs ≤ now - last

/-! ### What the operations do to the session rows -/

/-- A request that leaves the sessions as they are listed. -/
def KeepsSessions (env : Env) (w : World) (q : Request) : Prop :=
  (handle env q w).2.store.sessions.map (·.toSession) = w.store.sessions.map (·.toSession)

/-- The terms on which the operations share the tables. -/
def idleTerms (env : Env) (s₀ : Store) (ops : ι → MessageOp) : Discipline ι Reply World where
  inv _ := True
  allowed := RowsCurrent env s₀ ops
  guar v i q := KeepsSessions env v.state q ∧ WritesDue s₀ ops v i q

/-- The requests of the operations, except the writes to long-term memory. -/
def OfMessageOp : Request → Prop
  | .now | .sql (.selectSession _) | .sql (.appendMessages ..) | .sql (.selectWatermark _)
  | .sql (.updateWatermark ..) | .sql (.selectMessagesAbove ..) | .sql (.selectNeedingMaintenance _)
  | .sql (.deleteExpired ..) => True
  | _ => False

theorem map_toSession_updateSession (s : Store) (sid : SessionId) {f : SessionRow → SessionRow}
    (hf : ∀ r, (f r).toSession = r.toSession) :
    (s.updateSession sid f).2.sessions.map (·.toSession) = s.sessions.map (·.toSession) := by
  simp only [Store.updateSession, List.map_map]
  refine List.map_congr_left fun r _ => ?_
  by_cases hr : r.id = sid
  · simp [hr, hf]
  · simp [hr]

theorem keepsSessions_sql {env : Env} {w : World} {st : Statement}
    (h : (st.exec w.store).2.sessions.map (·.toSession) = w.store.sessions.map (·.toSession)) :
    KeepsSessions env w (.sql st) := by
  unfold KeepsSessions
  cases he : env.storeError w.steps with
  | some e =>
    rw [handle_sql_error _ he]
    rfl
  | none =>
    rw [handle_sql_ok _ he]
    exact h

theorem OfMessageOp.keepsSessions {env : Env} {w : World} {q : Request} (hq : OfMessageOp q) :
    KeepsSessions env w q := by
  cases q with
  | now => rfl
  | sql st =>
    refine keepsSessions_sql ?_
    cases st with
    | appendMessages sid ms now => simp only [Statement.exec, Store.sessions_appendMessages]
    | updateWatermark sid wm => exact map_toSession_updateSession _ _ fun _ => rfl
    | selectWatermark sid =>
      simp only [Statement.exec]
      split <;> rfl
    | selectSession | selectMessagesAbove | selectNeedingMaintenance | deleteExpired => rfl
    | _ => exact hq.elim
  | _ => exact hq.elim

/-! ### Threads -/

section Threads

variable {env : Env} {s₀ : Store} {ops : ι → MessageOp} {i : ι} {v : View ι Reply World} {α β : Type}

/-- The sessions that a tick has listed are listed still. -/
def StillListed (sessions : List Session) (v : View ι Reply World) : Prop :=
  ∀ s ∈ sessions, s ∈ v.state.store.sessions.map (·.toSession)

theorem listed_stable (sessions : List Session) :
    (idleTerms env s₀ ops).Stable (handle env) i (StillListed sessions) := by
  intro v j q _ _ _ hG h s hs
  rw [View.after_state, hG.1]
  exact h s hs

/-- What a thread did last, the turns of others do not change. -/
theorem suffix_stable (es : List Event) :
    (idleTerms env s₀ ops).Stable (handle env) i fun v => es <:+ eventsOf i v.trace := by
  intro v j q hj _ _ _ h
  rw [View.after_trace, eventsOf_other hj]
  exact h

theorem Due.append {cfg : ConsolidationConfig} {rowId : Option Nat} {content : String} {t : List (ι × Event)}
    (h : Due s₀ cfg i rowId content t) (t' : List (ι × Event)) : Due s₀ cfg i rowId content (t ++ t') := by
  obtain ⟨sid, wm, rows, hrow, h⟩ := h
  refine ⟨sid, wm, rows, hrow, ?_⟩
  rcases h with ⟨hbatch, hloads⟩ | ⟨pre, clock, post, rfl, hloads, hidle⟩
  · refine .inl ⟨hbatch, hloads.trans ?_⟩
    simp only [eventsOf, List.filterMap_append]
    exact (List.prefix_append _ _).isInfix
  · exact .inr ⟨pre, clock, post ++ t', by simp, hloads, hidle⟩

/-- The messages that a tick is about to write. -/
def AllDue (s₀ : Store) (ops : ι → MessageOp) (i : ι) (rows : List MessageRow) (v : View ι Reply World) : Prop :=
  ∀ cfg, ops i = .consolidate cfg → ∀ row ∈ rows, Due s₀ cfg i (some row.id) row.message.asText v.trace

theorem AllDue.append {rows : List MessageRow} {v' : View ι Reply World} (h : AllDue s₀ ops i rows v)
    {t : List (ι × Event)} (ht : v'.trace = v.trace ++ t) : AllDue s₀ ops i rows v' := by
  intro cfg hop row hrow
  rw [ht]
  exact (h cfg hop row hrow).append t

theorem allDue_stable (rows : List MessageRow) :
    (idleTerms env s₀ ops).Stable (handle env) i (AllDue s₀ ops i rows) :=
  fun _ _ _ _ _ _ _ h => h.append rfl

/-- An ordinary request of a thread that knows `K`. -/
theorem OfMessageOp.guar {q : Request} (hq : OfMessageOp q) : (idleTerms env s₀ ops).guar v i q := by
  refine ⟨hq.keepsSessions, ?_⟩
  rintro cfg - userId content rowId rfl
  exact hq.elim

/-- A thread that keeps the terms, and knows that `sessions` are listed. -/
abbrev KeepsIdleRule (env : Env) (s₀ : Store) (ops : ι → MessageOp) (i : ι) (sessions : List Session)
    (p : M WorkerError α) (v : View ι Reply World) : Prop :=
  (idleTerms env s₀ ops).Safe (handle env) i (fun _ => StillListed sessions) p v

variable {sessions : List Session}

theorem idle_ret {a : α} (h : StillListed sessions v) : KeepsIdleRule env s₀ ops i sessions (.ret a) v :=
  .ret (listed_stable _) h

theorem idle_fail {e : WorkerError} (h : StillListed sessions v) :
    KeepsIdleRule env s₀ ops i sessions (.fail e : M WorkerError α) v :=
  .fail (listed_stable _) h

omit [DecidableEq ι] in
theorem StillListed.after {q : Request} (hq : KeepsSessions env v.state q) (h : StillListed sessions v) :
    StillListed sessions (v.after (handle env) i q) := by
  intro s hs
  rw [View.after_state, hq]
  exact h s hs

/-- The rule for a database request of a thread that knows `K`. -/
theorem idle_query {st : Statement} {g : SessionMemoryError → WorkerError} {f : st.Result → M WorkerError α}
    {K : View ι Reply World → Prop} (hst : OfMessageOp (.sql st))
    (hK : (idleTerms env s₀ ops).Stable (handle env) i K) (hv : K v) (hlisted : StillListed sessions v)
    (hstep : ∀ v' r, K v' → StillListed sessions (v'.after (handle env) i (.sql st)) →
      (handle env (.sql st) v'.state).1 = .ok r →
      KeepsIdleRule env s₀ ops i sessions (f r) (v'.after (handle env) i (.sql st))) :
    KeepsIdleRule env s₀ ops i sessions ((query st).mapErr g >>= f) v := by
  refine ⟨_, hK.and (listed_stable sessions), ⟨hv, hlisted⟩, fun v' _ hKv _ => ⟨hst.guar, trivial, ?_⟩⟩
  have hafter : StillListed sessions (v'.after (handle env) i (.sql st)) := hKv.2.after hst.keepsSessions
  cases hr : (handle env (.sql st) v'.state).1 with
  | error e => exact idle_fail hafter
  | ok r => exact hstep v' r hKv.1 hafter hr

/-- A program of ordinary requests. -/
theorem idle_of_only {p : M WorkerError α} (hp : p.Only OfMessageOp) (h : StillListed sessions v) :
    KeepsIdleRule env s₀ ops i sessions p v :=
  Discipline.Safe.of_only hp (listed_stable sessions) h fun _ _ _ hK _ hq =>
    ⟨hq.guar, trivial, hK.after hq.keepsSessions⟩

/-- The messages of a session that are due may be written. -/
theorem consolidate_idle (session : Session) {rows : List MessageRow} (hlisted : StillListed sessions v)
    (hdue : AllDue s₀ ops i rows v) :
    KeepsIdleRule env s₀ ops i sessions (ConsolidationWorker.consolidate session rows) v := by
  induction rows generalizing v with
  | nil => exact idle_ret hlisted
  | cons x xs ih =>
    unfold ConsolidationWorker.consolidate
    refine ⟨_, (allDue_stable (x :: xs)).and (listed_stable sessions), ⟨hdue, hlisted⟩, fun v' _ hK _ => ?_⟩
    have hkeeps : KeepsSessions env v'.state (.longtermWrite session.userId x.message.asText (some x.id)) := rfl
    have hlisted' := hK.2.after (i := i) hkeeps
    refine ⟨⟨hkeeps, ?_⟩, trivial, ?_⟩
    · rintro cfg hop userId content rowId hq
      cases hq
      exact hK.1 cfg hop x List.mem_cons_self
    · cases (handle env (.longtermWrite session.userId x.message.asText (some x.id)) v'.state).1 with
      | error e => exact idle_fail hlisted'
      | ok u =>
        dsimp only
        rw [SessionMemory.advanceWatermark, Prog.mapErr_bind, Prog.bind_assoc]
        have hxs : AllDue s₀ ops i xs v' := fun cfg hop row hrow => hK.1 cfg hop row (List.mem_cons_of_mem _ hrow)
        refine idle_query (K := AllDue s₀ ops i xs) trivial (allDue_stable xs) (hxs.append rfl) hlisted'
          fun v₂ n hdue₂ hlisted₂ _ => ?_
        unfold SessionMemory.mustAffect
        split
        · exact idle_fail hlisted₂
        · exact ih hlisted₂ (hdue₂.append rfl)

/-- What the thread knows when it has decided about a session. -/
def Decided (s₀ : Store) (ops : ι → MessageOp) (i : ι) (sessions : List Session) (rows : List MessageRow)
    (early : Except WorkerError Bool) (v : View ι Reply World) : Prop :=
  StillListed sessions v ∧ (early = .ok false → AllDue s₀ ops i rows v)

theorem decided_stable (rows : List MessageRow) (early : Except WorkerError Bool) :
    (idleTerms env s₀ ops).Stable (handle env) i (Decided s₀ ops i sessions rows early) :=
  (listed_stable sessions).and fun v j q hj hI hC hG h he => allDue_stable rows v j q hj hI hC hG (h he)

/-- A session is left for a later tick unless its messages are due. -/
theorem tooEarly_idle {cfg : ConsolidationConfig} (hop : ops i = .consolidate cfg) {session : Session}
    (hmem : session ∈ sessions) {wm : Int} {rows : List MessageRow} (hne : rows ≠ [])
    (hlisted : StillListed sessions v) (hloads : loads session.id wm rows <:+ eventsOf i v.trace) :
    (idleTerms env s₀ ops).Safe (handle env) i (Decided s₀ ops i sessions rows)
      (ConsolidationWorker.tooEarly cfg session rows.length) v := by
  unfold ConsolidationWorker.tooEarly
  by_cases hbatch : rows.length < cfg.batchSize
  · rw [if_pos hbatch]
    refine ⟨_, (suffix_stable _).and (listed_stable sessions), ⟨hloads, hlisted⟩, fun v' _ hK hC => ?_⟩
    have hnow : OfMessageOp .now := trivial
    refine ⟨hnow.guar, trivial, .ret (decided_stable _ _) ⟨hK.2.after hnow.keepsSessions, fun hearly => ?_⟩⟩
    intro cfg' hop' row hrow
    rw [hop] at hop'
    cases hop'
    refine ⟨session.id, wm, rows, ⟨row, hrow, rfl, rfl⟩, .inr ⟨v'.trace, _, [], rfl, hK.1, ?_⟩⟩
    obtain ⟨r, hr, hsession⟩ := List.mem_map.mp (hK.2 session hmem)
    have hid : r.id = session.id := congrArg Session.id hsession
    have hupdated : r.updatedAt = session.updatedAt := congrArg Session.updatedAt hsession
    -- The row of the session has not been updated for the idle time, or the session would be left.
    have hidle : cfg.idleTimeout.asI64 ≤ timestamp (handle env .now v'.state).1 - r.updatedAt := by
      rw [hupdated]
      simpa using hearly
    exact hC cfg hop rfl session.id wm rows hK.1 hne hbatch r hr hid hidle
  · rw [if_neg hbatch]
    refine .ret (decided_stable _ _) ⟨hlisted, fun _ cfg' hop' row hrow => ?_⟩
    rw [hop] at hop'
    cases hop'
    exact ⟨session.id, wm, rows, ⟨row, hrow, rfl, rfl⟩, .inl ⟨by omega, hloads.isInfix⟩⟩

/-- A tick takes only sessions whose messages are due. -/
theorem tickSessions_idle {cfg : ConsolidationConfig} (hop : ops i = .consolidate cfg) {rest : List Session}
    (hrest : rest ⊆ sessions) (hlisted : StillListed sessions v) :
    KeepsIdleRule env s₀ ops i sessions (ConsolidationWorker.tickSessions cfg rest) v := by
  induction rest generalizing v with
  | nil => exact idle_ret hlisted
  | cons session rest ih =>
    have ih := fun {v} => ih (v := v) fun s hs => hrest (List.mem_cons_of_mem _ hs)
    unfold ConsolidationWorker.tickSessions SessionMemory.loadMessagesAboveWatermark SessionMemory.getWatermark
    rw [Prog.mapErr_bind, Prog.bind_assoc]
    refine idle_query (K := fun _ => True) trivial Discipline.stable_true trivial hlisted
      fun v₁ wm _ hlisted₁ hwm => ?_
    refine idle_query (K := fun v => [⟨.sql (.selectWatermark session.id), .ok wm⟩] <:+ eventsOf i v.trace) trivial
      (suffix_stable _) ?_ hlisted₁ fun v₂ msgs hlast hlisted₂ hmsgs => ?_
    · rw [View.after_trace, eventsOf_same, hwm]
      exact List.suffix_append _ _
    have hloads : loads session.id wm msgs <:+
        eventsOf i (v₂.after (handle env) i (.sql (.selectMessagesAbove session.id wm))).trace := by
      rw [View.after_trace, eventsOf_same, hmsgs]
      obtain ⟨es, hes⟩ := hlast
      exact ⟨es, by rw [← hes]; simp [loads]⟩
    split
    · exact ih hlisted₂
    rename_i hne
    have hmsgs : msgs ≠ [] := by simpa using hne
    refine Discipline.Safe.bind (M := Decided s₀ ops i sessions msgs) trivial
      (tooEarly_idle hop (hrest List.mem_cons_self) hmsgs hlisted₂ hloads) (fun early v₃ _ h => ?_)
      fun e v' _ h => idle_fail h.1
    cases early with
    | true => exact ih h.1
    | false =>
      exact Discipline.Safe.bind (M := fun _ => StillListed sessions) trivial (consolidate_idle session h.1 (h.2 rfl))
        (fun _ _ _ h => ih h) fun _ _ _ h => idle_fail h

theorem mem_of_needingMaintenance {s : Store} {now : Int} {session : Session}
    (h : session ∈ s.sessionsNeedingMaintenance now) : session ∈ s.sessions.map (·.toSession) := by
  unfold Store.sessionsNeedingMaintenance at h
  rw [List.mem_insertionSort] at h
  obtain ⟨r, hr, rfl⟩ := List.mem_map.mp h
  exact List.mem_map_of_mem (List.mem_of_mem_filter hr)

omit [DecidableEq ι] in
/-- What a tick lists, it reads off the rows of the sessions. -/
theorem listed_of_select {now : Int}
    (h : (handle env (.sql (.selectNeedingMaintenance now)) v.state).1 = .ok sessions) :
    StillListed sessions (v.after (handle env) i (.sql (.selectNeedingMaintenance now))) := by
  intro s hs
  cases he : env.storeError v.state.steps with
  | some e =>
    rw [handle_sql_error _ he] at h
    cases h
  | none =>
    rw [View.after_state]
    rw [handle_sql_ok _ he] at h ⊢
    cases h
    exact mem_of_needingMaintenance hs

/-- Every operation keeps the terms. -/
theorem MessageOp.idle : (idleTerms env s₀ ops).Safe (handle env) i (fun _ _ => True) (ops i).program v := by
  have hmono : ∀ {sessions : List Session} {v : View ι Reply World} {p : M WorkerError Unit},
      KeepsIdleRule env s₀ ops i sessions p v → (idleTerms env s₀ ops).Safe (handle env) i (fun _ _ => True) p v :=
    fun h => h.imp fun _ _ _ => trivial
  have hnil : StillListed [] v := fun s hs => by cases hs
  have happend : ∀ sid ms, ((SessionMemory.append sid ms).mapErr .session : M WorkerError Unit).Only OfMessageOp :=
    fun sid ms => Prog.Only.mapErr (SessionMemory.append_only trivial trivial fun _ => trivial)
  cases hop : ops i with
  | appendMessage sid m => exact hmono (idle_of_only (happend sid [m]) hnil)
  | appendTurn sid m m' => exact hmono (idle_of_only (happend sid [m, m']) hnil)
  | cleanup sid cutoff =>
    refine hmono (idle_of_only ?_ hnil)
    exact CleanupWorker.cleanupSessions_only (fun _ => trivial) (fun _ _ => trivial) [⟨sid, "", .active, 0, 0⟩]
  | consolidate cfg =>
    change (idleTerms env s₀ ops).Safe (handle env) i _ (ConsolidationWorker.tick cfg) v
    unfold ConsolidationWorker.tick SessionMemory.listSessionsNeedingMaintenance
    rw [Prog.mapErr_bind, Prog.bind_assoc]
    refine Discipline.Safe.ask fun v₁ _ _ => ⟨OfMessageOp.guar trivial, trivial, ?_⟩
    refine Discipline.Safe.ask fun v₂ _ _ => ⟨OfMessageOp.guar trivial, trivial, ?_⟩
    cases hr : (handle env (.sql (.selectNeedingMaintenance (timestamp (handle env .now v₁.state).1))) v₂.state).1 with
    | error e => exact hmono (idle_fail fun s (hs : s ∈ ([] : List Session)) => by cases hs)
    | ok sessions => exact hmono (tickSessions_idle hop (List.Subset.refl _) (listed_of_select hr))

end Threads

/-! ### Runs -/

/-- A message is appended to a session half an hour after it was created, and a tick with the default configuration
follows at once. -/
def lateMessage : Nat → MessageOp
  | 0 => .appendMessage 0 (.ofText .user "hello")
  | _ => .consolidate .default

def World.halfAnHour : World := { World.oneSession with clock := 1800000000000 }

/-- The append, and the tick up to its first write. -/
def lateRun : Pool Nat Reply World WorkerError Unit :=
  (MessageOp.pool lateMessage World.halfAnHour).run (handle .silent) ([0, 0, 0] ++ List.replicate 5 1)

private def clockOf : Event → Option Nat
  | ⟨.now, clock⟩ => some clock
  | _ => none

private def loadedOf : Event → Option (SessionId × Nat)
  | ⟨.sql (.selectMessagesAbove sid _), .ok rows⟩ => some (sid, rows.length)
  | _ => none

end AgentVerse
