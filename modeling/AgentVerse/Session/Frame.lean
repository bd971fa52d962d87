import AgentVerse.Session.Memory

/-!
# Frames

What the requests of an agent leave alone. `Request.Keeps π sid` says that a request does not change what `π` reads
from the row of a session; `life` is the reading that interrupts and resumes are about. The footprint lemmas say
which requests the session operations make, and the `_spec` lemmas what the two writes of an interrupt do.
-/

namespace AgentVerse

open Effects

/-! ### Requests and rows -/

namespace Request

/-- A request that only reads, or that only touches the cache, the clock or long-term memory. -/
def Idle : Request → Prop
  | .now | .newUuid | .cacheLoad .. | .cacheStore .. | .cacheAppendTurn .. | .cacheEvict .. | .readSkills
  | .readSummaries | .retrieve .. | .longtermWrite .. => True
  | .sql (.selectSession _) | .sql (.selectByUser _) | .sql (.selectMessages _) | .sql (.selectWatermark _)
  | .sql (.selectMessagesAbove ..) | .sql (.selectNeedingMaintenance _) | .sql (.selectSkillContext _)
  | .sql (.selectPhaseOpening _) | .sql (.selectInterruptedState _) => True
  | _ => False

/-- An idle request that does not touch the cache. -/
def Reads : Request → Prop
  | .cacheLoad .. | .cacheStore .. | .cacheAppendTurn .. | .cacheEvict .. => False
  | q => q.Idle

theorem Reads.idle {q : Request} (hq : q.Reads) : q.Idle := by
  cases q <;> first | exact hq | exact hq.elim

/-- A request leaves what `π` reads from the row of session `sid` as it is. -/
def Keeps {β : Type} (π : SessionRow → β) (sid : SessionId) : Request → Prop
  | .sql st => st.Keeps π sid
  | _ => True

theorem Idle.keeps {β : Type} {π : SessionRow → β} {sid : SessionId} {q : Request} (hq : q.Idle) :
    q.Keeps π sid := by
  cases q with
  | sql st => cases st <;> first | exact hq.elim | (intro s f hu; simp [Statement.update?] at hu)
  | _ => trivial

end Request

variable {env : Env} {w : World} {c : Config Reply World}

theorem handle_sql_ok (st : Statement) (h : env.storeError w.steps = none) :
    handle env (.sql st) w =
      ((st.exec w.store).1, { w.tick env with store := (st.exec w.store).2 }) := by
  simp [handle, answer, h]

theorem handle_sql_error (st : Statement) {e : String} (h : env.storeError w.steps = some e) :
    handle env (.sql st) w = (.error e, w.tick env) := by
  simp [handle, answer, h]

/-- Every request is counted. -/
@[simp] theorem handle_steps (q : Request) (w : World) : (handle env q w).2.steps = w.steps + 1 := by
  cases q with
  | sql st => simp only [handle, answer]; split <;> rfl
  | cacheAppendTurn u sid m m' => simp only [handle, answer]; split <;> rfl
  | submit sid kind => simp only [handle, answer, queueOp]; split <;> rfl
  | resolve id d => simp only [handle, answer, queueOp]; split <;> rfl
  | poll id => simp only [handle, answer, queueOp]; split <;> rfl
  | sweepExpired => simp only [handle, answer, queueOp]; split <;> rfl
  | _ => rfl

/-- No request changes the skills. -/
@[simp] theorem handle_skills (q : Request) (w : World) : (handle env q w).2.skills = w.skills := by
  cases q with
  | sql st => simp only [handle, answer]; split <;> rfl
  | cacheAppendTurn u sid m m' => simp only [handle, answer]; split <;> rfl
  | submit sid kind => simp only [handle, answer, queueOp]; split <;> rfl
  | resolve id d => simp only [handle, answer, queueOp]; split <;> rfl
  | poll id => simp only [handle, answer, queueOp]; split <;> rfl
  | sweepExpired => simp only [handle, answer, queueOp]; split <;> rfl
  | _ => rfl

/-- Only statements change the tables. -/
theorem handle_store {q : Request} (h : ∀ st, q ≠ .sql st) : (handle env q w).2.store = w.store := by
  cases q with
  | sql st => exact absurd rfl (h st)
  | cacheAppendTurn u sid m m' => simp only [handle, answer]; split <;> rfl
  | submit req => simp only [handle, answer, queueOp]; split <;> rfl
  | resolve id d => simp only [handle, answer, queueOp]; split <;> rfl
  | poll id => simp only [handle, answer, queueOp]; split <;> rfl
  | sweepExpired => simp only [handle, answer, queueOp]; split <;> rfl
  | _ => rfl

/-- Idle requests change no table. -/
theorem Request.Idle.store {q : Request} (hq : q.Idle) (w : World) : (handle env q w).2.store = w.store := by
  by_cases hst : ∃ st, q = .sql st
  · obtain ⟨st, rfl⟩ := hst
    cases he : env.storeError w.steps with
    | some e => rw [handle_sql_error st he]; rfl
    | none =>
      rw [handle_sql_ok st he]
      cases st with
      | selectWatermark sid => simp only [Statement.exec]; split <;> rfl
      | insertSession | updateStatus | appendMessages | updateWatermark | deleteExpired | deleteEndedSessions
      | deleteSession | updateSkillContext | updatePhaseOpening | updatePhaseTransition
      | updateInterruptedState => exact hq.elim
      | _ => rfl
  · exact handle_store fun st h => hst ⟨st, h⟩

/-- An optional column of a row follows from the column as it is kept. -/
theorem column_bind {α β : Type} {row row' : Option α} {f : α → Option β} (h : row.map f = row'.map f) :
    row.bind f = row'.bind f := by
  have hjoin := congrArg (Option.bind · id) h
  simpa only [Option.bind_map, Function.id_comp] using hjoin

/-- The frame rule of requests. -/
theorem Request.Keeps.row {β : Type} {π : SessionRow → β} {sid : SessionId} {q : Request} (hq : q.Keeps π sid)
    (w : World) : ((handle env q w).2.store.row? sid).map π = (w.store.row? sid).map π := by
  by_cases hst : ∃ st, q = .sql st
  · obtain ⟨st, rfl⟩ := hst
    cases he : env.storeError w.steps with
    | none => rw [handle_sql_ok st he]; exact Statement.Keeps.row hq w.store
    | some e => rw [handle_sql_error st he]; rfl
  · rw [handle_store fun st h => hst ⟨st, h⟩]

/-- The frame rule of programs. -/
theorem keeps_of_reaches {β : Type} {π : SessionRow → β} {sid : SessionId} {A : Request → Prop}
    {c c' : Config Reply World} (hr : Reaches (handle env) A c c') (hA : ∀ q, A q → q.Keeps π sid) :
    (c'.state.store.row? sid).map π = (c.state.store.row? sid).map π :=
  hr.frame (fun w => (w.store.row? sid).map π) fun q w hq => (hA q hq).row w

/-- The columns that interrupts and resumes are about. -/
structure Life where
  status : SessionStatus
  pending : Option (JsonText InterruptedState)
  deriving DecidableEq

def SessionRow.life (row : SessionRow) : Life := ⟨row.status, row.interruptedState⟩

/-- Status and pending interrupt of a session, if it exists. -/
def World.life (w : World) (sid : SessionId) : Option Life := (w.store.row? sid).map SessionRow.life

/-- A session belongs to a user. -/
def World.owns (w : World) (userId : String) (sid : SessionId) : Prop :=
  (w.store.row? sid).map (·.userId) = some userId

instance (w : World) (userId : String) (sid : SessionId) : Decidable (w.owns userId sid) :=
  inferInstanceAs (Decidable (_ = _))

/-- Identities are never drawn twice. -/
theorem handle_nextUuid (q : Request) (w : World) : w.nextUuid ≤ (handle env q w).2.nextUuid := by
  cases q with
  | sql st => simp only [handle, answer]; split <;> exact Nat.le_refl _
  | newUuid => exact Nat.le_succ _
  | cacheAppendTurn u sid m m' => simp only [handle, answer]; split <;> exact Nat.le_refl _
  | submit sid kind => simp only [handle, answer, queueOp]; split <;> exact Nat.le_succ _
  | resolve id d => simp only [handle, answer, queueOp]; split <;> exact Nat.le_refl _
  | poll id => simp only [handle, answer, queueOp]; split <;> exact Nat.le_refl _
  | sweepExpired => simp only [handle, answer, queueOp]; split <;> exact Nat.le_refl _
  | _ => exact Nat.le_refl _

theorem nextUuid_le {A : Request → Prop} {c c' : Config Reply World} (hr : Reaches (handle env) A c c') :
    c.state.nextUuid ≤ c'.state.nextUuid :=
  hr.preserves (fun w => c.state.nextUuid ≤ w.nextUuid) (fun q w _ h => h.trans (handle_nextUuid q w))
    (Nat.le_refl _)

/-! ### Footprints of the session operations -/

section Footprints

variable {A : Request → Prop}

theorem query_only {st : Statement} (h : A (.sql st)) : (query st).Only A :=
  ⟨h, fun r _ => by cases r <;> trivial⟩

theorem request_only {ε : Type} {q : Request} (h : A q) : (request q : M ε _).Only A := ⟨h, fun _ _ => trivial⟩

theorem nowTimestamp_only {ε : Type} (h : A .now) : (nowTimestamp : M ε Int).Only A := ⟨h, fun _ _ => trivial⟩

namespace SessionMemory

@[simp] theorem mustAffect_only (sid : SessionId) (n : Nat) : (mustAffect sid n).Only A := by
  unfold mustAffect
  split <;> trivial

@[simp] theorem readColumn_only {α : Type} (sid : SessionId) (x : Option α) : (readColumn sid x).Only A := by
  cases x <;> trivial

theorem createWith_only {userId : String} {ctx : Option (JsonText SkillContext)} (hnow : A .now)
    (huuid : A .newUuid) (h : ∀ id now, A (.sql (.insertSession (newRow id userId now ctx)))) :
    (createWith userId ctx).Only A :=
  Prog.Only.bind (nowTimestamp_only hnow) fun now =>
    Prog.Only.bind (request_only huuid) fun id => Prog.Only.bind (query_only (h id now)) fun _ => trivial

theorem updateStatus_only {sid : SessionId} {status : SessionStatus} (hnow : A .now)
    (h : ∀ now, A (.sql (.updateStatus sid status now))) : (updateStatus sid status).Only A :=
  Prog.Only.bind (nowTimestamp_only hnow) fun now =>
    Prog.Only.bind (query_only (h now)) fun n => mustAffect_only sid n

theorem append_only {sid : SessionId} {ms : List Message} (hnow : A .now) (hget : A (.sql (.selectSession sid)))
    (h : ∀ now, A (.sql (.appendMessages sid ms now))) : (append sid ms).Only A := by
  refine Prog.Only.bind (query_only hget) fun s => ?_
  cases s with
  | none => trivial
  | some _ => exact Prog.Only.bind (nowTimestamp_only hnow) fun now => query_only (h now)

theorem setSkillContext_only {sid : SessionId} {ctx : Option (JsonText SkillContext)}
    (h : A (.sql (.updateSkillContext sid ctx))) : (setSkillContext sid ctx).Only A :=
  Prog.Only.bind (query_only h) fun n => mustAffect_only sid n

theorem getSkillContext_only {sid : SessionId} (h : A (.sql (.selectSkillContext sid))) :
    (getSkillContext sid).Only A :=
  Prog.Only.bind (query_only h) fun x => readColumn_only sid x

theorem setPhaseOpeningContext_only {sid : SessionId} {ctx : Option String}
    (h : A (.sql (.updatePhaseOpening sid ctx))) : (setPhaseOpeningContext sid ctx).Only A :=
  Prog.Only.bind (query_only h) fun n => mustAffect_only sid n

theorem getPhaseOpeningContext_only {sid : SessionId} (h : A (.sql (.selectPhaseOpening sid))) :
    (getPhaseOpeningContext sid).Only A :=
  Prog.Only.bind (query_only h) fun x => readColumn_only sid x

theorem applyPhaseTransition_only {sid : SessionId} {ctx : JsonText SkillContext} {phaseCtx : String}
    (h : A (.sql (.updatePhaseTransition sid ctx phaseCtx))) : (applyPhaseTransition sid ctx phaseCtx).Only A :=
  Prog.Only.bind (query_only h) fun n => mustAffect_only sid n

theorem setInterruptedState_only {sid : SessionId} {state : Option (JsonText InterruptedState)}
    (h : A (.sql (.updateInterruptedState sid state))) : (setInterruptedState sid state).Only A :=
  Prog.Only.bind (query_only h) fun n => mustAffect_only sid n

theorem getInterruptedState_only {sid : SessionId} (h : A (.sql (.selectInterruptedState sid))) :
    (getInterruptedState sid).Only A :=
  Prog.Only.bind (query_only h) fun x => readColumn_only sid x

end SessionMemory

theorem SessionManager.assertOwner_only {userId : String} {sid : SessionId}
    (h : A (.sql (.selectSession sid))) : (assertOwner userId sid).Only A := by
  refine Prog.Only.bind (query_only h) fun s => ?_
  cases s with
  | none => trivial
  | some s => dsimp only; split <;> trivial

end Footprints

/-! ### The two writes of an interrupt -/

theorem run_query (st : Statement) :
    (query st).run (handle env) c =
      ((handle env (.sql st) c.state).1.mapError .database, c.after (handle env) (.sql st)) := by
  simp only [query, Prog.run_ask]
  cases (handle env (.sql st) c.state).1 <;> rfl

/-- Only its owner gets past the check of a session. -/
theorem SessionManager.assertOwner_ok {userId : String} {sid : SessionId} {c' : Config Reply World} {u : Unit} :
    (assertOwner userId sid).run (handle env) c = (.ok u, c') ↔
      env.storeError c.state.steps = none ∧ c.state.owns userId sid ∧
        c' = c.after (handle env) (.sql (.selectSession sid)) := by
  rw [assertOwner, SessionMemory.get, Prog.run_bind, run_query]
  unfold World.owns
  cases hs : env.storeError c.state.steps with
  | some e => rw [handle_sql_error _ hs]; simp [Except.mapError]
  | none =>
    rw [handle_sql_ok _ hs]
    cases hrow : c.state.store.row? sid with
    | none => simp [Statement.exec, Except.mapError, hrow]
    | some row =>
      simp only [Statement.exec, hrow, Except.mapError, Option.map_some]
      by_cases howner : row.toSession.userId = userId
      · rw [if_pos howner]
        simp [show row.userId = userId from howner, eq_comm]
      · rw [if_neg howner]
        simp [show ¬ row.userId = userId from howner]

theorem SessionMemory.getInterruptedState_ok {sid : SessionId} {x : Option (JsonText InterruptedState)}
    {c' : Config Reply World} :
    (getInterruptedState sid).run (handle env) c = (.ok x, c') ↔
      env.storeError c.state.steps = none ∧ (c.state.life sid).map (·.pending) = some x ∧
        c' = c.after (handle env) (.sql (.selectInterruptedState sid)) := by
  rw [getInterruptedState, Prog.run_bind, run_query, World.life]
  cases hs : env.storeError c.state.steps with
  | some e => rw [handle_sql_error _ hs]; simp [Except.mapError]
  | none =>
    rw [handle_sql_ok _ hs]
    cases hrow : c.state.store.row? sid with
    | none => simp [Statement.exec, Except.mapError, hrow, readColumn]
    | some row => simp [Statement.exec, Except.mapError, hrow, readColumn, SessionRow.life, eq_comm]

theorem SessionMemory.getSkillContext_ok {sid : SessionId} {x : Option (JsonText SkillContext)}
    {c' : Config Reply World} :
    (getSkillContext sid).run (handle env) c = (.ok x, c') ↔
      env.storeError c.state.steps = none ∧ (c.state.store.row? sid).map (·.skillContextJson) = some x ∧
        c' = c.after (handle env) (.sql (.selectSkillContext sid)) := by
  rw [getSkillContext, Prog.run_bind, run_query]
  cases hs : env.storeError c.state.steps with
  | some e => rw [handle_sql_error _ hs]; simp [Except.mapError]
  | none =>
    rw [handle_sql_ok _ hs]
    cases hrow : c.state.store.row? sid with
    | none => simp [Statement.exec, Except.mapError, hrow, readColumn]
    | some row => simp [Statement.exec, Except.mapError, hrow, readColumn, eq_comm]

/-- A new session takes the next id; the other rows stay as they are. -/
theorem SessionMemory.createWith_spec (env : Env) (userId : String) (ctx : Option (JsonText SkillContext))
    (c : Config Reply World) :
    let c' := ((createWith userId ctx).run (handle env) c).2
    c.state.nextUuid < c'.state.nextUuid ∧
      (∀ sid, sid ≠ c.state.nextUuid → c'.state.store.row? sid = c.state.store.row? sid) ∧
      (c.state.store.row? c.state.nextUuid = none →
        ∀ l, c'.state.life c.state.nextUuid = some l → l = ⟨.active, none⟩) := by
  -- The clock and the id are read first; neither touches the tables.
  obtain ⟨c₂, now, hstore, huuid, hrun⟩ : ∃ c₂ : Config Reply World, ∃ now, c₂.state.store = c.state.store ∧
      c₂.state.nextUuid = c.state.nextUuid + 1 ∧ ((createWith userId ctx).run (handle env) c).2 =
        c₂.after (handle env) (.sql (.insertSession (newRow c.state.nextUuid userId now ctx))) := by
    refine ⟨(c.after (handle env) .now).after (handle env) .newUuid, timestamp (c.state.tick env).clock, rfl, rfl, ?_⟩
    simp only [createWith, nowTimestamp, request, Prog.ask_bind, Prog.ret_bind, Prog.perform_bind, Prog.run_ask,
      Prog.pure_eq, Prog.run_bind_ret]
    exact congrArg Prod.snd (run_query _)
  dsimp only
  rw [hrun]
  refine ⟨?_, fun sid hne => ?_, fun hfresh l hl => ?_⟩
  · have hle : c₂.state.nextUuid ≤
        (handle env (.sql (.insertSession (newRow c.state.nextUuid userId now ctx))) c₂.state).2.nextUuid :=
      handle_nextUuid _ c₂.state
    rw [huuid] at hle
    exact hle
  · have hk : (Request.sql (.insertSession (newRow c.state.nextUuid userId now ctx))).Keeps id sid := Ne.symm hne
    have hrow : ((c₂.after (handle env) (.sql (.insertSession (newRow c.state.nextUuid userId now ctx)))).state.store.row?
        sid).map id = (c₂.state.store.row? sid).map id := hk.row c₂.state
    simpa [hstore] using hrow
  · unfold World.life at hl
    cases hs : env.storeError c₂.state.steps with
    | some e => simp [handle_sql_error _ hs, hstore, hfresh] at hl
    | none =>
      have hins : (c.state.store.insertSession (newRow c.state.nextUuid userId now ctx)).2.row? c.state.nextUuid =
          some (newRow c.state.nextUuid userId now ctx) := Store.row?_insertSession_same hfresh
      simp only [Config.after_state, handle_sql_ok _ hs, Statement.exec, hstore, hins, Option.map_some,
        Option.some.injEq] at hl
      exact hl.symm

/-- An update of a session row with its count of affected rows: it succeeds on an existing row, and a failing one
changes nothing. -/
private theorem run_update {st : Statement} {sid : SessionId} {f : SessionRow → SessionRow} {n : Nat}
    (hu : st.update? = some (sid, f)) (hn : n = (c.state.store.updateSession sid f).1)
    (hs : env.storeError c.state.steps = none) :
    (n ≠ 0 ∧ ∃ row, c.state.store.row? sid = some row ∧
        (c.after (handle env) (.sql st)).state.store.row? sid = some (f row)) ∨
      (n = 0 ∧ c.state.store.row? sid = none ∧ (c.after (handle env) (.sql st)).state.store.row? sid = none) := by
  have hafter : (c.after (handle env) (.sql st)).state.store.row? sid = (c.state.store.row? sid).map f := by
    simp only [Config.after_state, handle_sql_ok st hs]
    rw [Statement.exec_update hu, Store.row?_updateSession_same (Statement.update?_id hu)]
  have hzero : n = 0 ↔ c.state.store.row? sid = none := by rw [hn, Store.updateSession_none]
  cases hrow : c.state.store.row? sid with
  | none => exact .inr ⟨hzero.mpr hrow, rfl, by rw [hafter, hrow]; rfl⟩
  | some row =>
    refine .inl ⟨fun h => ?_, row, rfl, by rw [hafter, hrow]; rfl⟩
    rw [hzero.mp h] at hrow
    cases hrow

/-- A write that the database refused. -/
def refusedWrite : Event → Bool
  | ⟨.sql st, .error _⟩ => st.writes
  | _ => false

/-- Between two configurations a write was refused by the database. -/
def FailedWrite (c c' : Config Reply World) : Prop :=
  ∃ t, c'.trace = c.trace ++ t ∧ ∃ x ∈ t, refusedWrite x = true

theorem FailedWrite.within {A F : Request → Prop} {h : Handler Reply World} {c c₁ c₂ c' : Config Reply World}
    (hf : FailedWrite c₁ c₂) (h₁ : Reaches h A c c₁) (h₂ : Reaches h F c₂ c') : FailedWrite c c' := by
  obtain ⟨t, ht, x, hmem, hx⟩ := hf
  obtain ⟨t₁, ht₁, -⟩ := h₁.trace
  obtain ⟨t₂, ht₂, -⟩ := h₂.trace
  exact ⟨t₁ ++ t ++ t₂, by simp [ht, ht₁, ht₂], x, by simp [hmem], hx⟩

theorem FailedWrite.of_after {st : Statement} {e : String} (hst : st.writes = true)
    (he : (handle env (.sql st) c.state).1 = .error e) :
    FailedWrite c (c.after (handle env) (.sql st)) := by
  refine ⟨[⟨.sql st, .error e⟩], ?_, ⟨.sql st, .error e⟩, by simp, hst⟩
  rw [Config.after_trace, he]

namespace SessionMemory

/-- How an update of the row of `sid` ends, when the `n`-th request writes it: it is done, or it fails and leaves
the row as it is. -/
def UpdateEnds (env : Env) (n : Nat) (sid : SessionId) (f : SessionRow → SessionRow)
    (r : Except SessionMemoryError Unit) (c c' : Config Reply World) : Prop :=
  (r = .ok () ∧ env.storeError n = none ∧
      ∃ row, c.state.store.row? sid = some row ∧ c'.state.store.row? sid = some (f row)) ∨
    ∃ e, r = .error e ∧ ((env.storeError n ≠ none ∧ FailedWrite c c') ∨ c.state.store.row? sid = none) ∧
      c'.state.store.row? sid = c.state.store.row? sid

private theorem run_mustAffect (env : Env) {sid : SessionId} (st : Statement) {f : SessionRow → SessionRow}
    (toNat : st.Result → Nat) (hu : st.update? = some (sid, f)) (hst : st.writes = true)
    (hn : ∀ s, ∃ n, (st.exec s).1 = .ok n ∧ toNat n = (s.updateSession sid f).1) (c : Config Reply World) :
    ((query st >>= fun n => mustAffect sid (toNat n)).run (handle env) c).2 = c.after (handle env) (.sql st) ∧
      UpdateEnds env c.state.steps sid f
        ((query st >>= fun n => mustAffect sid (toNat n)).run (handle env) c).1 c
        (c.after (handle env) (.sql st)) := by
  rw [Prog.run_bind, run_query]
  cases hs : env.storeError c.state.steps with
  | some e =>
    have he : (handle env (.sql st) c.state).1 = .error e := by rw [handle_sql_error _ hs]
    rw [he]
    refine ⟨rfl, .inr ⟨_, rfl, .inl ⟨by simp [hs], .of_after hst he⟩, ?_⟩⟩
    simp [handle_sql_error _ hs]
  | none =>
    obtain ⟨n, hn, hcount⟩ := hn c.state.store
    have hok : (handle env (.sql st) c.state).1 = .ok n := by rw [handle_sql_ok _ hs]; exact hn
    rw [hok]
    simp only [Except.mapError, mustAffect]
    rcases run_update hu hcount hs with ⟨hne, row, hrow, hafter⟩ | ⟨hz, hrow, hafter⟩
    · simp only [hne, if_false]
      exact ⟨rfl, .inl ⟨rfl, hs, row, hrow, hafter⟩⟩
    · simp only [hz, if_true]
      exact ⟨rfl, .inr ⟨_, rfl, .inr hrow, by rw [hrow]; exact hafter⟩⟩

/-- `set_interrupted_state` writes its column of an existing row, or fails without an effect. -/
theorem setInterruptedState_spec (env : Env) (sid : SessionId) (x : Option (JsonText InterruptedState))
    (c : Config Reply World) :
    ((setInterruptedState sid x).run (handle env) c).2 =
        c.after (handle env) (.sql (.updateInterruptedState sid x)) ∧
      UpdateEnds env c.state.steps sid (fun row => { row with interruptedState := x })
        ((setInterruptedState sid x).run (handle env) c).1 c
        ((setInterruptedState sid x).run (handle env) c).2 := by
  have h := run_mustAffect env (.updateInterruptedState sid x) id rfl rfl
    (fun s => ⟨_, rfl, rfl⟩) c
  exact ⟨h.1, h.1 ▸ h.2⟩

/-- `apply_phase_transition` writes both of its columns of an existing row, or fails without an effect. -/
theorem applyPhaseTransition_spec (env : Env) (sid : SessionId) (ctx : JsonText SkillContext) (phaseCtx : String)
    (c : Config Reply World) :
    ((applyPhaseTransition sid ctx phaseCtx).run (handle env) c).2 =
        c.after (handle env) (.sql (.updatePhaseTransition sid ctx phaseCtx)) ∧
      UpdateEnds env c.state.steps sid
        (fun row => { row with skillContextJson := some ctx, phaseOpeningContext := some phaseCtx })
        ((applyPhaseTransition sid ctx phaseCtx).run (handle env) c).1 c
        ((applyPhaseTransition sid ctx phaseCtx).run (handle env) c).2 := by
  have h := run_mustAffect env (.updatePhaseTransition sid ctx phaseCtx) id rfl rfl
    (fun s => ⟨_, rfl, rfl⟩) c
  exact ⟨h.1, h.1 ▸ h.2⟩

/-- The configuration after `update_status`, which reads the clock first. -/
def afterStatus (env : Env) (sid : SessionId) (status : SessionStatus) (c : Config Reply World) :
    Config Reply World :=
  let c₁ := c.after (handle env) .now
  c₁.after (handle env) (.sql (.updateStatus sid status (timestamp c₁.state.clock)))

/-- `update_status` writes the status and the time of the write, or fails without an effect. -/
theorem updateStatus_spec (env : Env) (sid : SessionId) (status : SessionStatus) (c : Config Reply World) :
    ((updateStatus sid status).run (handle env) c).2 = afterStatus env sid status c ∧
      UpdateEnds env (c.state.steps + 1) sid
        (fun row => { row with status := status, updatedAt := timestamp (c.state.tick env).clock })
        ((updateStatus sid status).run (handle env) c).1 c ((updateStatus sid status).run (handle env) c).2 := by
  have hnow : Reaches (handle env) Request.Idle c (c.after (handle env) .now) := .step trivial .refl
  obtain ⟨hrun, hends⟩ := run_mustAffect env
    (.updateStatus sid status (timestamp (c.state.tick env).clock)) id rfl rfl (fun s => ⟨_, rfl, rfl⟩) (c.after (handle env) .now)
  refine ⟨hrun, ?_⟩
  rw [show ((updateStatus sid status).run (handle env) c).2 = _ from hrun]
  rcases hends with ⟨hr, hs, row, hb, ha⟩ | ⟨e, hr, hf, hk⟩
  · exact .inl ⟨hr, hs, row, hb, ha⟩
  · exact .inr ⟨e, hr, hf.imp (fun hf => ⟨hf.1, hf.2.within hnow (F := Request.Idle) .refl⟩) id, hk⟩

end SessionMemory

end AgentVerse
