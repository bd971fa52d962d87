import AgentVerse.Agent.Interruption
import AgentVerse.Agent.Ownership
import AgentVerse.Agent.Pending

/-!
# How calls settle

The result of a call together with what it leaves of its session: an output that names an approval goes with a session
that awaits it (`Settles`). A session whose database works is completed when it is ended, and no call adds a session
under an id that is still to be drawn.
-/

namespace AgentVerse

open Effects

variable {env : Env} {w : World} {c c₁ c' : Config Reply World} {sid : SessionId}

/-- How a call that may suspend session `sid` ends. -/
inductive Settles (sid : SessionId) (c c' : Config Reply World) : Except AgentError AgentOutput → Prop where
  /-- Status and pending interrupt are as before. -/
  | quiet {r : Except AgentError AgentOutput} (hr : ∀ id kind, r ≠ .ok (.interrupted id kind))
      (h : c'.state.life sid = c.state.life sid) : Settles sid c c' r
  /-- The session awaits the approval that is returned. -/
  | suspended {i : HitlInterrupt} {kind : InterruptKind} {skillCtx : Option SkillContext}
      (h : c'.state.life sid = some ⟨.interrupted, some (.ofValue (Agent.interruptedState i kind skillCtx))⟩) :
      Settles sid c c' (.ok (.interrupted i.approvalId kind))
  /-- The status could not be written. -/
  | halfway {e : AgentError} {l : Life} {state : InterruptedState} (hf : FailedWrite c c')
      (h : c'.state.life sid = some ⟨l.status, some (.ofValue state)⟩) : Settles sid c c' (.error e)

/-- A call may do something quiet first. -/
theorem Settles.of_turn {r : Except AgentError AgentOutput} (hr : Reaches (handle env) (Request.OfTurn sid) c c₁)
    (h : Settles sid c₁ c' r) : Settles sid c c' r := by
  have hl : c₁.state.life sid = c.state.life sid := life_of_turn hr
  cases h with
  | quiet hne h => exact .quiet hne (h.trans hl)
  | suspended h => exact .suspended h
  | halfway hf h => exact .halfway (hf.within hr (F := Request.OfTurn sid) .refl) h

namespace Agent

variable (agent : Agent)

theorem handleToolInterrupt_settles (env : Env) (sid : SessionId) (interrupt : HitlInterrupt)
    (skillCtx : Option SkillContext) (c : Config Reply World) :
    Settles sid c ((handleToolInterrupt sid interrupt skillCtx).run (handle env) c).2
      ((handleToolInterrupt sid interrupt skillCtx).run (handle env) c).1 := by
  unfold handleToolInterrupt
  cases interrupt.kindJson.fromStr with
  | error e => exact .quiet (fun id kind h => by cases h) rfl
  | ok kind =>
    simp only [Prog.pure_eq, Prog.run_bind_ret, persistInterrupt_eq]
    have hspec := twoWrites_spec env sid (some (.ofValue (interruptedState interrupt kind skillCtx))) .interrupted c
    generalize (twoWrites sid (some (.ofValue (interruptedState interrupt kind skillCtx))) .interrupted).run
      (handle env) c = x at hspec ⊢
    obtain ⟨r, c'⟩ := x
    cases hspec with
    | done _ _ _ _ ha => exact .suspended ha
    | untouched _ ha => exact .quiet (fun id kind h => by cases h) ha
    | halfway _ _ hf _ ha => exact .halfway hf ha

theorem invoke_settles (env : Env) (userId : String) (sid : SessionId) (input : String) (c : Config Reply World) :
    Settles sid c ((agent.invoke userId sid input).run (handle env) c).2
      ((agent.invoke userId sid input).run (handle env) c).1 := by
  unfold invoke
  refine Prog.Only.run_bind (Φ := fun r c' => Settles sid c c' r) (agent.prepare_only userId input)
    (fun e c₁ h₁ => .quiet (fun id kind h => by cases h) (life_of_turn h₁)) fun p c₁ h₁ _ => ?_
  refine .of_turn h₁ (Prog.Only.run_bind (Φ := fun r c' => Settles sid c₁ c' r)
    (agent.runPrepared_only userId p) (fun e c₂ h₂ => .quiet (fun id kind h => by cases h) (life_of_turn h₂))
    fun outcome c₂ h₂ _ => ?_)
  cases outcome with
  | done text =>
    refine .of_turn h₂ (.quiet ?_ (life_of_turn ((agent.keepTurn_only userId p.input text).reaches c₂)))
    exact Prog.Meets.result (handle env) (c := c₂) (agent.keepTurn_done userId p.input text)
  | interrupted interrupt => exact .of_turn h₂ (handleToolInterrupt_settles env sid interrupt p.skillCtx c₂)

theorem continueRun_settles (env : Env) (sid : SessionId) (state : InterruptedState) (messages : List Message)
    (c : Config Reply World) :
    Settles sid c ((agent.continueRun sid state messages).run (handle env) c).2
      ((agent.continueRun sid state messages).run (handle env) c).1 := by
  have honly : (agent.runStrategy (agent.strategyForResume state.activeToolNames) messages state.activeToolNames
      (HitlContext.newForResume sid (state.skillContext.map (·.skillId)))).Only (Request.OfTurn sid) := by
    obtain ⟨kind, tools, n, hs, -⟩ := agent.strategyForResume_mayRun state.activeToolNames
    exact hs ▸ Prog.Only.mono (agent.runStrategy_only ..) fun _ h => h.ofTurn
  refine Prog.Only.run_bind (Φ := fun r c' => Settles sid c c' r) honly
    (fun e c₂ h₂ => .quiet (fun id kind h => by cases h) (life_of_turn h₂)) fun outcome c₂ h₂ _ => ?_
  refine .of_turn h₂ ?_
  cases outcome with
  | done text => exact .quiet (fun id kind h => by cases h) rfl
  | interrupted interrupt => exact handleToolInterrupt_settles env sid interrupt state.skillContext c₂

theorem resumeAct_only (resolved : Resolved) (decision : ApprovalDecision) :
    (agent.resumeAct sid resolved decision).Only (Request.OfCall sid) := by
  have hact : ∀ state history pending,
      (agent.resumeToolCallOrCheckpoint sid state decision history pending).Only (Request.OfCall sid) :=
    fun state history pending => Prog.Only.mono (agent.resumeToolCallOrCheckpoint_only ..) fun _ h =>
      h.imp_left Request.OfStrategy.ofTurn
  obtain ⟨state, payload⟩ := resolved
  unfold resumeAct
  cases state with
  | pendingPhaseGate id transitionJson =>
    exact Prog.Only.mono (agent.resumePhaseGate_only transitionJson decision) fun _ h => .inl h.ofTurn
  | pendingToolCall => cases payload <;> first | trivial | exact hact _ _ _
  | pendingCheckpoint => cases payload <;> first | trivial | exact hact _ _ _

/-- The decision taking effect. -/
theorem resumeAct_settles (env : Env) (sid : SessionId) (resolved : Resolved) (decision : ApprovalDecision)
    (c : Config Reply World) :
    Settles sid c ((agent.resumeAct sid resolved decision).run (handle env) c).2
      ((agent.resumeAct sid resolved decision).run (handle env) c).1 := by
  have hpanic : Settles sid c c (.error (.llm .panicked)) := .quiet (fun id kind h => by cases h) rfl
  have hact : ∀ state history pending, Settles sid c
      ((agent.resumeToolCallOrCheckpoint sid state decision history pending).run (handle env) c).2
      ((agent.resumeToolCallOrCheckpoint sid state decision history pending).run (handle env) c).1 :=
    fun state history pending => by
      refine Prog.Only.run_bind (Φ := fun r c' => Settles sid c c' r)
        (Prog.Only.mono (agent.observation_only ..) fun q h => (h.ofTurn : q.OfTurn sid))
        (fun e c₁ h₁ => .quiet (fun id kind h => by cases h) (life_of_turn h₁)) fun text c₁ h₁ _ => ?_
      exact .of_turn h₁ (agent.continueRun_settles env sid state _ c₁)
  obtain ⟨state, payload⟩ := resolved
  unfold resumeAct
  cases state with
  | pendingPhaseGate id transitionJson =>
    refine .quiet ?_ (life_of_turn
      (((agent.resumePhaseGate_only transitionJson decision).reaches c).mono fun _ h => h.ofTurn))
    exact Prog.Meets.result (handle env) (c := c) (agent.resumePhaseGate_done transitionJson decision)
  | pendingToolCall =>
    cases payload with
    | none => exact hpanic
    | some p => exact hact _ _ _
  | pendingCheckpoint =>
    cases payload with
    | none => exact hpanic
    | some p => exact hact _ _ _

end Agent

/-! ### A working database -/

/-- A statement that the database refused. -/
def refusedStatement : Event → Bool
  | ⟨.sql _, .error _⟩ => true
  | _ => false

/-- Between two configurations the database refused nothing. -/
def Answered (c c' : Config Reply World) : Prop :=
  ∃ t, c'.trace = c.trace ++ t ∧ ∀ x ∈ t, refusedStatement x = false

theorem Answered.not_failedWrite (h : Answered c c') : ¬ FailedWrite c c' := by
  rintro ⟨t', ht', x, hx, hw⟩
  obtain ⟨t, ht, hall⟩ := h
  obtain rfl := List.append_cancel_left (ht.symm.trans ht')
  have hx := hall x hx
  obtain ⟨q, r⟩ := x
  cases q with
  | sql st =>
    cases r with
    | error e => cases hx
    | ok r => cases hw
  | _ => cases hw

/-- What was answered in the course of a run was answered in its parts. -/
theorem Answered.parts {A F : Request → Prop} (h : Answered c c') (h₁ : Reaches (handle env) A c c₁)
    (h₂ : Reaches (handle env) F c₁ c') : Answered c c₁ ∧ Answered c₁ c' := by
  obtain ⟨t, ht, hall⟩ := h
  obtain ⟨t₁, ht₁, -⟩ := h₁.trace
  obtain ⟨t₂, ht₂, -⟩ := h₂.trace
  have hsplit : t = t₁ ++ t₂ := List.append_cancel_left (by rw [← ht, ht₂, ht₁, List.append_assoc])
  subst hsplit
  exact ⟨⟨t₁, ht₁, fun x hx => hall x (by simp [hx])⟩, ⟨t₂, ht₂, fun x hx => hall x (by simp [hx])⟩⟩

/-- The database did not refuse a statement that was answered. -/
theorem Answered.storeError {st : Statement} (h : Answered c (c.after (handle env) (.sql st))) :
    env.storeError c.state.steps = none := by
  obtain ⟨t, ht, hall⟩ := h
  cases hs : env.storeError c.state.steps with
  | none => rfl
  | some e =>
    rw [Config.after_trace, handle_sql_error _ hs] at ht
    have hmem := hall ⟨.sql st, .error e⟩ (by rw [← List.append_cancel_left ht]; exact List.mem_singleton_self _)
    cases hmem

/-- The first statement of a program that was answered throughout. -/
theorem Answered.ask {ε α : Type} {st : Statement} {k : Reply (.sql st) → M ε α}
    (h : Answered c ((Prog.ask (.sql st) k).run (handle env) c).2) : env.storeError c.state.steps = none ∧
      Answered (c.after (handle env) (.sql st))
        ((k (handle env (.sql st) c.state).1).run (handle env) (c.after (handle env) (.sql st))).2 := by
  have hfirst : Reaches (handle env) (fun _ => True) c (c.after (handle env) (.sql st)) := .step trivial .refl
  obtain ⟨h₁, h₂⟩ := h.parts hfirst ((Prog.only_true _).reaches _)
  exact ⟨h₁.storeError, h₂⟩

namespace Agent

/-- The owner of a session ends it, if the database works. -/
theorem endSession_completes {userId : String} (howns : c.state.owns userId sid)
    (hans : Answered c ((endSession userId sid).run (handle env) c).2) :
    ∃ l, c.state.life sid = some l ∧
      ((endSession userId sid).run (handle env) c).2.state.life sid = some ⟨.completed, l.pending⟩ := by
  obtain ⟨row, hrow, -⟩ := Option.map_eq_some_iff.mp howns
  have hlook : Reaches (handle env) Request.Idle c (c.after (handle env) (.sql (.selectSession sid))) :=
    .step trivial .refl
  have hread : env.storeError c.state.steps = none := by
    obtain ⟨k, hk, -⟩ := (assertOwner_checks userId sid).bind
      fun _ => sess (SessionManager.endSession sid) >>= fun _ => request (.cacheEvict userId sid)
    have hans' : Answered c ((endSession userId sid).run (handle env) c).2 := hans
    rw [endSession, hk] at hans'
    exact hans'.ask.1
  have hrun : (sess (SessionManager.assertOwner userId sid)).run (handle env) c = (.ok (), _) :=
    assertOwner_ok.mpr ⟨hread, howns, rfl⟩
  unfold endSession at hans ⊢
  rw [Prog.run_bind_ok _ hrun] at hans ⊢
  have hstore : (c.after (handle env) (.sql (.selectSession sid))).state.store = c.state.store :=
    Request.Idle.store (q := .sql (.selectSession sid)) trivial c.state
  have hlife : (c.after (handle env) (.sql (.selectSession sid))).state.store.row? sid = some row := by rwa [hstore]
  generalize c.after (handle env) (.sql (.selectSession sid)) = c₁ at *
  have hans₁ := (hans.parts hlook ((Prog.only_true _).reaches _)).2
  rw [Prog.run_bind, sess, Prog.run_mapErr, SessionManager.endSession] at hans₁ ⊢
  obtain ⟨-, hends⟩ := SessionMemory.updateStatus_spec env sid .completed c₁
  rcases hupdate : (SessionMemory.updateStatus sid .completed).run (handle env) c₁ with ⟨r, c₂⟩
  rw [hupdate] at hends hans₁
  rcases hends with ⟨rfl, -, row', hb, ha⟩ | ⟨e, rfl, ⟨-, hf⟩ | hnone, hk⟩
  · obtain rfl : row = row' := Option.some.inj (hlife.symm.trans hb)
    have hevict : ((c₂.after (handle env) (.cacheEvict userId sid)).state).life sid = c₂.state.life sid := rfl
    exact ⟨row.life, by rw [World.life, hrow]; rfl, hevict.trans (by rw [World.life, ha]; rfl)⟩
  · exact absurd hf hans₁.not_failedWrite
  · rw [hlife] at hnone
    cases hnone

end Agent

/-! ### New sessions -/

theorem numbered_after {q : Request} (h : w.Numbered) (hq : q.enrols = none) : (handle env q w).2.Numbered := by
  intro sid hsid
  have hold : w.store.row? sid = none := h sid ((handle_nextUuid q w).trans hsid)
  rw [Store.row?, List.find?_eq_none] at hold ⊢
  intro r hr hid
  rcases session_after hr with ⟨r', hr', hid', -⟩ | henrols
  · exact hold r' hr' (by rwa [hid'])
  · rw [hq] at henrols
    cases henrols

theorem numbered_of_reaches {A : Request → Prop} (hr : Reaches (handle env) A c c') (hA : ∀ q, A q → q.enrols = none)
    (h : c.state.Numbered) : c'.state.Numbered :=
  hr.preserves World.Numbered (fun q _ hq hw => numbered_after hw (hA q hq)) h

theorem Request.Idle.enrols {q : Request} (hq : q.Idle) : q.enrols = none := by
  cases q with
  | sql st => cases st <;> first | rfl | exact hq.elim
  | _ => rfl

theorem Request.OfStrategy.enrols {q : Request} (hq : q.OfStrategy) : q.enrols = none := by
  cases q <;> first | rfl | exact hq.elim

theorem Request.OfCall.enrols {q : Request} (hq : q.OfCall sid) : q.enrols = none := by
  cases q with
  | sql st =>
    cases st with
    | insertSession row =>
      rcases hq with (hq | hq) | ⟨x, status, hq⟩
      · exact hq.elim
      · exact hq.elim
      · exact hq.elim
    | _ => rfl
  | _ => rfl

namespace Agent

variable (agent : Agent)

theorem createWith_numbered (env : Env) (hw : c.state.Numbered) (userId : String)
    (ctx : Option (JsonText SkillContext)) :
    ((SessionMemory.createWith userId ctx).run (handle env) c).2.state.Numbered := by
  obtain ⟨hnext, hother, -⟩ := SessionMemory.createWith_spec env userId ctx c
  intro s hs
  have hlt : c.state.nextUuid < s := Nat.lt_of_lt_of_le hnext hs
  rw [hother s (Nat.ne_of_gt hlt)]
  exact hw s (Nat.le_of_lt hlt)

theorem createSession_state (env : Env) (userId : String) (c : Config Reply World) :
    ((createSession userId).run (handle env) c).2 = ((SessionMemory.createWith userId none).run (handle env) c).2 := by
  simp only [createSession, sess, SessionManager.createSession, SessionMemory.create, Prog.pure_eq,
    Prog.run_mapErr, Prog.run_bind_ret]

/-- Creating a session with a skill creates one, or changes nothing but the time. -/
theorem createSessionWithSkill_state (env : Env) (userId : String) (skillId : SkillId) (c : Config Reply World) :
    ∃ c₁, Reaches (handle env) Request.Idle c c₁ ∧
      (((agent.createSessionWithSkill userId skillId).run (handle env) c).2 = c₁ ∨
        ∃ ctx, ((agent.createSessionWithSkill userId skillId).run (handle env) c).2 =
          ((SessionMemory.createWith userId (some ctx)).run (handle env) c₁).2) := by
  unfold createSessionWithSkill
  cases agent.skills with
  | none => exact ⟨c, .refl, .inl rfl⟩
  | some cfg =>
    simp only [request, Prog.perform_bind, Prog.run_ask]
    refine ⟨c.after (handle env) .readSkills, .step trivial .refl, ?_⟩
    cases (handle env .readSkills c.state).1.compileContext skillId with
    | error e => exact .inl rfl
    | ok ctx =>
      refine .inr ⟨.ofValue ctx, ?_⟩
      simp only [sess, SessionManager.createSessionWithSkillContext, SessionMemory.createWithSkillContext,
        Prog.pure_eq, Prog.run_mapErr, Prog.run_bind_ret]

/-- `delete_all_user_data` deletes the sessions that it has listed. -/
theorem deleteAll_only {A : Request → Prop} (userId : String) {sessions : List Session}
    (hdelete : ∀ session ∈ sessions, A (.sql (.deleteSession session.id)))
    (hevict : ∀ session ∈ sessions, A (.cacheEvict userId session.id)) : (deleteAll userId sessions).Only A := by
  induction sessions with
  | nil => trivial
  | cons session sessions ih =>
    refine Prog.Only.bind (sess_only (query_only (hdelete session (List.mem_cons_self ..)))) fun _ => ?_
    refine Prog.Only.bind (request_only (hevict session (List.mem_cons_self ..))) fun _ => ?_
    exact ih (fun s hs => hdelete s (List.mem_cons_of_mem _ hs)) fun s hs => hevict s (List.mem_cons_of_mem _ hs)

/-- No call adds a session under an id that is still to be drawn. -/
theorem program_numbered (env : Env) (call : ApiCall) (hw : w.Numbered) :
    ((agent.program call).run (handle env) ⟨w, []⟩).2.state.Numbered := by
  have hmap : ∀ {α β : Type} {p : M AgentError α} {f : α → β}, (p.run (handle env) ⟨w, []⟩).2.state.Numbered →
      ((p >>= fun a => .ret (f a)).run (handle env) ⟨w, []⟩).2.state.Numbered := by
    intro α β p f h
    rw [Prog.run_bind_ret]
    exact h
  have hnone : ∀ {α : Type} {p : M AgentError α}, p.Only (fun q => q.enrols = none) →
      (p.run (handle env) ⟨w, []⟩).2.state.Numbered :=
    fun honly => numbered_of_reaches (honly.reaches _) (fun _ h => h) hw
  cases call with
  | createSession userId =>
    refine hmap ?_
    rw [createSession_state]
    exact createWith_numbered env hw userId none
  | createSessionWithSkill userId skillId =>
    refine hmap ?_
    obtain ⟨c₁, hr, hstate⟩ := agent.createSessionWithSkill_state env userId skillId ⟨w, []⟩
    have hw₁ : c₁.state.Numbered := numbered_of_reaches hr (fun _ h => h.enrols) hw
    rcases hstate with hstate | ⟨ctx, hstate⟩
    · rwa [hstate]
    · rw [hstate]
      exact createWith_numbered env hw₁ userId (some ctx)
  | invoke userId s input => exact hmap (hnone (Prog.Only.mono (agent.invoke_only userId input) fun _ h => h.enrols))
  | resume userId s id decision =>
    exact hmap (hnone (Prog.Only.mono (agent.resume_only userId id decision) fun _ h => h.enrols))
  | advancePhase userId s output =>
    exact hmap (hnone (Prog.Only.mono (agent.advancePhase_only userId output) fun _ h => h.enrols))
  | endSession userId s =>
    exact hmap (f := fun _ => ApiResult.unit) (hnone (Prog.Only.mono (endSession_only userId) fun _ h => h.enrols))
  | invokeStateless input =>
    exact hmap (hnone (Prog.Only.mono (agent.invokeStateless_only input) fun _ h => h.enrols))
  | deleteAllUserData userId =>
    refine hmap (f := fun _ => ApiResult.unit) (hnone (Prog.Only.bind (sess_only (query_only rfl)) fun sessions => ?_))
    exact deleteAll_only userId (fun _ _ => rfl) fun _ _ => rfl
  | resolve id decision => exact hmap (hnone (request_only rfl))
  | sweepExpired => exact hmap (f := fun _ => ApiResult.unit) (hnone (request_only rfl))
  | checkTool ctx name args =>
    exact hmap (hnone (infallible_any (Prog.Meets.mono (checkTool_meets (W := fun _ => False) ctx name args)
      (fun _ _ h => h) (fun _ h => h.1.enrols) fun _ _ => trivial)))
  | cleanup cfg =>
    exact hmap (f := fun _ => ApiResult.unit) (hnone (Prog.Only.attempt (CleanupWorker.tick_only rfl (fun _ => rfl)
      (fun _ => rfl) (fun _ => rfl) fun _ _ _ => rfl)))

/-- A session whose id is drawn already is none that is created. -/
theorem createWith_spares (env : Env) (hsid : sid < c.state.nextUuid) (userId : String)
    (ctx : Option (JsonText SkillContext)) :
    ((SessionMemory.createWith userId ctx).run (handle env) c).2.state.life sid = c.state.life sid := by
  obtain ⟨-, hother, -⟩ := SessionMemory.createWith_spec env userId ctx c
  exact congrArg (Option.map SessionRow.life) (hother sid (Nat.ne_of_lt hsid))

theorem deleteAllUserData_spares (env : Env) {userId : String}
    (hforeign : ∀ row ∈ w.store.sessions, row.userId = userId → row.id ≠ sid) :
    ((deleteAllUserData userId).run (handle env) ⟨w, []⟩).2.state.life sid = w.life sid := by
  unfold deleteAllUserData
  rw [Prog.run_bind, sess, Prog.run_mapErr, SessionMemory.listByUser, run_query]
  have hlist : Reaches (handle env) Request.Idle ⟨w, []⟩
      ((⟨w, []⟩ : Config Reply World).after (handle env) (.sql (.selectByUser userId))) := .step trivial .refl
  have hlife : _ = w.life sid := idle_life hlist
  generalize (⟨w, []⟩ : Config Reply World).after (handle env) (.sql (.selectByUser userId)) = c₁ at *
  cases hs : env.storeError w.steps with
  | some e => rw [handle_sql_error _ hs]; exact hlife
  | none =>
    rw [handle_sql_ok _ hs]
    have honly : (deleteAll userId (w.store.sessionsOf userId)).Only (Request.Keeps SessionRow.life sid) := by
      refine deleteAll_only userId (fun session hsession => ?_) fun _ _ => trivial
      obtain ⟨row, hrow, rfl⟩ := List.mem_map.mp ((List.mem_insertionSort _).mp hsession)
      obtain ⟨hrow, hu⟩ := List.mem_filter.mp hrow
      exact hforeign row hrow (of_decide_eq_true hu)
    have hr : Reaches (handle env) _ c₁ _ := honly.reaches c₁
    exact (keeps_of_reaches hr fun _ h => h).trans hlife

end Agent

/-- A call is not given the session and deletes nothing of it. -/
def ApiCall.Spares (env : Env) (w : World) (sid : SessionId) : ApiCall → Prop
  | .deleteAllUserData userId => ∀ row ∈ w.store.sessions, row.userId = userId → row.id ≠ sid
  | .cleanup cfg => ∀ row ∈ w.store.row? sid, cfg.cutoff env w ≤ row.updatedAt
  | call => call.session? ≠ some sid

/-- A call leaves a session alone that it spares, if the id of the session is drawn. -/
theorem Agent.program_spares (agent : Agent) {call : ApiCall} (hsid : sid < w.nextUuid)
    (hspares : call.Spares env w sid) :
    ((agent.program call).run (handle env) ⟨w, []⟩).2.state.life sid = w.life sid := by
  have hmap : ∀ {α β : Type} {p : M AgentError α} {f : α → β}, (p.run (handle env) ⟨w, []⟩).2.state.life sid = w.life sid →
      ((p >>= fun a => .ret (f a)).run (handle env) ⟨w, []⟩).2.state.life sid = w.life sid := by
    intro α β p f h
    rw [Prog.run_bind_ret]
    exact h
  have hcall : ∀ {α : Type} {p : M AgentError α} {s : SessionId}, p.Only (Request.OfCall s) → s ≠ sid →
      (p.run (handle env) ⟨w, []⟩).2.state.life sid = w.life sid :=
    fun honly hne => keeps_of_reaches (honly.reaches ⟨w, []⟩) fun _ h => h.keeps_other hne
  have hfree : ∀ {α : Type} {p : M AgentError α}, p.Only (Request.Keeps SessionRow.life sid) →
      (p.run (handle env) ⟨w, []⟩).2.state.life sid = w.life sid :=
    fun honly => keeps_of_reaches (honly.reaches ⟨w, []⟩) fun _ h => h
  cases call with
  | invoke userId s input => exact hmap (hcall (agent.invoke_only userId input) fun h => hspares (by rw [h]; rfl))
  | resume userId s id decision =>
    exact hmap (hcall (agent.resume_only userId id decision) fun h => hspares (by rw [h]; rfl))
  | advancePhase userId s output =>
    exact hmap (hcall (agent.advancePhase_only userId output) fun h => hspares (by rw [h]; rfl))
  | endSession userId s =>
    exact hmap (f := fun _ => ApiResult.unit) (hcall (endSession_only userId) fun h => hspares (by rw [h]; rfl))
  | createSession userId =>
    refine hmap ?_
    rw [createSession_state]
    exact createWith_spares env (c := ⟨w, []⟩) hsid userId none
  | createSessionWithSkill userId skillId =>
    refine hmap ?_
    obtain ⟨c₁, hr, hstate⟩ := agent.createSessionWithSkill_state env userId skillId ⟨w, []⟩
    rcases hstate with hstate | ⟨ctx, hstate⟩
    · rw [hstate]
      exact idle_life hr
    · rw [hstate]
      exact (createWith_spares env (Nat.lt_of_lt_of_le hsid (nextUuid_le hr)) userId (some ctx)).trans (idle_life hr)
  | invokeStateless input =>
    exact hmap (hfree (Prog.Only.mono (agent.invokeStateless_only input) fun _ h => h.keeps))
  | deleteAllUserData userId => exact hmap (f := fun _ => ApiResult.unit) (deleteAllUserData_spares env hspares)
  | resolve id decision => exact hmap (hfree (request_only trivial))
  | sweepExpired => exact hmap (f := fun _ => ApiResult.unit) (hfree (request_only trivial))
  | checkTool ctx name args =>
    exact hmap (hfree (infallible_any (Prog.Meets.mono (checkTool_meets (W := fun _ => False) ctx name args)
      (fun _ _ h => h) (fun _ h => h.1.keeps) fun _ _ => trivial)))
  | cleanup cfg =>
    refine hmap (f := fun _ => ApiResult.unit) ?_
    rw [Prog.run_attempt]
    exact congrArg (Option.map SessionRow.life) (cleanup_keeps env cfg w hspares)

end AgentVerse
