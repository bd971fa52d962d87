import AgentVerse.Agent.Invocation
import AgentVerse.Agent.Resumption

/-!
# How calls suspend and resume a session

What `invoke`, `resume` and `advance_phase` do to the status and the pending interrupt of a session, as one relation
between the configurations before and after (`Suspends`). Other sessions are not touched.
-/

namespace AgentVerse

open Effects

variable {env : Env} {c c' c₁ : Config Reply World} {sid : SessionId}

/-- How a call that may suspend session `sid` ends. -/
inductive Suspends {α : Type} (sid : SessionId) (c c' : Config Reply World) (r : Except AgentError α) : Prop where
  /-- Status and pending interrupt are as before. -/
  | quiet (h : c'.state.life sid = c.state.life sid)
  /-- The session is suspended. -/
  | suspended {l : Life} {state : InterruptedState} (hb : c.state.life sid = some l)
      (h : c'.state.life sid = some ⟨.interrupted, some (.ofValue state)⟩) (hr : ∃ a, r = .ok a)
  /-- The status could not be written. -/
  | halfway {l : Life} {state : InterruptedState} (hf : FailedWrite c c') (hb : c.state.life sid = some l)
      (h : c'.state.life sid = some ⟨l.status, some (.ofValue state)⟩) (he : ∃ e, r = .error e)

/-- A call may do something quiet first. -/
theorem Suspends.of_turn {α : Type} {r : Except AgentError α}
    (hr : Reaches (handle env) (Request.OfTurn sid) c c₁) (h : Suspends sid c₁ c' r) : Suspends sid c c' r := by
  have hl : c₁.state.life sid = c.state.life sid := life_of_turn hr
  cases h with
  | quiet h => exact .quiet (h.trans hl)
  | suspended hb h hr => exact .suspended (hl ▸ hb) h hr
  | halfway hf hb h he => exact .halfway (hf.within hr (F := Request.OfTurn sid) .refl) (hl ▸ hb) h he

theorem Suspends.map {α β : Type} {r : Except AgentError α} (f : α → β) (h : Suspends sid c c' r) :
    Suspends sid c c' (r.map f) := by
  cases h with
  | quiet h => exact .quiet h
  | suspended hb h hr => obtain ⟨a, rfl⟩ := hr; exact .suspended hb h ⟨f a, rfl⟩
  | halfway hf hb h he => obtain ⟨e, rfl⟩ := he; exact .halfway hf hb h ⟨e, rfl⟩

theorem persistInterrupt_suspends (env : Env) (sid : SessionId) (state : InterruptedState)
    (c : Config Reply World) :
    Suspends sid c ((Agent.persistInterrupt sid state).run (handle env) c).2
      ((Agent.persistInterrupt sid state).run (handle env) c).1 := by
  rw [persistInterrupt_eq]
  cases hr : ((twoWrites sid (some (.ofValue state)) .interrupted).run (handle env) c).1 with
  | ok u =>
    cases hr ▸ twoWrites_spec env sid (some (.ofValue state)) .interrupted c with
    | done _ _ _ hb ha => exact .suspended hb ha ⟨_, rfl⟩
  | error e =>
    cases hr ▸ twoWrites_spec env sid (some (.ofValue state)) .interrupted c with
    | untouched hf ha => exact .quiet ha
    | halfway _ _ hf hb ha => exact .halfway hf hb ha ⟨_, rfl⟩

namespace Agent

variable (agent : Agent)

theorem handleToolInterrupt_suspends (env : Env) (sid : SessionId) (interrupt : HitlInterrupt)
    (skillCtx : Option SkillContext) (c : Config Reply World) :
    Suspends sid c ((handleToolInterrupt sid interrupt skillCtx).run (handle env) c).2
      ((handleToolInterrupt sid interrupt skillCtx).run (handle env) c).1 := by
  unfold handleToolInterrupt
  cases interrupt.kindJson.fromStr with
  | error e => exact .quiet rfl
  | ok kind =>
    simp only [Prog.pure_eq, Prog.run_bind_ret]
    exact (persistInterrupt_suspends env sid (interruptedState interrupt kind skillCtx) c).map _

/-- An invocation suspends its session or leaves it as it was. -/
theorem invoke_suspends (env : Env) (userId : String) (sid : SessionId) (input : String)
    (c : Config Reply World) :
    Suspends sid c ((agent.invoke userId sid input).run (handle env) c).2
      ((agent.invoke userId sid input).run (handle env) c).1 := by
  have hrun := agent.invoke_run env userId sid input c
  generalize (agent.invoke userId sid input).run (handle env) c = x at hrun ⊢
  cases hrun with
  | ended hr => exact .quiet (life_of_turn hr)
  | @interrupted p c₁ c₂ interrupt hp hrun =>
    have hr := (agent.runPrepared_only (s := sid) userId p).reaches (h := handle env) c₁
    rw [hrun] at hr
    exact .of_turn ((agent.prepare_ok hp).2.2.2.trans hr)
      (handleToolInterrupt_suspends env sid interrupt p.skillCtx c₂)

/-- A resumed run suspends its session again or leaves it as it was. -/
theorem continueRun_suspends (env : Env) (sid : SessionId) (state : InterruptedState) (messages : List Message)
    (c : Config Reply World) :
    Suspends sid c ((agent.continueRun sid state messages).run (handle env) c).2
      ((agent.continueRun sid state messages).run (handle env) c).1 := by
  have honly : (agent.runStrategy (agent.strategyForResume state.activeToolNames) messages state.activeToolNames
      (HitlContext.newForResume sid (state.skillContext.map (·.skillId)))).Only (Request.OfTurn sid) := by
    obtain ⟨kind, tools, n, hs, -⟩ := agent.strategyForResume_mayRun state.activeToolNames
    exact hs ▸ Prog.Only.mono (agent.runStrategy_only ..) fun _ h => h.ofTurn
  refine Prog.Only.run_bind (Φ := fun r c' => Suspends sid c c' r) honly
    (fun e c₂ h₂ => .quiet (life_of_turn h₂)) fun outcome c₂ h₂ _ => ?_
  refine .of_turn h₂ ?_
  cases outcome with
  | done text => exact .quiet rfl
  | interrupted interrupt => exact handleToolInterrupt_suspends env sid interrupt state.skillContext c₂

/-- The decision taking effect suspends the session again or leaves it as it was. -/
theorem resumeAct_suspends (env : Env) (sid : SessionId) (resolved : Resolved) (decision : ApprovalDecision)
    (c : Config Reply World) :
    Suspends sid c ((agent.resumeAct sid resolved decision).run (handle env) c).2
      ((agent.resumeAct sid resolved decision).run (handle env) c).1 := by
  have hact : ∀ state history pending, Suspends sid c
      ((agent.resumeToolCallOrCheckpoint sid state decision history pending).run (handle env) c).2
      ((agent.resumeToolCallOrCheckpoint sid state decision history pending).run (handle env) c).1 :=
    fun state history pending => by
      refine Prog.Only.run_bind (Φ := fun r c' => Suspends sid c c' r)
        (Prog.Only.mono (agent.observation_only ..) fun q h => (h.ofTurn : q.OfTurn sid))
        (fun e c₁ h₁ => .quiet (life_of_turn h₁)) fun text c₁ h₁ _ => ?_
      exact .of_turn h₁ (agent.continueRun_suspends env sid state _ c₁)
  obtain ⟨state, payload⟩ := resolved
  unfold resumeAct
  cases state with
  | pendingPhaseGate id transitionJson =>
    exact .quiet (life_of_turn (((agent.resumePhaseGate_only transitionJson decision).reaches c).mono fun _ h => h.ofTurn))
  | pendingToolCall =>
    cases payload with
    | none => exact .quiet rfl
    | some p => exact hact _ _ _
  | pendingCheckpoint =>
    cases payload with
    | none => exact .quiet rfl
    | some p => exact hact _ _ _

/-! ### Ownership -/

theorem invoke_refused {userId : String} (h : ¬ c.state.owns userId sid) (input : String) :
    Reaches (handle env) Request.Idle c ((agent.invoke userId sid input).run (handle env) c).2 := by
  unfold invoke prepare
  rw [Prog.bind_assoc]
  exact refused_of_not_owns h _

/-! ### Phases -/

/-- The skill at whose phase gate a transition of the session would be stopped. -/
def gateAt (w : World) (sid : SessionId) : Option SkillId :=
  match agent.hitl with
  | some policy => (w.store.row? sid).bind fun row => gatedSkill policy row.skillContextJson
  | none => none

theorem phaseGate_spec {gate : Option SkillId}
    (h : (agent.phaseGate sid).run (handle env) c = (.ok gate, c')) : gate = agent.gateAt c.state sid := by
  unfold phaseGate at h
  unfold gateAt
  cases hh : agent.hitl with
  | none => rw [hh] at h; cases h; rfl
  | some policy =>
    rw [hh] at h
    dsimp only at h
    rw [Prog.run_bind, sess, Prog.run_mapErr, SessionMemory.getSkillContext, Prog.run_bind, run_query] at h
    cases hs : env.storeError c.state.steps with
    | some e => rw [handle_sql_error _ hs] at h; cases h
    | none =>
      rw [handle_sql_ok _ hs] at h
      simp only [Statement.exec, Except.mapError] at h
      cases hrow : c.state.store.row? sid with
      | none => rw [hrow] at h; cases h
      | some row => rw [hrow] at h; cases h; rfl

/-- A transition is stopped at the gate of the current skill, or applied without a suspension. -/
inductive AdvanceRun (env : Env) (userId : String) (sid : SessionId) (output : String) (c c' : Config Reply World)
    (r : Except AgentError (Option PhaseAdvanceResult)) : Prop where
  | passed (hr : Reaches (handle env) (Request.OfPhase sid) c c')
  | gated {c₁ : Config Reply World} (howns : c.state.owns userId sid)
      (hparse : (parsePhaseTransition output).isSome)
      (hgate : (agent.gateAt c.state sid).isSome) (hr : Reaches (handle env) (Request.OfTurn sid) c c₁)
      (hs : Suspends sid c₁ c' r)

theorem advancePhase_run (env : Env) (userId : String) (sid : SessionId) (output : String)
    (c : Config Reply World) :
    agent.AdvanceRun env userId sid output c ((agent.advancePhase userId sid output).run (handle env) c).2
      ((agent.advancePhase userId sid output).run (handle env) c).1 := by
  refine Prog.Only.run_bind (Φ := fun r c' => agent.AdvanceRun env userId sid output c c' r)
    (sess_only (SessionManager.assertOwner_only (A := Request.Idle) trivial))
    (fun e c₁ h₁ => .passed (h₁.mono fun _ h => h.ofPhase)) fun _ c₁ h₁ hown => ?_
  have howns : c.state.owns userId sid := (assertOwner_ok.mp hown).2.1
  cases hparse : parsePhaseTransition output with
  | none => exact .passed (h₁.mono fun _ h => h.ofPhase)
  | some transition =>
    refine Prog.Only.run_bind (Φ := fun r c' => agent.AdvanceRun env userId sid output c c' r)
      agent.phaseGate_only (fun e c₂ h₂ => .passed ((h₁.trans h₂).mono fun _ h => h.ofPhase))
      fun gate c₂ h₂ hrun => ?_
    have h₁₂ := h₁.trans h₂
    have hgate : gate = agent.gateAt c.state sid := by
      rw [agent.phaseGate_spec hrun, gateAt, gateAt, h₁.frame (·.store) fun q w hq => hq.store w]
    cases gate with
    | none =>
      refine .passed ((h₁₂.mono fun _ h => h.ofPhase).trans ?_)
      exact (Prog.Only.bind (f := fun _ => Prog.ret (some (PhaseAdvanceResult.advanced transition)))
        (agent.applyTransition_only (s := sid) _ transition) fun _ => trivial).reaches c₂
    | some skillId =>
      refine .gated howns (by simp [hparse]) (by rw [← hgate]; rfl) (h₁₂.mono fun _ h => h.ofTurn) ?_
      simp only [Prog.pure_eq, Prog.run_bind_ret, suspendAtGate, Prog.run_ask]
      have hsub : Reaches (handle env) (Request.OfTurn sid) c₂ (c₂.after (handle env) (.submit sid
          (.phaseGate skillId transition.nextSkill transition.deliverable))) := .step (.inr trivial) .refl
      refine .of_turn hsub ?_
      generalize c₂.after (handle env) (.submit sid
        (.phaseGate skillId transition.nextSkill transition.deliverable)) = c₃
      cases (handle env (.submit sid (.phaseGate skillId transition.nextSkill transition.deliverable))
          c₂.state).1 with
      | error e => exact .quiet rfl
      | ok approvalId =>
        simp only [Prog.run_bind_ret]
        exact ((persistInterrupt_suspends env sid (.pendingPhaseGate approvalId (.ofValue transition)) c₃).map _).map _

/-! ### Calls on other sessions -/

theorem handleToolInterrupt_only (interrupt : HitlInterrupt) (skillCtx : Option SkillContext) :
    (handleToolInterrupt sid interrupt skillCtx).Only fun q => ∃ x status, q.OfWrites sid x status := by
  unfold handleToolInterrupt
  split
  · trivial
  · exact Prog.Only.bind (Prog.Only.mono (twoWrites_only ..) fun _ h => ⟨_, _, h⟩) fun _ => trivial

theorem invoke_only (userId input : String) : (agent.invoke userId sid input).Only (Request.OfCall sid) := by
  refine Prog.Only.bind (Prog.Only.mono (agent.prepare_only userId input) fun _ h => .inl h) fun p => ?_
  refine Prog.Only.bind (Prog.Only.mono (agent.runPrepared_only userId p) fun _ h => .inl h) fun outcome => ?_
  cases outcome with
  | done text => exact Prog.Only.mono (agent.keepTurn_only ..) fun _ h => .inl h
  | interrupted interrupt => exact Prog.Only.mono (handleToolInterrupt_only interrupt _) fun _ h => .inr h

/-- A continued run runs a strategy and may suspend the session. -/
theorem resumeToolCallOrCheckpoint_only (state : InterruptedState) (decision : ApprovalDecision)
    (history : List Message) (pending : List ToolCall) :
    (agent.resumeToolCallOrCheckpoint sid state decision history pending).Only
      fun q => q.OfStrategy ∨ ∃ x status, q.OfWrites sid x status := by
  refine Prog.Only.bind (Prog.Only.mono (agent.observation_only ..) fun _ h => .inl h) fun text => ?_
  refine Prog.Only.bind (Prog.Only.mono ?_ fun _ h => .inl h) fun outcome => ?_
  · obtain ⟨kind, tools, n, hs, -⟩ := agent.strategyForResume_mayRun state.activeToolNames
    exact hs ▸ agent.runStrategy_only ..
  · cases outcome with
    | done text => trivial
    | interrupted interrupt => exact Prog.Only.mono (handleToolInterrupt_only interrupt _) fun _ h => .inr h

theorem resume_resumes (userId : String) (approvalId : ApprovalId) (decision : ApprovalDecision) :
    (agent.resume userId sid approvalId decision).Only (Request.OfResume sid) := by
  refine Prog.Only.bind (Prog.Only.mono (resumeChecks_reads ..) fun _ h => .inr (.inl (.inl h))) fun resolved => ?_
  refine Prog.Only.bind (Prog.Only.mono (twoWrites_only ..) fun _ h => .inr (.inr ⟨_, _, h⟩)) fun _ => ?_
  have hact : ∀ state history pending,
      (agent.resumeToolCallOrCheckpoint sid state decision history pending).Only (Request.OfResume sid) :=
    fun state history pending => Prog.Only.mono (agent.resumeToolCallOrCheckpoint_only ..) fun _ h =>
      h.imp_right .inr
  obtain ⟨state, payload⟩ := resolved
  unfold resumeAct
  cases state with
  | pendingPhaseGate id transitionJson =>
    exact Prog.Only.mono (agent.resumePhaseGate_binds ..) fun _ h => .inr (.inl h)
  | pendingToolCall => cases payload <;> first | trivial | exact hact _ _ _
  | pendingCheckpoint => cases payload <;> first | trivial | exact hact _ _ _

theorem resume_only (userId : String) (approvalId : ApprovalId) (decision : ApprovalDecision) :
    (agent.resume userId sid approvalId decision).Only (Request.OfCall sid) :=
  Prog.Only.mono (agent.resume_resumes ..) fun _ h => h.ofCall

theorem advancePhase_advances (userId output : String) :
    (agent.advancePhase userId sid output).Only (Request.OfResume sid) := by
  refine Prog.Only.bind (sess_only (SessionManager.assertOwner_only (.inr (.inl (.inl trivial))))) fun _ => ?_
  split
  · trivial
  · refine Prog.Only.bind (Prog.Only.mono agent.phaseGate_reads fun _ h => .inr (.inl (.inl h))) fun gate => ?_
    cases gate with
    | none =>
      exact Prog.Only.bind (Prog.Only.mono (agent.applyTransition_binds ..) fun _ h => .inr (.inl h)) fun _ => trivial
    | some skillId =>
      refine Prog.Only.bind (p := suspendAtGate sid skillId _) ⟨.inl trivial, fun r _ => ?_⟩ fun _ => trivial
      cases r with
      | error e => trivial
      | ok approvalId =>
        exact Prog.Only.bind (Prog.Only.mono (twoWrites_only ..) fun _ h => .inr (.inr ⟨_, _, h⟩)) fun _ => trivial

theorem advancePhase_only (userId output : String) :
    (agent.advancePhase userId sid output).Only (Request.OfCall sid) :=
  Prog.Only.mono (agent.advancePhase_advances ..) fun _ h => h.ofCall

theorem endSession_only (userId : String) : (endSession userId sid).Only (Request.OfCall sid) := by
  refine Prog.Only.bind (sess_only (SessionManager.assertOwner_only (.inl (.inl trivial)))) fun _ => ?_
  refine Prog.Only.bind (sess_only (SessionMemory.updateStatus_only (.inl (.inl trivial)) fun _ =>
    .inr ⟨none, .completed, rfl, rfl⟩)) fun _ => request_only (.inl (.inl trivial))

end Agent

end AgentVerse
