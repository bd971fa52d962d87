import AgentVerse.Agent.Interrupt
import AgentVerse.Agent.Invoke
import AgentVerse.Agent.StrategyFootprint

/-!
# Footprints of calls

The requests that the stages of `invoke`, `resume` and `advance_phase` make apart from the two writes of an
interrupt, and what these requests leave alone: the status and the pending interrupt of every session.
-/

namespace AgentVerse

open Effects

variable {env : Env} {c : Config Reply World}

namespace Request

/-- The requests of a turn of session `sid`, apart from the writes of an interrupt. -/
def OfTurn (sid : SessionId) : Request → Prop
  | .sql (.updatePhaseOpening s _) => s = sid
  | .sql (.updateSkillContext s _) => s = sid
  | .sql (.updatePhaseTransition s _ _) => s = sid
  | .sql (.appendMessages s _ _) => s = sid
  | q => q.Idle ∨ q.OfStrategy

theorem Idle.ofTurn {sid : SessionId} {q : Request} (hq : q.Idle) : q.OfTurn sid := by
  cases q with
  | sql st => cases st <;> first | exact hq.elim | exact .inl trivial
  | _ => first | exact hq.elim | exact .inl trivial

theorem OfStrategy.ofTurn {sid : SessionId} {q : Request} (hq : q.OfStrategy) : q.OfTurn sid := by
  cases q with
  | sql st => exact hq.elim
  | _ => first | exact hq.elim | exact .inr trivial

theorem OfTurn.keeps {β : Type} {π : SessionRow → β} {sid sid' : SessionId} {q : Request} (hq : q.OfTurn sid)
    (hphase : sid = sid' → ∀ row x, π { row with phaseOpeningContext := x } = π row)
    (hskill : sid = sid' → ∀ row x, π { row with skillContextJson := x } = π row) : q.Keeps π sid' := by
  cases q with
  | sql st =>
    cases st with
    | updatePhaseOpening s x =>
      cases hq
      intro s' f hf hs row
      simp only [Statement.update?, Option.some.injEq, Prod.mk.injEq] at hf
      obtain ⟨rfl, rfl⟩ := hf
      exact hphase hs row x
    | updateSkillContext s x =>
      cases hq
      intro s' f hf hs row
      simp only [Statement.update?, Option.some.injEq, Prod.mk.injEq] at hf
      obtain ⟨rfl, rfl⟩ := hf
      exact hskill hs row x
    | updatePhaseTransition s ctx phaseCtx =>
      cases hq
      intro s' f hf hs row
      simp only [Statement.update?, Option.some.injEq, Prod.mk.injEq] at hf
      obtain ⟨rfl, rfl⟩ := hf
      exact (hphase hs { row with skillContextJson := some ctx } (some phaseCtx)).trans (hskill hs row (some ctx))
    | appendMessages s ms now => intro s' f hf; simp [Statement.update?] at hf
    | _ => exact (hq.elim id fun h => h.elim).keeps
  | _ => trivial

/-- The requests that look at a session and bind it to its next skill. -/
def OfPhase (sid : SessionId) : Request → Prop
  | .sql (.updatePhaseTransition s _ _) => s = sid
  | q => q.Idle

theorem Idle.ofPhase {sid : SessionId} {q : Request} (hq : q.Idle) : q.OfPhase sid := by
  cases q with
  | sql st => cases st <;> first | exact hq.elim | exact trivial
  | _ => first | exact hq.elim | exact trivial

theorem OfPhase.ofTurn {sid : SessionId} {q : Request} (hq : q.OfPhase sid) : q.OfTurn sid := by
  cases q with
  | sql st => cases st <;> first | exact hq | exact .inl hq | exact hq.elim
  | _ => exact .inl hq

theorem Idle.dispatch {q : Request} (hq : q.Idle) : q.dispatch? = none := by
  cases q <;> first | rfl | exact hq.elim

theorem OfPhase.dispatch {sid : SessionId} {q : Request} (hq : q.OfPhase sid) : q.dispatch? = none := by
  cases q <;> first | rfl | exact hq.elim

/-- The requests that look at a session and bind it to its next skill, none of which touches the cache. -/
def OfTransition (sid : SessionId) (q : Request) : Prop :=
  q.Reads ∨ ∃ ctx phaseCtx, q = .sql (.updatePhaseTransition sid ctx phaseCtx)

theorem OfTransition.ofPhase {sid : SessionId} {q : Request} (hq : q.OfTransition sid) : q.OfPhase sid := by
  rcases hq with hq | ⟨ctx, phaseCtx, rfl⟩
  · exact hq.idle.ofPhase
  · rfl

/-- The requests of `resume` and `advance_phase`. -/
def OfResume (sid : SessionId) (q : Request) : Prop :=
  q.OfStrategy ∨ q.OfTransition sid ∨ ∃ x status, q.OfWrites sid x status

/-- The requests of a call on session `sid`. -/
def OfCall (sid : SessionId) (q : Request) : Prop :=
  q.OfTurn sid ∨ ∃ x status, q.OfWrites sid x status

theorem OfResume.ofCall {sid : SessionId} {q : Request} (hq : q.OfResume sid) : q.OfCall sid := by
  rcases hq with hq | hq | hq
  · exact .inl hq.ofTurn
  · exact .inl hq.ofPhase.ofTurn
  · exact .inr hq

/-- A call touches the row of its own session only. -/
theorem OfCall.keeps_other {β : Type} {π : SessionRow → β} {sid sid' : SessionId} {q : Request}
    (hq : q.OfCall sid) (hne : sid ≠ sid') : q.Keeps π sid' := by
  rcases hq with hq | ⟨x, status, hq⟩
  · exact hq.keeps (fun h => absurd h hne) fun h => absurd h hne
  · exact hq.keeps fun h => absurd h hne

/-- A call adds and removes no session. -/
theorem OfCall.keeps_const {sid sid' : SessionId} {q : Request} (hq : q.OfCall sid) :
    q.Keeps (fun _ => ()) sid' := by
  rcases hq with hq | ⟨x, status, hq⟩
  · exact hq.keeps (fun _ _ _ => rfl) fun _ _ _ => rfl
  · exact hq.keeps fun _ => ⟨fun _ => rfl, fun _ _ => rfl⟩

/-- A turn does not touch status or pending interrupt of any session. -/
theorem OfTurn.keeps_life {sid sid' : SessionId} {q : Request} (hq : q.OfTurn sid) :
    q.Keeps SessionRow.life sid' :=
  hq.keeps (fun _ _ _ => rfl) fun _ _ _ => rfl

end Request

theorem life_of_turn {sid sid' : SessionId} {c c' : Config Reply World}
    (hr : Reaches (handle env) (Request.OfTurn sid) c c') : c'.state.life sid' = c.state.life sid' :=
  keeps_of_reaches hr fun _ hq => hq.keeps_life

namespace Agent

variable (agent : Agent)

section Footprints

variable {s : SessionId}

theorem sess_only {α : Type} {A : Request → Prop} {p : M SessionMemoryError α} (hp : p.Only A) :
    (sess p).Only A := Prog.Only.mapErr hp

theorem orJson_only {α : Type} [Nested α] {A : Request → Prop} (t : JsonText α) : (orJson t).Only A := by
  unfold orJson
  split <;> trivial

/-- Only the phase opening context is written before the skill is resolved. -/
theorem openingContext_only (userId input : String) :
    (agent.openingContext userId s input).Only fun q => q.Idle ∨ ∃ x, q = .sql (.updatePhaseOpening s x) := by
  refine Prog.Only.bind ?_ fun phaseCtx => ?_
  · unfold phaseOpening
    split
    · exact sess_only (SessionMemory.getPhaseOpeningContext_only (.inl trivial))
    · trivial
  · cases phaseCtx with
    | some ctx =>
      exact Prog.Only.bind (request_only (.inl trivial)) fun _ =>
        Prog.Only.bind (sess_only (SessionMemory.setPhaseOpeningContext_only (.inr ⟨_, rfl⟩))) fun _ => trivial
    | none =>
      refine Prog.Only.bind (p := getCacheMemory userId s) ⟨.inl trivial, fun r _ => ?_⟩ fun _ => trivial
      cases r with
      | some messages => trivial
      | none =>
        exact Prog.Only.bind (sess_only (query_only (.inl trivial))) fun _ =>
          Prog.Only.bind (request_only (.inl trivial)) fun _ => trivial

/-- Resolving the skill writes nothing but the skill context. -/
theorem resolveSkill_binds (input : String) :
    (agent.resolveSkill s input).Only fun q => q.Reads ∨ ∃ x, q = .sql (.updateSkillContext s x) := by
  refine Prog.Only.bind (sess_only (SessionMemory.getSkillContext_only (.inl trivial))) fun existing => ?_
  cases existing with
  | some json => exact Prog.Only.bind (orJson_only json) fun _ => trivial
  | none =>
    dsimp only
    split
    · trivial
    · refine Prog.Only.bind (request_only (.inl trivial)) fun reg => ?_
      split
      · refine Prog.Only.bind (request_only (.inl trivial)) fun reg => ?_
        split
        · trivial
        · exact Prog.Only.bind (sess_only (SessionMemory.setSkillContext_only (.inr ⟨_, rfl⟩))) fun _ => trivial
      · exact Prog.Only.bind (request_only (.inl trivial)) fun _ => trivial

theorem resolveSkill_only (input : String) : (agent.resolveSkill s input).Only (Request.OfTurn s) :=
  Prog.Only.mono (agent.resolveSkill_binds input) fun _ h => by
    rcases h with h | ⟨x, rfl⟩
    · exact h.idle.ofTurn
    · rfl

theorem prepare_only (userId input : String) : (agent.prepare userId s input).Only (Request.OfTurn s) :=
  Prog.Only.bind (sess_only (SessionManager.assertOwner_only (.inl trivial))) fun _ =>
    Prog.Only.bind (Prog.Only.mono (agent.openingContext_only userId input) fun q h => by
      rcases h with h | ⟨x, rfl⟩
      · exact h.ofTurn
      · rfl) fun _ =>
      Prog.Only.bind (agent.resolveSkill_only input) fun _ => trivial

theorem longTermText_only {A : Request → Prop} (hA : ∀ q : Request, q.Reads → A q) (userId input : String) :
    (agent.longTermText userId input).Only A := by
  unfold longTermText
  split
  · refine ⟨hA _ trivial, fun r _ => ?_⟩
    cases r with
    | error e => trivial
    | ok memories => dsimp only; split <;> trivial
  · trivial

/-- A strategy that an invocation may run: of a kind, over tools of the agent. With approvals, a routed one is
ReAct. -/
def MayRun (strategy : RunStrategy) : Prop :=
  ∃ kind tools n, strategy = buildStrategy kind (agent.skeleton tools n) ∧
    (kind = agent.kind ∧ agent.strategyRouter = none ∨
      agent.strategyRouter.isSome ∧ (agent.hitl.isSome → kind = .react))

/-- A strategy over the tools that an agent gives it: the fixed one has them all, a routed one those of the run. -/
def Runs (names : List String) (strategy : RunStrategy) : Prop :=
  ∃ kind tools n, strategy = buildStrategy kind (agent.skeleton tools n) ∧
    (agent.strategyRouter = none ∧ kind = agent.kind ∧ tools = agent.tools ∨
      agent.strategyRouter.isSome ∧ (agent.hitl.isSome → kind = .react) ∧ tools = agent.tools.restrictedToNames names)

variable {agent} in
theorem Runs.mayRun {names : List String} {strategy : RunStrategy} (h : agent.Runs names strategy) :
    agent.MayRun strategy := by
  obtain ⟨kind, tools, n, hs, ⟨hrouter, hkind, -⟩ | ⟨hrouter, hkind, -⟩⟩ := h
  · exact ⟨kind, tools, n, hs, .inl ⟨hkind, hrouter⟩⟩
  · exact ⟨kind, tools, n, hs, .inr ⟨hrouter, hkind⟩⟩

theorem strategyForResume_runs (names : List String) : agent.Runs names (agent.strategyForResume names) := by
  unfold strategyForResume
  cases hr : agent.strategyRouter with
  | none => exact ⟨agent.kind, agent.tools, agent.maxIterations, rfl, .inl ⟨hr, rfl, rfl⟩⟩
  | some router => exact ⟨.react, _, _, rfl, .inr ⟨by simp [hr], fun _ => rfl, rfl⟩⟩

theorem strategyForResume_mayRun (names : List String) : agent.MayRun (agent.strategyForResume names) :=
  (agent.strategyForResume_runs names).mayRun

/-- The skeleton of the strategy with which a run is resumed. -/
def resumeSkeleton (names : List String) : CycleSkeleton :=
  match agent.strategyRouter with
  | some _ => agent.skeleton (agent.tools.restrictedToNames names) defaultRoutedStrategyMaxIterations
  | none => agent.skeleton agent.tools agent.maxIterations

theorem resumeSkeleton_eq (names : List String) :
    ∃ tools n, agent.resumeSkeleton names = agent.skeleton tools n := by
  unfold resumeSkeleton
  split <;> exact ⟨_, _, rfl⟩

theorem strategyForInvoke_runs {B : (q : Request) → Reply q → Prop} {W : Dispatch → Prop} (input : String)
    (names : List String) : (agent.strategyForInvoke input names).Meets B (Request.Avoids W)
      fun r => ∀ strategy, r = .ok strategy → agent.Runs names strategy := by
  unfold strategyForInvoke
  cases hr : agent.strategyRouter with
  | none =>
    intro strategy h
    cases h
    exact ⟨agent.kind, agent.tools, agent.maxIterations, rfl, .inl ⟨hr, rfl, rfl⟩⟩
  | some router =>
    refine Prog.Meets.bind (P := AnyResult) ?_ (fun selected _ => ?_) (fun e _ t h => by cases h)
    · refine Prog.Meets.mapErr (P := AnyResult) ?_ fun _ _ => trivial
      unfold StrategyRouter.route
      cases router.prompt input with
      | error e => trivial
      | ok system =>
        refine Prog.Meets.bind (P := AnyResult) (Prog.Meets.mono (invokeRunner_meets
          (fun _ => avoids_of_none trivial rfl) ..) (fun _ _ h => h)
          (fun _ h => h) fun _ _ => trivial) (fun resp _ => ?_) (fun _ _ => trivial)
        split
        · trivial
        · split <;> trivial
    · split
      · intro strategy h; cases h
      · rename_i hsel
        intro strategy h
        cases h
        refine ⟨strategyKind selected, agent.tools.restrictedToNames names, defaultRoutedStrategyMaxIterations,
          rfl, .inr ⟨by simp [hr], fun hh => ?_, rfl⟩⟩
        simp only [hh, Bool.true_and, decide_eq_true_eq, ne_eq, not_not] at hsel
        rw [hsel]
        rfl

theorem strategyForInvoke_meets {B : (q : Request) → Reply q → Prop} {W : Dispatch → Prop} (input : String)
    (names : List String) : (agent.strategyForInvoke input names).Meets B (Request.Avoids W)
      fun r => ∀ strategy, r = .ok strategy → agent.MayRun strategy :=
  Prog.Meets.mono (agent.strategyForInvoke_runs input names) (fun _ _ h => h) (fun _ h => h)
    fun _ hr strategy h => (hr strategy h).mayRun

/-- A strategy run writes no table. -/
theorem runPrepared_works (userId : String) (p : Prepared) :
    (agent.runPrepared userId s p).Only fun q => q.Reads ∨ q.OfStrategy := by
  refine Prog.Only.bind (agent.longTermText_only (fun _ h => .inl h) userId p.input) fun longTerm => ?_
  refine Prog.Meets.bind (Prog.Meets.mono (agent.strategyForInvoke_meets (W := fun _ => False) p.input
    (agent.activeToolNames p.skillCtx)) (fun _ _ h => h) (fun _ h => .inr h.1) fun _ h => h) (fun strategy hs => ?_)
    fun _ _ => trivial
  obtain ⟨kind, tools, n, rfl, -⟩ := hs strategy rfl
  exact Prog.Only.mono (agent.runStrategy_only ..) fun _ h => .inr h

theorem runPrepared_only (userId : String) (p : Prepared) :
    (agent.runPrepared userId s p).Only (Request.OfTurn s) :=
  Prog.Only.mono (agent.runPrepared_works userId p) fun _ h => h.elim (fun h => h.idle.ofTurn) fun h => h.ofTurn

/-- A finished turn is appended to its session. -/
theorem keepTurn_appends (userId input response : String) :
    (agent.keepTurn userId s input response).Only fun q => q.Idle ∨ ∃ ms now, q = .sql (.appendMessages s ms now) := by
  refine Prog.Only.bind (sess_only (SessionMemory.append_only (.inl trivial) (.inl trivial) fun now =>
    .inr ⟨_, now, rfl⟩)) fun _ => ?_
  refine Prog.Only.bind (request_only (.inl trivial)) fun _ => ?_
  dsimp only
  split
  · exact Prog.Only.bind (request_only (.inl trivial)) fun _ => trivial
  · trivial

theorem keepTurn_only (userId input response : String) :
    (agent.keepTurn userId s input response).Only (Request.OfTurn s) :=
  Prog.Only.mono (agent.keepTurn_appends userId input response) fun _ h => by
    rcases h with h | ⟨ms, now, rfl⟩
    · exact h.ofTurn
    · rfl

theorem observation_only (names : List String) (decision : ApprovalDecision) (pending : List ToolCall) :
    (agent.observation names decision pending).Only Request.OfStrategy := by
  have hrun : ∀ calls, (agent.executeDirectly names calls).Only Request.OfStrategy := fun calls => by
    refine Prog.Only.bind (infallible_any (executeMany_meets (P := fun _ => True) (fun t d _ => ?_) trivial
      trivial fun _ _ _ => trivial)) fun _ => trivial
    refine Prog.Meets.mono (SubAgentExecutor.runTool_meets (B := fun _ _ => True) (W := fun _ => False) ?_
      agent.executor t d id) (fun _ _ h => h) (fun _ h => h.1) fun _ _ => trivial
    exact fun q r _ => callsAvoid_false 1 q r
  unfold observation
  cases decision with
  | approved => dsimp only; split <;> first | trivial | exact hrun _
  | modified newArgs => dsimp only; split <;> first | trivial | exact hrun _
  | rejected reason => dsimp only; split <;> trivial

theorem applyTransition_binds (notConfigured : String) (transition : PhaseTransition) :
    (agent.applyTransition notConfigured s transition).Only (Request.OfTransition s) := by
  unfold applyTransition
  split
  · trivial
  · refine Prog.Only.bind (request_only (.inl trivial)) fun reg => ?_
    split
    · trivial
    · exact sess_only (SessionMemory.applyPhaseTransition_only (.inr ⟨_, _, rfl⟩))

theorem applyTransition_only (notConfigured : String) (transition : PhaseTransition) :
    (agent.applyTransition notConfigured s transition).Only (Request.OfPhase s) :=
  Prog.Only.mono (agent.applyTransition_binds ..) fun _ h => h.ofPhase

theorem resumePhaseGate_binds (transitionJson : JsonText PhaseTransition) (decision : ApprovalDecision) :
    (agent.resumePhaseGate s transitionJson decision).Only (Request.OfTransition s) := by
  unfold resumePhaseGate
  cases decision with
  | rejected reason => trivial
  | _ =>
    exact Prog.Only.bind (orJson_only _) fun _ => Prog.Only.bind (agent.applyTransition_binds ..) fun _ => trivial

theorem resumePhaseGate_only (transitionJson : JsonText PhaseTransition) (decision : ApprovalDecision) :
    (agent.resumePhaseGate s transitionJson decision).Only (Request.OfPhase s) :=
  Prog.Only.mono (agent.resumePhaseGate_binds ..) fun _ h => h.ofPhase

theorem phaseGate_reads : (agent.phaseGate s).Only Request.Reads := by
  unfold phaseGate
  split
  · trivial
  · exact Prog.Only.bind (sess_only (SessionMemory.getSkillContext_only trivial)) fun _ => trivial

theorem phaseGate_only : (agent.phaseGate s).Only Request.Idle := Prog.Only.mono agent.phaseGate_reads fun _ h => h.idle

theorem resumeChecks_reads (userId : String) (approvalId : ApprovalId) :
    (resumeChecks userId s approvalId).Only Request.Reads := by
  refine Prog.Only.bind (sess_only (SessionManager.assertOwner_only trivial)) fun _ => ?_
  refine Prog.Only.bind (sess_only (SessionMemory.getInterruptedState_only trivial)) fun existing => ?_
  cases existing with
  | none => trivial
  | some stateJson =>
    refine Prog.Only.bind (orJson_only stateJson) fun state => ?_
    split
    · trivial
    · split <;> trivial

theorem resumeChecks_only (userId : String) (approvalId : ApprovalId) :
    (resumeChecks userId s approvalId).Only Request.Idle :=
  Prog.Only.mono (resumeChecks_reads ..) fun _ h => h.idle

end Footprints

/-! ### Looking at a session -/

section Looking

variable {c c' : Config Reply World} {sid : SessionId}

theorem idle_life {sid : SessionId} (hr : Reaches (handle env) Request.Idle c c') :
    c'.state.life sid = c.state.life sid :=
  life_of_turn (hr.mono fun _ h => h.ofTurn : Reaches (handle env) (Request.OfTurn sid) c c')

theorem assertOwner_ok {userId : String} {u : Unit} :
    (sess (SessionManager.assertOwner userId sid)).run (handle env) c = (.ok u, c') ↔
      env.storeError c.state.steps = none ∧ c.state.owns userId sid ∧
        c' = c.after (handle env) (.sql (.selectSession sid)) := by
  rw [sess, Prog.run_mapErr_eq_ok, SessionManager.assertOwner_ok]

/-- A call that begins with the check of the owner only looks at a session that its user does not own. -/
theorem refused_of_not_owns {α : Type} {userId : String} (h : ¬ c.state.owns userId sid)
    (f : Unit → M AgentError α) : Reaches (handle env) Request.Idle c
      ((sess (SessionManager.assertOwner userId sid) >>= f).run (handle env) c).2 := by
  refine Prog.Only.run_bind (Φ := fun _ c' => Reaches (handle env) Request.Idle c c')
    (sess_only (SessionManager.assertOwner_only (A := Request.Idle) trivial)) (fun _ _ h₁ => h₁) fun _ _ _ hrun => ?_
  exact absurd (assertOwner_ok.mp hrun).2.1 h

end Looking

end Agent

end AgentVerse
