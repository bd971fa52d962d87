import AgentVerse.Agent.Interruption
import AgentVerse.Agent.Spending

/-!
# The tools that a call starts

A strategy starts what its model asks for: `Spares` says which replies start no tool in a set `W`, by the kind of the
strategy, the hook, and the tools that the strategy has. From it follow the tools that an invocation starts
(`invoke_spares`, `invokeStateless_spares`), and those that a resume starts besides the calls it decides on
(`resume_spares`).
-/

namespace AgentVerse

open Effects

variable {env : Env} {w : World} {sid : SessionId} {B : (q : Request) → Reply q → Prop} {W W' : Dispatch → Prop}

/-- A request that starts no tool in `W`. -/
def Request.Spares (W : Dispatch → Prop) (q : Request) : Prop := ∀ d, q.dispatch? = some d → ¬ W d

theorem Request.spares_of_none {q : Request} (h : q.dispatch? = none) : q.Spares W := by
  intro d hd
  rw [h] at hd
  cases hd

namespace Agent

variable (agent : Agent)

/-! ### Replies -/

/-- Whether the hook of a run under the skill stops a call. -/
def stops (skill : Option SkillId) (name : String) : Bool :=
  match agent.hitl with
  | some policy => policy.intercepts skill name
  | none => false

/-- No reply to a subagent calls a tool in `W` that the subagent has. -/
def SubagentsSpare (B : (q : Request) → Reply q → Prop) (W : Dispatch → Prop) : Prop :=
  ∀ d, B (.enterSubagent d) () → ∀ args, agent.ext.parseSubAgentArgs d.args = .ok args →
    agent.executor.RepliesAvoid B W args.allowedTools

/-- No reply whose calls the hook lets pass calls a tool in `W` that the strategy has. -/
def CallsSpare (B : (q : Request) → Reply q → Prop) (W : Dispatch → Prop) (skill : Option SkillId)
    (tools : ToolRegistry) : Prop :=
  ∀ req resp, B (.generate 0 req) (.ok resp) → (∀ c ∈ resp.calls, agent.stops skill c.name = false) →
    ∀ c ∈ resp.calls, tools.hasTool c.name = true → ¬ W (c.task 0)

/-- No reply that is a plan has a step with a tool in `W` that passes the check of its name and that the strategy
has. -/
def PlansSpare (B : (q : Request) → Reply q → Prop) (W : Dispatch → Prop) (names : List String)
    (tools : ToolRegistry) : Prop :=
  ∀ req resp, B (.generate 0 req) (.ok resp) → ∀ plan, agent.ext.parsePlan resp.asText = .ok plan →
    ∀ step ∈ plan.steps, ∀ t, step.tool = some t → (names = [] ∨ t ∈ names) → tools.hasTool t = true →
      ¬ W ⟨0, none, t, step.args.getD .null⟩

/-- The replies to a strategy run with the tool names, under the skill, start no tool in `W`. -/
structure Spares (B : (q : Request) → Reply q → Prop) (W : Dispatch → Prop) (skill : Option SkillId)
    (names : List String) : Prop where
  subagents : agent.SubagentsSpare B W
  calls : (agent.strategyRouter = none → agent.kind = .react) → agent.CallsSpare B W skill (agent.executionTools names)
  plans : (agent.strategyRouter = none → agent.kind ≠ .react) → (agent.strategyRouter.isSome → agent.hitl = none) →
    agent.PlansSpare B W names (agent.executionTools names)

variable {agent}

theorem Spares.mono {skill : Option SkillId} {names : List String} (h : agent.Spares B W skill names)
    (hW : ∀ d, W' d → W d) : agent.Spares B W' skill names where
  subagents d hd args hargs req resp hresp c hc hhas hw :=
    h.subagents d hd args hargs req resp hresp c hc hhas (hW _ hw)
  calls hk req resp hresp hpass c hc hhas hw := h.calls hk req resp hresp hpass c hc hhas (hW _ hw)
  plans hk hr req resp hresp plan hplan step hstep t ht hname hhas hw :=
    h.plans hk hr req resp hresp plan hplan step hstep t ht hname hhas (hW _ hw)

/-! ### Strategy runs -/

theorem runStrategy_spares {strategy : RunStrategy} {names : List String} {skill : Option SkillId}
    (hs : agent.Runs names strategy) (h : agent.Spares B W skill names) (ctx : HitlPolicy → HitlContext)
    (hctx : ∀ name, agent.guards ctx name = agent.stops skill name) (messages : List Message) :
    (agent.runStrategy strategy messages names ctx).Meets B (Request.Avoids W) AnyResult := by
  obtain ⟨kind, tools, n, rfl, hruns⟩ := hs
  have htools : tools = agent.executionTools names := by
    unfold executionTools
    rcases hruns with ⟨hrouter, -, rfl⟩ | ⟨hrouter, -, rfl⟩
    · rw [hrouter]
    · obtain ⟨router, hrouter⟩ := Option.isSome_iff_exists.mp hrouter
      rw [hrouter]
  subst htools
  refine Prog.Meets.mono (agent.runStrategy_scoped h.subagents (fun hk req resp hresp hpass c hc hhas => ?_)
    (fun hk => h.plans (fun hr => ?_) fun hr => ?_) n messages) (fun _ _ h => h) (fun _ h => h) fun _ _ => trivial
  · refine h.calls (fun hr => ?_) req resp hresp (fun c hc => hctx c.name ▸ hpass c hc) c hc hhas
    rcases hruns with ⟨-, rfl, -⟩ | ⟨hrouter, -⟩
    · exact hk
    · rw [hr] at hrouter
      cases hrouter
  · rcases hruns with ⟨-, rfl, -⟩ | ⟨hrouter, -⟩
    · exact hk
    · rw [hr] at hrouter
      cases hrouter
  · rcases hruns with ⟨hrouter, -⟩ | ⟨-, hreact, -⟩
    · rw [hrouter] at hr
      cases hr
    · cases hh : agent.hitl with
      | none => rfl
      | some policy => exact absurd (hreact (by rw [hh]; rfl)) hk

/-! ### Invocations -/

/-- Nothing is started before the strategy of an invocation runs. -/
theorem prepare_starts_nothing (agent : Agent) (userId : String) (sid : SessionId) (input : String) :
    (agent.prepare userId sid input).Only fun q => q.dispatch? = none := by
  refine Prog.Only.bind (sess_only (SessionManager.assertOwner_only rfl)) fun _ => ?_
  refine Prog.Only.bind (Prog.Only.mono (agent.openingContext_only userId input) fun q hq => ?_) fun _ => ?_
  · rcases hq with hq | ⟨x, rfl⟩
    · exact hq.dispatch
    · rfl
  · refine Prog.Only.bind (Prog.Only.mono (agent.resolveSkill_binds input) fun q hq => ?_) fun _ => trivial
    rcases hq with hq | ⟨x, rfl⟩
    · exact hq.idle.dispatch
    · rfl

theorem handleToolInterrupt_starts_nothing (sid : SessionId) (i : HitlInterrupt) (skillCtx : Option SkillContext) :
    (handleToolInterrupt sid i skillCtx).Only fun q => q.dispatch? = none :=
  Prog.Only.mono (handleToolInterrupt_only i skillCtx) fun _ ⟨_, _, h⟩ => h.dispatch

theorem keepTurn_starts_nothing (agent : Agent) (userId : String) (sid : SessionId) (input text : String) :
    (agent.keepTurn userId sid input text).Only fun q => q.dispatch? = none :=
  Prog.Only.mono (agent.keepTurn_appends userId input text) fun q hq => by
    rcases hq with hq | ⟨ms, now, rfl⟩
    · exact hq.dispatch
    · rfl

theorem runPrepared_spares (userId : String) (sid : SessionId) {p : Prepared}
    (h : agent.Spares B W (p.skillCtx.map (·.skillId)) (agent.activeToolNames p.skillCtx)) :
    (agent.runPrepared userId sid p).Meets B (Request.Spares W) AnyResult := by
  refine Prog.Meets.bind (P := AnyResult) (Prog.Meets.mono (agent.longTermText_only (A := Request.Spares W)
    (fun _ h => Request.spares_of_none h.idle.dispatch) userId p.input) (fun _ _ _ => trivial) (fun _ h => h)
    fun _ h => h) (fun longTerm _ => ?_) fun _ _ => trivial
  refine Prog.Meets.bind (Prog.Meets.mono (agent.strategyForInvoke_runs (W := W) p.input
    (agent.activeToolNames p.skillCtx)) (fun _ _ h => h) (fun _ h => h.2) fun _ h => h) (fun strategy hs => ?_)
    fun _ _ => trivial
  exact Prog.Meets.mono (runStrategy_spares (hs strategy rfl) h (p.hitlContext sid) (fun _ => rfl) _)
    (fun _ _ h => h) (fun _ h => h.2) fun _ h => h

/-- What an invocation starts, by the replies to the strategy of what it prepared. -/
theorem invoke_spares (env : Env) (userId : String) (sid : SessionId) (input : String) (w : World)
    (h : ∀ p c, (agent.prepare userId sid input).run (handle env) ⟨w, []⟩ = (.ok p, c) →
      agent.Spares B W (p.skillCtx.map (·.skillId)) (agent.activeToolNames p.skillCtx))
    (hB : ∀ x ∈ ((agent.invoke userId sid input).run (handle env) ⟨w, []⟩).2.trace, B x.1 x.2) :
    ∀ x ∈ ((agent.invoke userId sid input).run (handle env) ⟨w, []⟩).2.trace, x.1.Spares W := by
  have hreaches : (∀ x ∈ ((agent.invoke userId sid input).run (handle env) ⟨w, []⟩).2.trace, B x.1 x.2) →
      Reaches (handle env) (Request.Spares W) ⟨w, []⟩ ((agent.invoke userId sid input).run (handle env) ⟨w, []⟩).2 := by
    refine Prog.Only.run_bind (Φ := fun _ c => (∀ x ∈ c.trace, B x.1 x.2) →
      Reaches (handle env) (Request.Spares W) ⟨w, []⟩ c) (agent.prepare_starts_nothing userId sid input)
      (fun e c hr _ => hr.mono fun _ => Request.spares_of_none) fun p c hr hp hB => ?_
    refine (hr.mono fun _ => Request.spares_of_none).trans (Prog.Meets.reaches (P := AnyResult) ?_ c hB).1
    refine Prog.Meets.bind (runPrepared_spares userId sid (h p c hp)) (fun outcome _ => ?_) fun _ _ => trivial
    cases outcome with
    | done text =>
      exact Prog.Meets.mono (agent.keepTurn_starts_nothing userId sid p.input text) (fun _ _ _ => trivial)
        (fun _ => Request.spares_of_none) fun _ h => h
    | interrupted i =>
      exact Prog.Meets.mono (handleToolInterrupt_starts_nothing sid i p.skillCtx) (fun _ _ _ => trivial)
        (fun _ => Request.spares_of_none) fun _ h => h
  obtain ⟨t, ht, hspares⟩ := (hreaches hB).trace
  rw [ht]
  exact fun x hx => hspares x (by simpa using hx)

/-- What a stateless invocation runs: the fixed strategy, without the hook. -/
def unguarded (agent : Agent) : Agent := { agent with hitl := none, strategyRouter := none }

theorem invokeStateless_spares (input : String) (h : agent.unguarded.Spares B W none agent.tools.toolNames) :
    (agent.invokeStateless input).Meets B (Request.Spares W) AnyResult := by
  refine Prog.Meets.bind (P := AnyResult)
    (p := llm (agent.strategy.run (assembleMessages (agent.assembleSystem none none) [] input))) ?_
    (fun outcome _ => by cases outcome <;> trivial) fun _ _ => trivial
  have hruns : agent.unguarded.Runs agent.tools.toolNames (buildStrategy agent.kind
      (agent.unguarded.skeleton agent.tools agent.maxIterations)) :=
    ⟨agent.kind, agent.tools, agent.maxIterations, rfl, .inl ⟨rfl, rfl, rfl⟩⟩
  have hrun := runStrategy_spares hruns h (fun policy => .new 0 none policy) (fun _ => rfl)
    (assembleMessages (agent.assembleSystem none none) [] input)
  refine Prog.Meets.mono (P := AnyResult) ?_ (fun _ _ h => h) (fun _ (h : Request.Avoids W _) => h.2) fun _ h => h
  -- `run` of each kind is its `run_with_active_tools` with all names, and so what it runs without a policy.
  unfold strategy
  cases hk : agent.kind with
  | _ => rw [hk] at hrun; exact hrun

/-! ### Resumes -/

variable {state : InterruptedState} {decision : ApprovalDecision}

/-- A call that the decision on the state executes, if its tool is registered. -/
def Decided (agent : Agent) (state : InterruptedState) (decision : ApprovalDecision) (d : Dispatch) : Prop :=
  ∃ c ∈ decidedCalls decision state.pendingCalls,
    (agent.executionTools state.activeToolNames).hasTool c.name = true ∧ d = c.task 0

theorem observation_spares (h : agent.SubagentsSpare B W) :
    (agent.observation state.activeToolNames decision state.pendingCalls).Meets B
      (Request.Spares fun d => W d ∧ ¬ agent.Decided state decision d) AnyResult := by
  have hrun : ∀ calls, calls = decidedCalls decision state.pendingCalls →
      (agent.executeDirectly state.activeToolNames calls).Meets B
        (Request.Spares fun d => W d ∧ ¬ agent.Decided state decision d) AnyResult := by
    rintro calls rfl
    refine Prog.Meets.bind (P := AnyResult) (infallible_any (Prog.Meets.mono (executeMany_meets (B := B)
      (P := fun d => ¬ (W d ∧ ¬ agent.Decided state decision d))
      (A := Request.Avoids fun d => W d ∧ ¬ agent.Decided state decision d) (fun t d hd => ?_)
      (avoids_of_none trivial rfl) (avoids_of_none trivial rfl) fun c hc hhas h => h.2 ⟨c, hc, hhas, rfl⟩)
      (fun _ _ h => h) (fun q hq => hq.2) fun _ h => h)) (fun _ _ => trivial) fun _ _ => trivial
    exact SubAgentExecutor.runTool_scoped agent.executor t d hd fun hd args hargs req resp hresp c hc hhas hw =>
      h d hd args hargs req resp hresp c hc hhas hw.1
  unfold observation
  cases decision with
  | approved =>
    dsimp only
    split
    · trivial
    · exact hrun _ rfl
  | modified newArgs =>
    cases hp : state.pendingCalls with
    | nil => trivial
    | cons first rest => exact hrun _ (by rw [hp]; rfl)
  | rejected reason =>
    dsimp only
    split <;> trivial

theorem continueRun_spares (sid : SessionId)
    (h : agent.Spares B W (state.skillContext.map (·.skillId)) state.activeToolNames) (messages : List Message) :
    (agent.continueRun sid state messages).Meets B (Request.Spares W) AnyResult := by
  have hrun := runStrategy_spares (agent.strategyForResume_runs state.activeToolNames) h
    (HitlContext.newForResume sid (state.skillContext.map (·.skillId))) (fun _ => rfl) messages
  refine Prog.Meets.bind (Prog.Meets.mono hrun (fun _ _ h => h) (fun _ h => h.2) fun _ h => h) (fun outcome _ => ?_)
    fun _ _ => trivial
  cases outcome with
  | done text => trivial
  | interrupted i =>
    exact Prog.Meets.mono (handleToolInterrupt_starts_nothing sid i state.skillContext) (fun _ _ _ => trivial)
      (fun _ => Request.spares_of_none) fun _ h => h

theorem resumeAct_spares (sid : SessionId) {resolved : Resolved}
    (hpay : resolved.state.payload = .ok resolved.payload)
    (h : resolved.payload.isSome →
      agent.Spares B W (resolved.state.skillContext.map (·.skillId)) resolved.state.activeToolNames)
    (decision : ApprovalDecision) : (agent.resumeAct sid resolved decision).Meets B
      (Request.Spares fun d => W d ∧ ¬ agent.Decided resolved.state decision d) AnyResult := by
  obtain ⟨state, payload⟩ := resolved
  have hact : ∀ history pending, payload = some (history, pending) →
      (agent.resumeToolCallOrCheckpoint sid state decision history pending).Meets B
        (Request.Spares fun d => W d ∧ ¬ agent.Decided state decision d) AnyResult := by
    rintro history pending rfl
    have hpending : state.pendingCalls = pending := by rw [InterruptedState.pendingCalls, hpay]
    refine Prog.Meets.bind (P := AnyResult) (hpending ▸ observation_spares (h rfl).subagents) (fun text _ => ?_)
      fun _ _ => trivial
    exact continueRun_spares sid ((h rfl).mono fun _ hd => hd.1) _
  unfold resumeAct
  cases state with
  | pendingPhaseGate id transitionJson =>
    exact Prog.Meets.mono (agent.resumePhaseGate_only (s := sid) transitionJson decision) (fun _ _ _ => trivial)
      (fun _ hq => Request.spares_of_none hq.dispatch) fun _ h => h
  | pendingToolCall | pendingCheckpoint =>
    cases payload with
    | some x => exact hact _ _ rfl
    | none => trivial

/-- What a resume starts, by the replies to its strategy: besides that, calls it decides on. -/
theorem resume_spares (env : Env) (userId : String) (sid : SessionId) (id : ApprovalId) (decision : ApprovalDecision)
    (w : World) (h : ∀ resolved, Accepts env w userId sid id → Resumable env w userId sid id resolved →
      resolved.payload.isSome →
        agent.Spares B W (resolved.state.skillContext.map (·.skillId)) resolved.state.activeToolNames)
    (hB : ∀ x ∈ ((agent.resume userId sid id decision).run (handle env) ⟨w, []⟩).2.trace, B x.1 x.2) :
    ∀ x ∈ ((agent.resume userId sid id decision).run (handle env) ⟨w, []⟩).2.trace, ∀ d, x.1.dispatch? = some d →
      W d → Accepts env w userId sid id ∧ ∃ resolved, Resumable env w userId sid id resolved ∧
        agent.Decided resolved.state decision d := by
  intro x hx d hd hw
  by_cases hacc : Accepts env w userId sid id
  · -- The trace is that of the two clearing writes, which start nothing, and then that of the act.
    refine ⟨hacc, ?_⟩
    have hspares := h
    have hlet := hacc
    obtain ⟨⟨resolved, hres⟩, h₂, h₄⟩ := hacc
    rw [agent.resume_acts hres h₂ h₄] at hx hB
    obtain ⟨t, ht, hdecided⟩ := ((resumeAct_spares sid hres.payload (hspares resolved hlet hres) decision).reaches
      (h := handle env) ⟨cleared env sid w, clearing env sid w⟩ hB).1.trace
    rw [ht] at hx
    rcases List.mem_append.mp hx with hx | hx
    · have hnone : x.1.dispatch? = none := (clearing_asked x hx).elim (·.dispatch) (·.dispatch)
      rw [hnone] at hd
      cases hd
    · refine ⟨resolved, hres, ?_⟩
      by_contra hnot
      exact hdecided x hx d hd ⟨hw, hnot⟩
  · have hnone := (agent.resume_not_accepted decision hacc).2 x hx
    rw [hnone] at hd
    cases hd

end Agent

end AgentVerse
