import AgentVerse.Agent.Footprint

/-!
# Footprints of whole strategies

The three strategies make requests of strategies only. Run without the hook, they start no tool in `W` when the
model replies name none. Run behind the hook, ReAct starts no tool in `W` when the hook intercepts all of `W`,
whatever the model replies; and when it is stopped, it is stopped at the first intercepted call of a reply.
-/

namespace AgentVerse

open Effects

variable {B : (q : Request) → Reply q → Prop} {W : Dispatch → Prop}

/-- A program whose result does not matter. -/
theorem infallible_any {ε α : Type} {A : Request → Prop} {p : M Empty α} (hp : p.Meets B A AnyResult) :
    (infallible p : M ε α).Meets B A AnyResult :=
  Prog.Meets.mapErr hp fun _ _ => trivial

/-! ### The approval hook -/

/-- Where the hook stops a batch: at its first intercepted call, whose request is what a human is shown. -/
structure StoppedAt (ctx : HitlContext) (calls : List ToolCall) (kind : InterruptKind) (pre : List ToolCall)
    (call : ToolCall) (post : List ToolCall) : Prop where
  split : calls = pre ++ call :: post
  before : ∀ c ∈ pre, ctx.policy.intercepts ctx.skillId c.name = false
  shown : ctx.interruptKind call.name call.args = some kind

theorem StoppedAt.intercepted {ctx : HitlContext} {calls pre post : List ToolCall} {kind : InterruptKind}
    {call : ToolCall} (h : StoppedAt ctx calls kind pre call post) :
    ctx.policy.intercepts ctx.skillId call.name = true := by
  rw [← ctx.interruptKind_isSome call.name call.args, h.shown]
  rfl

/-- An approval was submitted: the queue gave it its id, or failed, and the id is one that is not in the queue. -/
def Submitted (B : (q : Request) → Reply q → Prop) (sid : SessionId) (kind : InterruptKind) (id : ApprovalId) : Prop :=
  B (.submit sid kind) (.ok id) ∨ ((∃ e, B (.submit sid kind) (.error e)) ∧ B .newUuid id)

/-- The approval of an interrupt was submitted for the call where the hook stopped its batch. -/
structure StoppedFor (B : (q : Request) → Reply q → Prop) (ctx : HitlContext) (calls : List ToolCall)
    (approvalId : ApprovalId) (kindJson : JsonText InterruptKind) (kind : InterruptKind) (pre : List ToolCall)
    (call : ToolCall) (post : List ToolCall) : Prop where
  kind_eq : kindJson = .ofValue kind
  stopped : StoppedAt ctx calls kind pre call post
  submitted : Submitted B ctx.sessionId kind approvalId

/-- An interrupt carries a batch of some model reply, stopped where the hook stops it. -/
def Stopped (B : (q : Request) → Reply q → Prop) (ctx : HitlContext) (depth : Nat) (i : HitlInterrupt) : Prop :=
  ∃ kind pre call post req resp,
    StoppedFor B ctx i.pendingCalls i.approvalId i.kindJson kind pre call post ∧
      B (.generate depth req) (.ok resp) ∧ i.pendingCalls = resp.calls

/-- A check submits a request for an intercepted call and passes every other one. -/
theorem checkTool_meets (ctx : HitlContext) (name : String) (args : Json) :
    (ctx.checkTool name args).Meets B (Request.Avoids W) fun r => ∀ x, r = .ok x →
      (x = none ∧ ctx.policy.intercepts ctx.skillId name = false) ∨
        ∃ id kind, x = some (id, .ofValue kind) ∧ ctx.interruptKind name args = some kind ∧
          Submitted B ctx.sessionId kind id := by
  unfold HitlContext.checkTool
  cases hk : ctx.interruptKind name args with
  | none =>
    intro x h
    cases h
    exact .inl ⟨rfl, (ctx.interruptKind_eq_none).mp hk⟩
  | some kind =>
    refine Prog.Meets.bind (P := fun r => ∀ x, r = .ok x →
      x.2 = .ofValue kind ∧ Submitted B ctx.sessionId kind x.1) ?_ (fun x hx => ?_) (fun e _ => e.elim)
    · refine ⟨avoids_of_none trivial rfl, fun r hr => ?_⟩
      cases r with
      | ok id => intro x h; cases h; exact ⟨rfl, .inl hr⟩
      | error e =>
        exact ⟨avoids_of_none trivial rfl, fun sentinel hs x h => by cases h; exact ⟨rfl, .inr ⟨⟨e, hr⟩, hs⟩⟩⟩
    · intro y hy
      cases hy
      obtain ⟨h2, hsub⟩ := hx x rfl
      exact .inr ⟨x.1, kind, by rw [← h2], rfl, hsub⟩

theorem checkAll_meets (ctx : HitlContext) (calls : List ToolCall) :
    (ToolRegistry.checkAll ctx.hook calls).Meets B (Request.Avoids W) fun r => ∀ x, r = .ok x →
      (x = none → ∀ c ∈ calls, ctx.policy.intercepts ctx.skillId c.name = false) ∧
        ∀ i, x = some i → ∃ kind pre call post,
          StoppedFor B ctx calls i.approvalId i.kindJson kind pre call post := by
  induction calls with
  | nil =>
    intro x h
    cases h
    exact ⟨fun _ => by simp, fun i hi => by cases hi⟩
  | cons c cs ih =>
    unfold ToolRegistry.checkAll
    refine Prog.Meets.bind (checkTool_meets ctx c.name c.args) (fun x hx => ?_) (fun e _ => e.elim)
    rcases hx x rfl with ⟨rfl, hpass⟩ | ⟨id, kind, rfl, hkind, hsub⟩
    · refine Prog.Meets.mono ih (fun _ _ h => h) (fun _ h => h) fun r hr x h => ?_
      obtain ⟨hnone, hsome⟩ := hr x h
      refine ⟨fun hx c' hc' => ?_, fun i hi => ?_⟩
      · rcases List.mem_cons.mp hc' with rfl | hc'
        · exact hpass
        · exact hnone hx c' hc'
      · obtain ⟨kind, pre, call, post, hk, hs, hsub⟩ := hsome i hi
        refine ⟨kind, c :: pre, call, post, hk, ⟨by rw [hs.split]; rfl, fun c' hc' => ?_, hs.shown⟩, hsub⟩
        rcases List.mem_cons.mp hc' with rfl | hc'
        · exact hpass
        · exact hs.before c' hc'
    · intro x h
      cases h
      refine ⟨fun h => (by cases h), fun i hi => ?_⟩
      cases hi
      exact ⟨kind, [], c, cs, rfl, ⟨rfl, by simp, hkind⟩, hsub⟩

section Runs

variable {sk : CycleSkeleton}
  (hrun : ∀ t d, ¬ W d → (sk.runTool t d).Meets B (Request.Avoids W) AnyResult)

include hrun in
/-- The batch is dispatched only if no call is intercepted. -/
theorem executeManyHitl_meets (ctx : HitlContext) {calls : List ToolCall}
    (hW : (∀ c ∈ calls, ctx.policy.intercepts ctx.skillId c.name = false) →
      ∀ c ∈ calls, sk.tools.hasTool c.name = true → ¬ W (c.task sk.depth)) :
    (sk.tools.executeManyHitl sk.runTool sk.depth ctx.hook calls).Meets B (Request.Avoids W)
      fun r => ∀ i, r = .ok (.error i) → ∃ kind pre call post,
        StoppedFor B ctx calls i.approvalId i.kindJson kind pre call post := by
  unfold ToolRegistry.executeManyHitl
  refine Prog.Meets.bind (checkAll_meets ctx calls) (fun x hx => ?_) (fun e _ => e.elim)
  obtain ⟨hnone, hsome⟩ := hx x rfl
  cases x with
  | some i =>
    intro i' h
    cases h
    exact hsome i rfl
  | none =>
    exact Prog.Meets.bind (executeMany_meets (P := fun d => ¬ W d) hrun (avoids_of_none trivial rfl)
      (avoids_of_none trivial rfl) (hW (hnone rfl))) (fun results _ i h => by cases h) (fun e _ => e.elim)

include hrun in
theorem hitlLoop_meets (ctx : HitlContext)
    (hW : ∀ req resp, B (.generate sk.depth req) (.ok resp) →
      (∀ c ∈ resp.calls, ctx.policy.intercepts ctx.skillId c.name = false) →
        ∀ c ∈ resp.calls, sk.tools.hasTool c.name = true → ¬ W (c.task sk.depth))
    (names : List String) (remaining : Nat) (buf : List Message) (called : Bool) :
    (ReActStrategy.hitlLoop sk names ctx.hook remaining buf called).Meets B (Request.Avoids W)
      fun r => ∀ i, r = .ok (.interrupted i) → Stopped B ctx sk.depth i := by
  induction remaining generalizing buf called with
  | zero => intro i h; cases h
  | succ remaining ih =>
    unfold ReActStrategy.hitlLoop
    refine Prog.Meets.bind (sk.invoke_meets (fun _ => avoids_of_none trivial rfl) buf names) (fun resp hresp => ?_)
      (fun e _ i h => by cases h)
    obtain ⟨req, hreq⟩ := hresp resp rfl
    cases ha : actionFromResponse resp with
    | toolCalls calls =>
      refine Prog.Meets.bind (infallible_meets (N := fun x => ∀ i, x = .error i → ∃ kind pre call post,
        StoppedFor B ctx calls i.approvalId i.kindJson kind pre call post)
        (Prog.Meets.mono (executeManyHitl_meets hrun ctx (actionFromResponse_calls ha ▸ hW req resp hreq))
          (fun _ _ h => h) (fun _ h => h) fun r hr x h i hi => hr i (by rw [h, hi]))) (fun x hx => ?_) (fun e he i h => by cases h)
      cases x with
      | ok results => exact ih ..
      | error interrupt =>
        obtain ⟨a, ha', hpost⟩ := hx
        cases ha'
        intro i h
        cases h
        obtain ⟨kind, pre, call, post, hs⟩ := hpost interrupt rfl
        exact ⟨kind, pre, call, post, req, resp, hs, hreq, actionFromResponse_calls ha⟩
    | done answer =>
      dsimp only
      split
      · intro i h; cases h
      · exact ih ..
    | error message => intro i h; cases h

include hrun in
/-- ReAct behind the hook starts the tools of those replies only of which the hook intercepts no call. -/
theorem runHitl_meets (ctx : HitlContext)
    (hW : ∀ req resp, B (.generate sk.depth req) (.ok resp) →
      (∀ c ∈ resp.calls, ctx.policy.intercepts ctx.skillId c.name = false) →
        ∀ c ∈ resp.calls, sk.tools.hasTool c.name = true → ¬ W (c.task sk.depth))
    (messages : List Message) (names : List String) :
    (ReActStrategy.runHitl sk messages names ctx.hook).Meets B (Request.Avoids W)
      fun r => ∀ i, r = .ok (.interrupted i) → Stopped B ctx sk.depth i :=
  hitlLoop_meets hrun ctx hW names _ _ _

/-! ### Runs without the hook -/

include hrun in
theorem loop_meets (hB : ∀ req resp, B (.generate sk.depth req) (.ok resp) →
      ∀ c ∈ resp.calls, sk.tools.hasTool c.name = true → ¬ W (c.task sk.depth))
    (names : List String) (remaining : Nat) (buf : List Message) :
    (ReActStrategy.loop sk names remaining buf).Meets B (Request.Avoids W)
      fun r => ∀ i, r ≠ .ok (.interrupted i) := by
  induction remaining generalizing buf with
  | zero => intro i h; cases h
  | succ remaining ih =>
    unfold ReActStrategy.loop
    refine Prog.Meets.bind (sk.invoke_meets (fun _ => avoids_of_none trivial rfl) buf names) (fun resp hresp => ?_)
      (fun e _ i h => by cases h)
    obtain ⟨req, hreq⟩ := hresp resp rfl
    cases ha : actionFromResponse resp with
    | toolCalls calls =>
      exact Prog.Meets.bind (infallible_any (batch_meets hrun (avoids_of_none trivial rfl)
        (fun _ => avoids_of_none trivial rfl) (hB req resp hreq) ha))
        (fun _ _ => ih ..) (fun e _ i h => by cases h)
    | done answer => intro i h; cases h
    | error message => intro i h; cases h

/-- The planner asks the model and reads a plan from its reply. -/
theorem askPlanner_meets {α : Type} (ext : Externals) (depth : Nat) (prompt : Except String String)
    (req what : String) (parse : String → Except String α) :
    (askPlanner ext depth prompt req what parse).Meets B (Request.Avoids W) fun r => ∀ a, r = .ok a →
      ∃ q resp, B (.generate depth q) (.ok resp) ∧ parse resp.asText = .ok a := by
  unfold askPlanner
  cases prompt with
  | error e => intro a h; cases h
  | ok strategyPrompt =>
    refine Prog.Meets.bind (P := AnyResult) ?_ (fun _ _ => ?_) (fun e _ a h => by cases h)
    · unfold checkPromptGuardrail
      cases ext.checkPrompt strategyPrompt <;> trivial
    · refine Prog.Meets.bind (invokeRunner_meets (fun _ => avoids_of_none trivial rfl) ..) (fun resp hresp => ?_)
        (fun e _ a h => by cases h)
      obtain ⟨q, hq⟩ := hresp resp rfl
      cases hp : parse resp.asText with
      | ok a => intro a' h; cases h; exact ⟨q, resp, hq, hp⟩
      | error e => intro a h; cases h

include hrun in
/-- The tools of a plan are started that are registered and pass the check of their names. -/
theorem runSteps_meets (names : List String) {steps : List PlanStep}
    (hsteps : ∀ step ∈ steps, ∀ t, step.tool = some t → (names = [] ∨ t ∈ names) → sk.tools.hasTool t = true →
      ¬ W ⟨sk.depth, none, t, step.args.getD .null⟩) :
    (runSteps sk names steps).Meets B (Request.Avoids W) AnyResult := by
  induction steps with
  | nil => trivial
  | cons step steps ih =>
    unfold runSteps
    split
    · trivial
    · refine Prog.Meets.bind (P := AnyResult) ?_ (fun _ _ => Prog.Meets.bind
        (ih fun s hs => hsteps s (by simp [hs])) (fun _ _ => trivial) (fun _ _ => trivial)) (fun _ _ => trivial)
      unfold runStep
      cases ht : step.tool with
      | none => trivial
      | some toolName =>
        dsimp only
        split
        · trivial
        · rename_i hcheck
          have hnames : names = [] ∨ toolName ∈ names := by
            by_cases hempty : names = []
            · exact .inl hempty
            · exact .inr (by simpa [hempty] using hcheck)
          refine Prog.Meets.bind (P := AnyResult) ?_ (fun r _ => by cases r <;> trivial) (fun _ _ => trivial)
          unfold executeTool
          refine Prog.Meets.bind (infallible_any ?_) (fun r _ => ?_) (fun _ _ => trivial)
          · unfold ToolRegistry.execute
            cases hget : sk.tools.get toolName with
            | none => trivial
            | some t =>
              exact hrun t _ (hsteps step (by simp) toolName ht hnames (by rw [ToolRegistry.hasTool, hget]; rfl))
          · rcases r with (e | v) | _
            · trivial
            · cases v <;> trivial
            · trivial

theorem synthesize_meets (system user : String) :
    (synthesize sk system user).Meets B (Request.Avoids W) fun r => ∀ i, r ≠ .ok (.interrupted i) := by
  unfold synthesize
  refine Prog.Meets.bind (invokeRunner_meets (fun _ => avoids_of_none trivial rfl) ..) (fun resp _ => ?_)
    (fun e _ i h => by cases h)
  exact Prog.Meets.bind (checkOutputGuardrail_meets ..) (fun _ _ i h => by cases h) (fun e _ i h => by cases h)

variable {names : List String}
  (hP : ∀ req resp, B (.generate sk.depth req) (.ok resp) → ∀ plan, sk.ext.parsePlan resp.asText = .ok plan →
    ∀ step ∈ plan.steps, ∀ t, step.tool = some t → (names = [] ∨ t ∈ names) → sk.tools.hasTool t = true →
      ¬ W ⟨sk.depth, none, t, step.args.getD .null⟩)

include hrun hP in
theorem planRun_meets (messages : List Message) :
    (PlanStrategy.runWithActiveTools sk messages names).Meets B (Request.Avoids W)
      fun r => ∀ i, r ≠ .ok (.interrupted i) := by
  unfold PlanStrategy.runWithActiveTools
  refine Prog.Meets.bind (askPlanner_meets ..) (fun plan hplan => ?_) (fun e _ i h => by cases h)
  obtain ⟨q, resp, hq, hparse⟩ := hplan plan rfl
  refine Prog.Meets.bind (runSteps_meets hrun names (hP _ _ hq plan hparse)) (fun _ _ => ?_)
    (fun e _ i h => by cases h)
  exact synthesize_meets ..

include hrun hP in
theorem runGoals_meets (messages : List Message) (goals : List (String × Nat)) :
    (HierarchicalStrategy.runGoals sk messages names goals).Meets B (Request.Avoids W) AnyResult := by
  induction goals with
  | nil => trivial
  | cons goal goals ih =>
    unfold HierarchicalStrategy.runGoals
    refine Prog.Meets.bind (P := AnyResult) ?_ (fun _ _ => Prog.Meets.bind ih (fun _ _ => trivial)
      (fun _ _ => trivial)) (fun _ _ => trivial)
    unfold HierarchicalStrategy.runGoal
    refine Prog.Meets.bind (P := fun r => ∀ x, r = .ok x → ∀ plan, x = .ok plan →
      ∃ q resp, B (.generate sk.depth q) (.ok resp) ∧ sk.ext.parsePlan resp.asText = .ok plan)
      (Prog.Meets.attempt (askPlanner_meets ..) fun x hx y hy plan hplan => ?_) (fun x hx => ?_) (fun _ _ => trivial)
    · cases hy
      exact hx plan hplan
    · cases x with
      | error e => trivial
      | ok plan =>
        obtain ⟨q, resp, hq, hparse⟩ := hx _ rfl plan rfl
        exact Prog.Meets.bind (runSteps_meets hrun names (hP _ _ hq plan hparse))
          (fun _ _ => trivial) (fun _ _ => trivial)

include hrun hP in
theorem hierarchicalRun_meets (n : Nat) (messages : List Message) :
    (HierarchicalStrategy.runWithActiveTools sk n messages names).Meets B (Request.Avoids W)
      fun r => ∀ i, r ≠ .ok (.interrupted i) := by
  unfold HierarchicalStrategy.runWithActiveTools
  refine Prog.Meets.bind (askPlanner_meets ..) (fun goals _ => ?_) (fun e _ i h => by cases h)
  refine Prog.Meets.bind (runGoals_meets hrun hP messages _) (fun _ _ => ?_)
    (fun e _ i h => by cases h)
  exact synthesize_meets ..

end Runs

/-! ### The strategies of an agent -/

namespace Agent

variable (agent : Agent)

/-- Whether a call is stopped by the hook of a run. Without a policy there is no hook. -/
def guards (ctx : HitlPolicy → HitlContext) (name : String) : Bool :=
  match agent.hitl with
  | some policy => (ctx policy).policy.intercepts (ctx policy).skillId name
  | none => false

/-- A strategy run starts no tool in `W` if no subagent starts one, a batch of a ReAct run that the hook lets pass has no
call of one, and no plan has a step of one that passes the check of its name. It is interrupted only as a ReAct run behind
the hook. -/
theorem runStrategy_scoped {kind : StrategyKind} {ctx : HitlPolicy → HitlContext} {tools : ToolRegistry}
    {names : List String}
    (hsub : ∀ d, B (.enterSubagent d) () → ∀ args, agent.ext.parseSubAgentArgs d.args = .ok args →
      agent.executor.RepliesAvoid B W args.allowedTools)
    (hreact : kind = .react → ∀ req resp, B (.generate 0 req) (.ok resp) →
      (∀ c ∈ resp.calls, agent.guards ctx c.name = false) →
        ∀ c ∈ resp.calls, tools.hasTool c.name = true → ¬ W (c.task 0))
    (hplan : kind ≠ .react → ∀ req resp, B (.generate 0 req) (.ok resp) → ∀ plan,
      agent.ext.parsePlan resp.asText = .ok plan → ∀ step ∈ plan.steps, ∀ t, step.tool = some t →
        (names = [] ∨ t ∈ names) → tools.hasTool t = true → ¬ W ⟨0, none, t, step.args.getD .null⟩)
    (n : Nat) (messages : List Message) :
    (agent.runStrategy (buildStrategy kind (agent.skeleton tools n)) messages names ctx).Meets B (Request.Avoids W)
      fun r => ∀ i, r = .ok (.interrupted i) →
        ∃ policy, agent.hitl = some policy ∧ kind = .react ∧ Stopped B (ctx policy) 0 i := by
  have hrun : ∀ t d, ¬ W d → ((agent.skeleton tools n).runTool t d).Meets B (Request.Avoids W) AnyResult :=
    fun t d hd => SubAgentExecutor.runTool_scoped agent.executor t d hd (hsub d)
  -- A run without the hook is never interrupted.
  have hnever : ∀ {p : M Core.AgentError StrategyOutcome},
      p.Meets B (Request.Avoids W) (fun r => ∀ i, r ≠ .ok (.interrupted i)) →
      (llm p).Meets B (Request.Avoids W) fun r => ∀ i, r = .ok (.interrupted i) →
        ∃ policy, agent.hitl = some policy ∧ kind = .react ∧ Stopped B (ctx policy) 0 i := by
    intro p hp
    refine Prog.Meets.mapErr hp fun r hr i h => ?_
    cases r with
    | ok a => cases h; exact absurd rfl (hr i)
    | error e => cases h
  unfold runStrategy
  cases hh : agent.hitl with
  | none =>
    rw [hh] at hnever
    cases kind with
    | react =>
      refine hnever (loop_meets hrun (fun req resp hB => hreact rfl req resp hB fun c _ => ?_) names _ _)
      rw [guards, hh]
    | plan => exact hnever (planRun_meets hrun (hplan (by simp)) messages)
    | hierarchical => exact hnever (hierarchicalRun_meets hrun (hplan (by simp)) 3 messages)
  | some policy =>
    rw [hh] at hnever
    cases kind with
    | react =>
      refine Prog.Meets.mapErr (runHitl_meets hrun (ctx policy) (fun req resp hB hpass => ?_) messages names)
        fun r hr i h => ?_
      · refine hreact rfl req resp hB fun c hc => ?_
        rw [guards, hh]
        exact hpass c hc
      · cases r with
        | ok a => cases h; exact ⟨policy, rfl, rfl, hr i rfl⟩
        | error e => cases h
    | plan => exact hnever (planRun_meets hrun (hplan (by simp)) messages)
    | hierarchical => exact hnever (hierarchicalRun_meets hrun (hplan (by simp)) 3 messages)

/-- A strategy run starts no tool in `W` if no subagent reply calls one, the calls in `W` that the model makes in a
ReAct run are guarded, and plans use none. -/
theorem runStrategy_meets (hsub : ∀ q r, B q r → CallsAvoid W 1 q r) {kind : StrategyKind}
    {ctx : HitlPolicy → HitlContext}
    (hreact : kind = .react → ∀ req resp, B (.generate 0 req) (.ok resp) → ∀ c ∈ resp.calls, W (c.task 0) →
      agent.guards ctx c.name = true)
    (hplan : kind ≠ .react → ∀ req resp, B (.generate 0 req) (.ok resp) → PlansAvoid agent.ext W 0 resp)
    (tools : ToolRegistry) (n : Nat) (messages : List Message) (names : List String) :
    (agent.runStrategy (buildStrategy kind (agent.skeleton tools n)) messages names ctx).Meets B (Request.Avoids W)
      fun r => ∀ i, r = .ok (.interrupted i) →
        ∃ policy, agent.hitl = some policy ∧ kind = .react ∧ Stopped B (ctx policy) 0 i := by
  refine agent.runStrategy_scoped (fun _ _ _ _ => repliesAvoid_of_calls hsub _) (fun hk req resp hB hpass c hc _ hw => ?_)
    (fun hk req resp hB plan hplan' step hstep t ht _ _ => hplan hk req resp hB plan hplan' step hstep t ht) n messages
  have hguard := hreact hk req resp hB c hc hw
  rw [hpass c hc] at hguard
  cases hguard

/-- Whatever the replies, a strategy run makes requests of strategies only. -/
theorem runStrategy_only (kind : StrategyKind) (tools : ToolRegistry) (n : Nat) (messages : List Message)
    (names : List String) (ctx : HitlPolicy → HitlContext) :
    (agent.runStrategy (buildStrategy kind (agent.skeleton tools n)) messages names ctx).Only
      Request.OfStrategy := by
  refine Prog.Meets.mono (agent.runStrategy_meets (B := fun _ _ => True) (W := fun _ => False) ?_ ?_ ?_ tools n
    messages names) (fun _ _ h => h) (fun _ h => h.1) fun _ _ => trivial
  · exact fun q r _ => callsAvoid_false 1 q r
  · exact fun _ _ _ _ _ _ h => h.elim
  · exact fun _ _ _ _ _ _ _ _ _ _ h => h

end Agent

end AgentVerse
