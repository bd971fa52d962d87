import AgentVerse.Agent.StrategyFootprint
import AgentVerse.React.Conversation

/-!
# Buffers of strategies

Every model call of a strategy run, and of the subagents it starts, is made with a conversation, if the run starts
from one and the model replies with texts and tool calls. A run that is stopped by its hook hands a conversation over
as well.
-/

namespace AgentVerse

open Effects

/-- The request that `invoke_inner` makes of its messages. -/
def runnerRequest (messages : List Message) (tools : Option (List ToolDefinition)) : GenerateRequest :=
  let systemParts := (messages.filter fun m => m.role = .system).map (·.asText)
  let system := if systemParts.isEmpty then none else some ("\n\n".intercalate systemParts)
  ⟨system, messages.filter fun m => m.role ≠ .system, tools, none⟩

namespace Request

/-- A model call is made with a conversation. -/
def Converses : Request → Prop
  | .generate _ req => ∃ buf tools, Conversation buf ∧ req = runnerRequest buf tools
  | _ => True

/-- A request of a strategy that calls the model with conversations only. -/
def OfDialogue (q : Request) : Prop := q.OfStrategy ∧ q.Converses

end Request

/-- A run that is stopped hands a conversation over. -/
def HandsOver {ε : Type} (r : Except ε StrategyOutcome) : Prop := ∀ i, r = .ok (.interrupted i) → Conversation i.history

section

variable {B : (q : Request) → Reply q → Prop}
  (hB : ∀ depth req resp, B (.generate depth req) (.ok resp) → resp.Spoken)

/-! ### Model calls -/

include hB in
theorem invokeRunner_converses (depth : Nat) {messages : List Message} (h : Conversation messages)
    (tools : Option (List ToolDefinition)) :
    (invokeRunner depth messages tools).Meets B Request.OfDialogue fun r => ∀ resp, r = .ok resp → resp.Spoken := by
  refine ⟨⟨trivial, messages, tools, h, rfl⟩, fun r hr => ?_⟩
  cases r with
  | ok resp =>
    intro resp' h
    cases h
    exact hB _ _ _ hr
  | error e => exact fun resp h => by cases h

include hB in
theorem CycleSkeleton.invoke_converses (sk : CycleSkeleton) {messages : List Message} (h : Conversation messages)
    (names : List String) :
    (sk.invoke messages names).Meets B Request.OfDialogue fun r => ∀ resp, r = .ok resp → resp.Spoken := by
  unfold CycleSkeleton.invoke
  cases sk.tools.toolDefinitionsFor names with
  | error e => exact fun resp h => by cases h
  | ok definitions =>
    refine Prog.Meets.bind (invokeRunner_converses hB _ h _) (fun resp hresp => ?_) fun e _ resp h => by cases h
    refine Prog.Meets.bind (checkOutputGuardrail_meets ..) (fun _ _ => ?_) fun e _ resp h => by cases h
    intro resp' h
    cases h
    exact hresp resp rfl

/-- An answer calls no tool, so it is a plain message. -/
theorem plain_of_done {response : GenerateResponse} {answer : String} (hspoken : response.Spoken)
    (h : actionFromResponse response = .done answer) : (⟨.assistant, response.content⟩ : Message).Plain := by
  unfold actionFromResponse at h
  split at h
  · cases h
  · rename_i hcalls
    have hempty : response.calls = [] := by simpa using hcalls
    refine ⟨List.filterMap_eq_nil_iff.mpr fun b hb => ?_, List.filterMap_eq_nil_iff.mpr hspoken⟩
    have hb' := List.filterMap_eq_nil_iff.mp hempty b hb
    cases b with
    | toolUse id name input => cases hb'
    | _ => rfl

/-! ### ReAct -/

section Loops

variable {sk : CycleSkeleton} (hrun : ∀ t d, (sk.runTool t d).Meets B Request.OfDialogue AnyResult)

include hrun in
theorem batch_converses (calls : List ToolCall) :
    (sk.tools.executeMany sk.runTool sk.depth calls).Meets B Request.OfDialogue AnyResult :=
  executeMany_meets (P := fun _ => True) (fun t d _ => hrun t d) ⟨trivial, trivial⟩ ⟨trivial, trivial⟩
    fun _ _ _ => trivial

include hB hrun in
theorem loop_converses (names : List String) (remaining : Nat) {buf : List Message} (h : Conversation buf) :
    (ReActStrategy.loop sk names remaining buf).Meets B Request.OfDialogue HandsOver := by
  induction remaining generalizing buf with
  | zero => exact fun i hi => by cases hi
  | succ remaining ih =>
    unfold ReActStrategy.loop
    refine Prog.Meets.bind (sk.invoke_converses hB h names) (fun resp hresp => ?_) fun e _ i hi => by cases hi
    cases ha : actionFromResponse resp with
    | toolCalls calls =>
      refine Prog.Meets.bind (infallible_any (batch_converses hrun calls)) (fun results _ => ih ?_) fun e _ i hi => by
        cases hi
      exact h.append (conversation_batchMessages (hresp resp rfl) (actionFromResponse_calls ha) results)
    | done answer => exact fun i hi => by cases hi
    | error message => exact fun i hi => by cases hi

include hB hrun in
theorem hitlLoop_converses {hook : HitlHook} (hhook : ∀ name args, (hook.checkTool name args).Meets B
      Request.OfDialogue AnyResult) (names : List String) (remaining : Nat) {buf : List Message} (h : Conversation buf)
    (called : Bool) : (ReActStrategy.hitlLoop sk names hook remaining buf called).Meets B Request.OfDialogue HandsOver := by
  have hcheck : ∀ calls, (ToolRegistry.checkAll hook calls).Meets B Request.OfDialogue AnyResult := by
    intro calls
    induction calls with
    | nil => trivial
    | cons c cs ih =>
      refine Prog.Meets.bind (hhook c.name c.args) (fun x _ => ?_) fun _ _ => trivial
      cases x with
      | some x => trivial
      | none => exact ih
  induction remaining generalizing buf called with
  | zero => exact fun i hi => by cases hi
  | succ remaining ih =>
    unfold ReActStrategy.hitlLoop
    refine Prog.Meets.bind (sk.invoke_converses hB h names) (fun resp hresp => ?_) fun e _ i hi => by cases hi
    cases ha : actionFromResponse resp with
    | toolCalls calls =>
      refine Prog.Meets.bind (P := AnyResult) (infallible_any ?_) (fun x _ => ?_) fun e _ i hi => by cases hi
      · refine Prog.Meets.bind (hcheck calls) (fun x _ => ?_) fun _ _ => trivial
        cases x with
        | some interrupt => trivial
        | none => exact Prog.Meets.bind (batch_converses hrun calls) (fun _ _ => trivial) fun _ _ => trivial
      · cases x with
        | ok results =>
          exact ih (h.append (conversation_batchMessages (hresp resp rfl) (actionFromResponse_calls ha) results)) _
        | error interrupt =>
          -- The buffer is handed over as it was before the assistant turn.
          intro i hi
          cases hi
          exact h
    | done answer =>
      dsimp only
      split
      · exact fun i hi => by cases hi
      · refine ih (h.append (.plain (plain_of_done (hresp resp rfl) ha) (.plain ?_ .nil))) _
        exact Message.plain_ofText ..
    | error message => exact fun i hi => by cases hi

end Loops

/-! ### Subagents -/

include hB in
theorem runCycle_converses {sk : CycleSkeleton} (hrun : ∀ t d, (sk.runTool t d).Meets B Request.OfDialogue AnyResult)
    (budget : Budget) (remaining : Nat) {buf : List Message} (h : Conversation buf) (usage : UsageStats) (steps : Nat) :
    (runCycle sk budget remaining buf usage steps).Meets B Request.OfDialogue AnyResult := by
  induction remaining generalizing buf usage steps with
  | zero =>
    unfold runCycle
    dsimp only
    split <;> trivial
  | succ remaining ih =>
    unfold runCycle
    dsimp only
    split
    · trivial
    · refine Prog.Meets.bind (P := fun r => ∀ resp, r = .ok resp → resp.Spoken)
        (Prog.Meets.mapErr (sk.invoke_converses hB h _) fun r hr resp hresp => ?_) (fun resp hresp => ?_)
        fun _ _ => trivial
      · cases r with
        | ok resp' =>
          cases hresp
          exact hr _ rfl
        | error e => cases hresp
      · cases ha : actionFromResponse resp with
        | toolCalls calls =>
          refine Prog.Meets.bind (infallible_any (batch_converses hrun calls)) (fun results _ => ih ?_ _ _)
            fun _ _ => trivial
          exact h.append (conversation_batchMessages (hresp resp rfl) (actionFromResponse_calls ha) results)
        | done answer => trivial
        | error message => trivial

theorem conversation_buildInitialMessages (spec : SubAgentSpec) (ctx : SubAgentContext) :
    Conversation (buildInitialMessages spec ctx) := by
  unfold buildInitialMessages
  refine Conversation.append ?_ (.plain (Message.plain_ofText ..) .nil)
  cases spec.systemPrompt with
  | some sys => exact .plain (Message.plain_ofText ..) .nil
  | none => exact .nil

namespace SubAgentExecutor

variable (executor : SubAgentExecutor)

include hB in
theorem run_converses (spec : SubAgentSpec) (ctx : SubAgentContext) :
    (executor.run spec ctx).Meets B Request.OfDialogue AnyResult := by
  unfold run
  split
  · trivial
  · split
    · trivial
    · refine Prog.Meets.bind (P := AnyResult) ⟨⟨trivial, trivial⟩, fun _ _ => trivial⟩ (fun start _ => ?_)
        fun _ _ => trivial
      refine Prog.Meets.bind (P := AnyResult) ?_ (fun r _ => ?_) fun _ _ => trivial
      · refine Prog.Meets.attempt (P := AnyResult) (Prog.Meets.cutOff (P := AnyResult) ?_ ⟨trivial, trivial⟩ trivial)
          fun _ _ => trivial
        refine Prog.Meets.mapErr (P := AnyResult) (runCycle_converses hB (fun t d => ?_) _ _ ?_ _ _) fun _ _ => trivial
        · exact ⟨⟨trivial, trivial⟩, fun _ _ => trivial⟩
        · exact (conversation_buildInitialMessages spec ctx).prepareBuffer _
      · match r with
        | .ok result => trivial
        | .error (some e) => trivial
        | .error none => exact ⟨⟨trivial, trivial⟩, fun _ _ => trivial⟩

include hB in
theorem runTool_converses (t : ErasedTool) (d : Dispatch) :
    (executor.runTool t d).Meets B Request.OfDialogue AnyResult := by
  unfold runTool
  cases t.body with
  | plain => exact ⟨⟨trivial, trivial⟩, fun _ _ => trivial⟩
  | subagent =>
    refine ⟨⟨trivial, trivial⟩, fun _ _ => ?_⟩
    dsimp only
    cases executor.ext.parseSubAgentArgs d.args with
    | error e => trivial
    | ok args =>
      refine Prog.Meets.bind (P := AnyResult) (Prog.Meets.attempt (executor.run_converses hB _ _) fun _ _ => trivial)
        (fun r _ => ?_) fun _ _ => trivial
      cases r <;> trivial

end SubAgentExecutor

/-! ### Plans -/

/-- A system prompt and one user message. -/
theorem conversation_prompt (system user : String) :
    Conversation [.ofText .system system, .ofText .user user] :=
  .plain (Message.plain_ofText ..) (.plain (Message.plain_ofText ..) .nil)

include hB in
theorem askPlanner_converses {α : Type} (ext : Externals) (depth : Nat) (prompt : Except String String)
    (req what : String) (parse : String → Except String α) :
    (askPlanner ext depth prompt req what parse).Meets B Request.OfDialogue AnyResult := by
  unfold askPlanner
  cases prompt with
  | error e => trivial
  | ok strategyPrompt =>
    refine Prog.Meets.bind (P := AnyResult) ?_ (fun _ _ => ?_) fun _ _ => trivial
    · unfold checkPromptGuardrail
      cases ext.checkPrompt strategyPrompt <;> trivial
    · refine Prog.Meets.bind (invokeRunner_converses hB depth (conversation_prompt ..) _) (fun resp _ => ?_)
        fun _ _ => trivial
      cases parse resp.asText <;> trivial

section Plans

variable {sk : CycleSkeleton} (hrun : ∀ t d, (sk.runTool t d).Meets B Request.OfDialogue AnyResult)

include hrun in
theorem runSteps_converses (names : List String) (steps : List PlanStep) :
    (runSteps sk names steps).Meets B Request.OfDialogue AnyResult := by
  have hexecute : ∀ name args, (executeTool sk name args).Meets B Request.OfDialogue AnyResult := by
    intro name args
    refine Prog.Meets.bind (infallible_any ?_) (fun r _ => ?_) fun _ _ => trivial
    · unfold ToolRegistry.execute
      cases sk.tools.get name with
      | none => trivial
      | some t => exact hrun t _
    · split <;> trivial
  induction steps with
  | nil => trivial
  | cons step steps ih =>
    unfold runSteps
    split
    · trivial
    · refine Prog.Meets.bind (P := AnyResult) ?_ (fun _ _ => ?_) fun _ _ => trivial
      · unfold runStep
        cases step.tool with
        | none => trivial
        | some toolName =>
          dsimp only
          split
          · trivial
          · exact Prog.Meets.bind (hexecute ..) (fun r _ => by cases r <;> trivial) fun _ _ => trivial
      · exact Prog.Meets.bind ih (fun _ _ => trivial) fun _ _ => trivial

include hB in
theorem synthesize_converses (system user : String) :
    (synthesize sk system user).Meets B Request.OfDialogue HandsOver := by
  refine Prog.Meets.bind (invokeRunner_converses hB sk.depth (conversation_prompt ..) _) (fun resp _ => ?_)
    fun e _ i hi => by cases hi
  exact Prog.Meets.bind (checkOutputGuardrail_meets ..) (fun _ _ i hi => by cases hi) fun e _ i hi => by cases hi

include hB hrun in
theorem planRun_converses (messages : List Message) (names : List String) :
    (PlanStrategy.runWithActiveTools sk messages names).Meets B Request.OfDialogue HandsOver := by
  refine Prog.Meets.bind (askPlanner_converses hB ..) (fun plan _ => ?_) fun e _ i hi => by cases hi
  refine Prog.Meets.bind (runSteps_converses hrun names _) (fun _ _ => ?_) fun e _ i hi => by cases hi
  exact synthesize_converses hB ..

include hB hrun in
theorem hierarchicalRun_converses (n : Nat) (messages : List Message) (names : List String) :
    (HierarchicalStrategy.runWithActiveTools sk n messages names).Meets B Request.OfDialogue HandsOver := by
  have hgoals : ∀ goals, (HierarchicalStrategy.runGoals sk messages names goals).Meets B Request.OfDialogue AnyResult := by
    intro goals
    induction goals with
    | nil => trivial
    | cons goal goals ih =>
      refine Prog.Meets.bind (P := AnyResult) ?_ (fun _ _ => ?_) fun _ _ => trivial
      · refine Prog.Meets.bind (P := AnyResult) (Prog.Meets.attempt (askPlanner_converses hB ..) fun _ _ => trivial)
          (fun x _ => ?_) fun _ _ => trivial
        cases x with
        | error e => trivial
        | ok plan => exact Prog.Meets.bind (runSteps_converses hrun names _) (fun _ _ => trivial) fun _ _ => trivial
      · exact Prog.Meets.bind ih (fun _ _ => trivial) fun _ _ => trivial
  refine Prog.Meets.bind (askPlanner_converses hB ..) (fun goals _ => ?_) fun e _ i hi => by cases hi
  refine Prog.Meets.bind (hgoals _) (fun _ _ => ?_) fun e _ i hi => by cases hi
  exact synthesize_converses hB ..

end Plans

/-! ### The strategies of an agent -/

/-- The hook of an approval context calls no model. -/
theorem checkTool_converses (ctx : HitlContext) (name : String) (args : Json) :
    (ctx.checkTool name args).Meets B Request.OfDialogue AnyResult := by
  unfold HitlContext.checkTool
  cases ctx.interruptKind name args with
  | none => trivial
  | some kind =>
    refine Prog.Meets.bind (P := AnyResult) ⟨⟨trivial, trivial⟩, fun r _ => ?_⟩ (fun _ _ => trivial) fun _ _ => trivial
    cases r with
    | ok id => trivial
    | error e => exact ⟨⟨trivial, trivial⟩, fun _ _ => trivial⟩

namespace Agent

variable (agent : Agent)

include hB in
theorem runWithActiveTools_converses (kind : StrategyKind) (tools : ToolRegistry) (n : Nat) {messages : List Message}
    (h : Conversation messages) (names : List String) :
    ((buildStrategy kind (agent.skeleton tools n)).runWithActiveTools messages names).Meets B Request.OfDialogue
      HandsOver := by
  have hrun : ∀ t d, ((agent.skeleton tools n).runTool t d).Meets B Request.OfDialogue AnyResult :=
    agent.executor.runTool_converses hB
  cases kind with
  | react => exact loop_converses hB hrun names _ (h.prepareBuffer _)
  | plan => exact planRun_converses hB hrun messages names
  | hierarchical => exact hierarchicalRun_converses hB hrun 3 messages names

include hB in
theorem runHitl_converses (kind : StrategyKind) (tools : ToolRegistry) (n : Nat) {messages : List Message}
    (h : Conversation messages) (names : List String) (ctx : HitlContext) :
    ((buildStrategy kind (agent.skeleton tools n)).runHitl messages names ctx.hook).Meets B Request.OfDialogue
      HandsOver := by
  have hrun : ∀ t d, ((agent.skeleton tools n).runTool t d).Meets B Request.OfDialogue AnyResult :=
    agent.executor.runTool_converses hB
  cases kind with
  | react => exact hitlLoop_converses hB hrun (checkTool_converses ctx) names _ (h.prepareBuffer _) _
  | plan => exact planRun_converses hB hrun messages names
  | hierarchical => exact hierarchicalRun_converses hB hrun 3 messages names

include hB in
/-- A run of any strategy converses, and hands a conversation over when it is stopped. -/
theorem runStrategy_converses (kind : StrategyKind) (tools : ToolRegistry) (n : Nat) {messages : List Message}
    (h : Conversation messages) (names : List String) (ctx : HitlPolicy → HitlContext) :
    (agent.runStrategy (buildStrategy kind (agent.skeleton tools n)) messages names ctx).Meets B Request.OfDialogue
      HandsOver := by
  have hllm : ∀ {p : M Core.AgentError StrategyOutcome}, p.Meets B Request.OfDialogue HandsOver →
      (llm p).Meets B Request.OfDialogue HandsOver := by
    intro p hp
    refine Prog.Meets.mapErr hp fun r hr i hi => ?_
    cases r with
    | ok a =>
      cases hi
      exact hr i rfl
    | error e => cases hi
  unfold runStrategy
  cases agent.hitl with
  | none => exact hllm (agent.runWithActiveTools_converses hB kind tools n h names)
  | some policy => exact hllm (agent.runHitl_converses hB kind tools n h names (ctx policy))

include hB in
theorem strategyForInvoke_converses (input : String) (names : List String) :
    (agent.strategyForInvoke input names).Meets B Request.OfDialogue AnyResult := by
  unfold strategyForInvoke
  cases agent.strategyRouter with
  | none => trivial
  | some router =>
    refine Prog.Meets.bind (P := AnyResult) (Prog.Meets.mapErr (P := AnyResult) ?_ fun _ _ => trivial)
      (fun selected _ => ?_) fun _ _ => trivial
    · unfold StrategyRouter.route
      cases router.prompt input with
      | error e => trivial
      | ok system =>
        refine Prog.Meets.bind (invokeRunner_converses hB 0 (conversation_prompt ..) _) (fun resp _ => ?_)
          fun _ _ => trivial
        split
        · trivial
        · split <;> trivial
    · split <;> trivial

end Agent

end

end AgentVerse
