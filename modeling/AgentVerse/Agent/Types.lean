import AgentVerse.Hitl.Context
import AgentVerse.Plan.Strategy
import AgentVerse.Session.Memory
import AgentVerse.Subagent.Executor

/-!
# Agents

The configuration of an agent, its results and errors, and the strategies it runs: the fixed one, or one that the
strategy router selects for an invocation.
-/

namespace AgentVerse

open Effects

inductive StrategyName where
  | reAct
  | planAndExecute
  | hierarchical
  deriving DecidableEq

def StrategyName.display : StrategyName → String
  | reAct => "react"
  | planAndExecute => "plan_and_execute"
  | hierarchical => "hierarchical"

inductive AgentError where
  | session (e : SessionMemoryError)
  | llm (e : Core.AgentError)
  | skill (e : SkillError)
  | json (e : JsonError)
  | incompatiblePersistedInterrupt
  | routedStrategyDoesNotSupportHitl (strategy : StrategyName)
  deriving DecidableEq

inductive AgentOutput where
  | done (text : String)
  | interrupted (approvalId : ApprovalId) (kind : InterruptKind)
  deriving DecidableEq

inductive PhaseAdvanceResult where
  | advanced (transition : PhaseTransition)
  | pending (approvalId : ApprovalId)
  deriving DecidableEq

/-- `StrategyRouter`. `prompt` renders and checks the system prompt for a request. -/
structure StrategyRouter where
  strategies : List StrategyName
  prompt : String → Except Core.AgentError String

/-- `Agent`. The stores and the approval queue of `HitlConfig` are part of the world. -/
structure Agent where
  ext : Externals
  tools : ToolRegistry
  kind : StrategyKind
  maxIterations : Nat
  strategyRouter : Option StrategyRouter
  longtermMemory : Bool
  skills : Option SkillConfig
  hitl : Option HitlPolicy

/-- A session operation inside an agent call. -/
def sess {α : Type} (p : M SessionMemoryError α) : M AgentError α := p.mapErr .session

/-- A model operation inside an agent call. -/
def llm {α : Type} (p : M Core.AgentError α) : M AgentError α := p.mapErr .llm

def orJson {α : Type} [Nested α] (t : JsonText α) : M AgentError α :=
  match t.fromStr with
  | .ok a => .ret a
  | .error e => .fail (.json e)

namespace StrategyRouter

def parseName (text : String) : Option StrategyName :=
  match (String.ofList (trim text.toList)).toLower with
  | "react" => some .reAct
  | "plan_and_execute" => some .planAndExecute
  | "plan-and-execute" => some .planAndExecute
  | "hierarchical" => some .hierarchical
  | _ => none

/-- Ask the model which strategy to use. -/
def route (router : StrategyRouter) (request : String) : M Core.AgentError StrategyName := do
  match router.prompt request with
  | .error e => .fail e
  | .ok system =>
    let response ← invokeRunner 0 [.ofText .system system, .ofText .user ("Request: " ++ request)] none
    match parseName response.asText with
    | none => .fail (.model (.invalidResponse ("Unknown strategy: " ++ response.asText)))
    | some selected =>
      if router.strategies.contains selected then return selected
      else
        .fail (.model (.invalidResponse ("Selected strategy `" ++ selected.display ++
          "` is not in the router's available strategies")))

end StrategyRouter

def strategyKind : StrategyName → StrategyKind
  | .reAct => .react
  | .planAndExecute => .plan
  | .hierarchical => .hierarchical

/-- Maximum loop iterations for strategies constructed by the optional router. -/
def defaultRoutedStrategyMaxIterations : Nat := 10

namespace Agent

variable (agent : Agent)

/-- The subagent executor takes the agent's registry as its parent. -/
def executor : SubAgentExecutor := ⟨agent.ext, agent.tools, 1⟩

def skeleton (tools : ToolRegistry) (maxIterations : Nat) : CycleSkeleton :=
  ⟨agent.ext, tools, agent.executor.runTool, 0, maxIterations⟩

/-- The fixed strategy. -/
def strategy : RunStrategy := buildStrategy agent.kind (agent.skeleton agent.tools agent.maxIterations)

def buildRoutedStrategy (kind : StrategyKind) (activeToolNames : List String) : RunStrategy :=
  buildStrategy kind
    (agent.skeleton (agent.tools.restrictedToNames activeToolNames) defaultRoutedStrategyMaxIterations)

/-- Routed invocations with approvals can only select ReAct, so resume continues with a fresh ReAct strategy. -/
def strategyForResume (activeToolNames : List String) : RunStrategy :=
  match agent.strategyRouter with
  | some _ => agent.buildRoutedStrategy .react activeToolNames
  | none => agent.strategy

def strategyForInvoke (request : String) (activeToolNames : List String) : M AgentError RunStrategy :=
  match agent.strategyRouter with
  | none => .ret agent.strategy
  | some router => do
    let selected ← llm (router.route request)
    if agent.hitl.isSome && selected ≠ .reAct then .fail (.routedStrategyDoesNotSupportHitl selected)
    else return agent.buildRoutedStrategy (strategyKind selected) activeToolNames

/-- Run a strategy, with the approval hook where approvals are configured. -/
def runStrategy (strategy : RunStrategy) (messages : List Message) (activeToolNames : List String)
    (ctx : HitlPolicy → HitlContext) : M AgentError StrategyOutcome :=
  match agent.hitl with
  | some policy => llm (strategy.runHitl messages activeToolNames (ctx policy).hook)
  | none => llm (strategy.runWithActiveTools messages activeToolNames)

/-- Persist an interrupt: first the state, then the status. -/
def persistInterrupt (sid : SessionId) (state : InterruptedState) : M AgentError Unit := do
  sess (SessionMemory.setInterruptedState sid (some (.ofValue state)))
  sess (SessionMemory.updateStatus sid .interrupted)

/-- The state that `handle_tool_interrupt` persists. -/
def interruptedState (interrupt : HitlInterrupt) (kind : InterruptKind) (skillCtx : Option SkillContext) :
    InterruptedState :=
  match kind with
  | .skillCheckpoint .. =>
    .pendingCheckpoint interrupt.approvalId interrupt.kindJson (.ofValue interrupt.history)
      interrupt.activeToolNames (skillCtx.map .ofValue)
  | _ =>
    .pendingToolCall interrupt.approvalId interrupt.kindJson (.ofValue interrupt.history)
      (.ofValue interrupt.pendingCalls) interrupt.activeToolNames (skillCtx.map .ofValue)

theorem approvalId_interruptedState (i : HitlInterrupt) (kind : InterruptKind) (skillCtx : Option SkillContext) :
    (interruptedState i kind skillCtx).approvalId = i.approvalId := by
  cases kind <;> rfl

def handleToolInterrupt (sid : SessionId) (interrupt : HitlInterrupt) (skillCtx : Option SkillContext) :
    M AgentError AgentOutput := do
  match interrupt.kindJson.fromStr with
  | .error e => .fail (.llm (.memory ("bad HITL kind_json: " ++ e.message)))
  | .ok kind =>
    persistInterrupt sid (interruptedState interrupt kind skillCtx)
    return .interrupted interrupt.approvalId kind

section

variable {sid : SessionId} {interrupt : HitlInterrupt} {skillCtx : Option SkillContext} {kind : InterruptKind}
  {e : JsonError}

theorem handleToolInterrupt_read (h : interrupt.kindJson.fromStr = .ok kind) :
    handleToolInterrupt sid interrupt skillCtx =
      persistInterrupt sid (interruptedState interrupt kind skillCtx) >>= fun _ =>
        .ret (.interrupted interrupt.approvalId kind) := by
  rw [handleToolInterrupt, h]
  rfl

theorem handleToolInterrupt_unread (h : interrupt.kindJson.fromStr = .error e) :
    handleToolInterrupt sid interrupt skillCtx = .fail (.llm (.memory ("bad HITL kind_json: " ++ e.message))) := by
  rw [handleToolInterrupt, h]

end

end Agent

end AgentVerse
