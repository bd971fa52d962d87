import AgentVerse.React.Cycle

/-!
# Subagents

The subagent tool runs a cycle of its own, with the tools it is allowed among those of its parent. Its calls go to
`execute_many`; no approval hook reaches them.
-/

namespace AgentVerse

open Effects

structure Budget where
  maxSteps : Nat
  maxTokens : UInt32

/-- `SubAgentSpec`, without its name, which is only traced. -/
structure SubAgentSpec where
  objective : String
  systemPrompt : Option String
  model : Option String
  allowedTools : List String
  budget : Budget

structure SubAgentContext where
  resources : List ResourceContent
  depth : Nat

structure SubAgentResult where
  answer : String
  usage : UsageStats
  steps : Nat

inductive SubAgentError where
  | depthExceeded
  | stepBudgetExceeded (steps : Nat)
  | tokenBudgetExceeded (used limit : UInt32)
  | timeout (elapsed : Nat)
  | llm (e : Core.AgentError)
  deriving DecidableEq

def SubAgentError.display (ext : Externals) : SubAgentError → String
  | depthExceeded => "depth limit exceeded: subagents cannot spawn subagents"
  | stepBudgetExceeded steps => "step budget exhausted after " ++ toString steps ++ " steps"
  | tokenBudgetExceeded used limit =>
    "token budget exceeded: used " ++ toString used ++ ", limit " ++ toString limit
  | timeout elapsed => "timeout after " ++ ext.showElapsed elapsed
  | llm e => "llm error: " ++ e.display

structure SubAgentExecutor where
  ext : Externals
  parentTools : ToolRegistry
  maxDepth : Nat

/-- Known aliases stand for model ids; other names pass through. -/
def resolveModelName : String → String
  | "haiku" => "claude-haiku-4-5-20251001"
  | "sonnet" => "claude-sonnet-4-6"
  | "opus" => "claude-opus-4-8"
  | other => other

def buildInitialMessages (spec : SubAgentSpec) (ctx : SubAgentContext) : List Message :=
  let user := "Objective: " ++ spec.objective
  let resources := ctx.resources.map fun r => "\n### " ++ r.label ++ "\n" ++ r.content ++ "\n"
  let content := if ctx.resources.isEmpty then user else user ++ "\n\n## Context\n" ++ String.join resources
  (match spec.systemPrompt with
    | some sys => [.ofText .system sys]
    | none => []) ++ [.ofText .user content]

/-- A plain tool runs its body. The tools of a subagent are plain, since `filterByNames` leaves out the subagent tool. -/
def runPlainTool : ToolRunner := fun _ d => .ask (.executeRaw d) .ret

/-- The loop of a subagent, `remaining` steps before its step budget is used up. -/
def runCycle (sk : CycleSkeleton) (budget : Budget) :
    (remaining : Nat) → List Message → UsageStats → (steps : Nat) → M SubAgentError SubAgentResult
  | remaining, buf, usage, steps =>
    let tokensUsed := usage.inputTokens + usage.outputTokens
    if tokensUsed > budget.maxTokens then .fail (.tokenBudgetExceeded tokensUsed budget.maxTokens)
    else match remaining with
      | 0 => .fail (.stepBudgetExceeded steps)
      | remaining + 1 => do
        let response ← (sk.invoke buf sk.tools.toolNames).mapErr .llm
        let usage := usage.add response.usage
        match actionFromResponse response with
        | .toolCalls calls =>
          let results ← infallible (sk.tools.executeMany sk.runTool sk.depth calls)
          runCycle sk budget remaining (buf ++ batchMessages sk.ext response calls results) usage (steps + 1)
        | .done answer => return ⟨answer, usage, steps + 1⟩
        | .error message => .fail (.llm (.model (.invalidResponse message)))

namespace SubAgentExecutor

variable (executor : SubAgentExecutor)

def run (spec : SubAgentSpec) (ctx : SubAgentContext) : M SubAgentError SubAgentResult :=
  if ctx.depth ≥ executor.maxDepth then .fail .depthExceeded
  else
    match spec.model.bind fun name => executor.ext.withModel (resolveModelName name) with
    | some e => .fail (.llm (.model e))
    | none => do
      let scopedTools := executor.parentTools.filterByNames spec.allowedTools
      let sk : CycleSkeleton := ⟨executor.ext, scopedTools, runPlainTool, ctx.depth + 1, spec.budget.maxSteps⟩
      let buf := prepareBuffer executor.ext (buildInitialMessages spec ctx)
      let start ← request .now
      let inner := runCycle sk spec.budget spec.budget.maxSteps buf .zero 0
      -- `tokio::time::timeout` drops the cycle at the first step that comes too late.
      match ← ((inner.mapErr some).cutOff .deadline id none).attempt with
      | .ok result => return result
      | .error (some e) => .fail e
      | .error none =>
        let stop ← request .now
        .fail (.timeout (stop - start))

/-- `SubAgentTool::execute`, for a tool registered at the root (`current_depth` 0). -/
def executeTool (args : SubAgentArgs) : M Empty TaskEnd := do
  let spec : SubAgentSpec :=
    { objective := args.objective, systemPrompt := args.systemPrompt, model := args.model
      allowedTools := args.allowedTools
      budget := ⟨args.maxSteps.getD 10, args.maxTokens.getD 20000⟩ }
  match ← (executor.run spec ⟨args.resources, 0⟩).attempt with
  | .ok result => return .finished (.ok (.string result.answer))
  | .error e => return .finished (.error (.execution (e.display executor.ext)))

/-- How an agent runs a tool: the body of the subagent tool is a cycle, every other body is outside. -/
def runTool : ToolRunner := fun t d =>
  match t.body with
  | .plain => runPlainTool t d
  | .subagent =>
    .ask (.enterSubagent d) fun _ =>
      match executor.ext.parseSubAgentArgs d.args with
      | .ok args => executor.executeTool args
      | .error e => .ret (.finished (.error (.invalidArgs e)))

end SubAgentExecutor

end AgentVerse
