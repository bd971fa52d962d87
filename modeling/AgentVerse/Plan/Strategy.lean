import AgentVerse.React.Strategy

/-!
# Plan strategies

Plan-and-execute, and hierarchical planning, which does the same for each sub-goal of a request. Both execute the
tools of their plans themselves. Neither overrides `run_hitl`, so both get its default: the hook is not consulted.
-/

namespace AgentVerse

open Effects

/-! ### Planner -/

/-- The prompt guardrail. -/
def checkPromptGuardrail (ext : Externals) (prompt : String) : M Core.AgentError Unit :=
  match ext.checkPrompt prompt with
  | none => .ret ()
  | some msg => .fail (.guardrailPromptInjection msg)

/-- Ask the model with a rendered strategy prompt and read its answer. -/
def askPlanner {α : Type} (ext : Externals) (depth : Nat) (prompt : Except String String) (request : String)
    (what : String) (parse : String → Except String α) : M Core.AgentError α := do
  match prompt with
  | .error e => .fail (.config e)
  | .ok strategyPrompt =>
    checkPromptGuardrail ext strategyPrompt
    let response ← invokeRunner depth
      [.ofText .system strategyPrompt, .ofText .user ("Request: " ++ request)] none
    match parse response.asText with
    | .ok a => return a
    | .error e =>
      .fail (.model (.invalidResponse
        ("Failed to parse " ++ what ++ ": " ++ e ++ ". Response was: " ++ response.asText)))

def generatePlan (ext : Externals) (depth : Nat) (request tools conversation : String) :
    M Core.AgentError Plan :=
  askPlanner ext depth (ext.planPrompt tools conversation) request "plan JSON" ext.parsePlan

def decomposeRequest (ext : Externals) (depth : Nat) (request : String) : M Core.AgentError (List String) :=
  askPlanner ext depth (ext.decomposePrompt request) request "decomposition" ext.parseGoals

/-! ### What the two strategies share -/

/-- The text of the last user message. -/
def lastUserText (messages : List Message) : String :=
  match messages.reverse.find? fun m => m.role = .user with
  | some m => m.asText
  | none => ""

def MessageRole.label : MessageRole → String
  | .system => "System"
  | .user => "User"
  | .assistant => "Assistant"
  | .tool => "Tool"

def renderConversation (messages : List Message) : String :=
  "\n".intercalate (messages.map fun m => m.role.label ++ ": " ++ m.asText)

/-- `execute_tool`: a string result as it is, any other value printed. -/
def executeTool (sk : CycleSkeleton) (name : String) (args : Json) :
    M Core.AgentError (Except Core.AgentError String) := do
  match ← infallible (sk.tools.execute sk.runTool sk.depth name args) with
  | .finished (.ok (.string s)) => return .ok s
  | .finished (.ok v) => return .ok (sk.ext.display v)
  | .finished (.error e) => return .error (.tool e)
  | .panicked => .fail .panicked

/-- One step of a plan. -/
def runStep (sk : CycleSkeleton) (names : List String) (step : PlanStep) : M Core.AgentError String := do
  match step.tool with
  | some toolName =>
    if !names.isEmpty && !names.contains toolName then
      return "Tool '" ++ toolName ++ "' is not available for this session"
    else
      match ← executeTool sk toolName (step.args.getD .null) with
      | .ok r => return r
      | .error e => return "Tool error: " ++ e.display
  | none => return "Reasoning: " ++ step.description

/-- The steps of a plan, up to the first one numbered past the iteration limit. -/
def runSteps (sk : CycleSkeleton) (names : List String) : List PlanStep → M Core.AgentError (List (Nat × String))
  | [] => .ret []
  | step :: steps =>
    if step.id > sk.maxIterations then .ret []
    else do
      let result ← runStep sk names step
      let rest ← runSteps sk names steps
      return (step.id, result) :: rest

/-- The final answer from the results. -/
def synthesize (sk : CycleSkeleton) (system user : String) : M Core.AgentError StrategyOutcome := do
  let answer ← invokeRunner sk.depth [.ofText .system system, .ofText .user user] none
  checkOutputGuardrail sk.ext answer.asText
  return .done answer.asText

namespace PlanStrategy

variable (sk : CycleSkeleton)

def runWithActiveTools (messages : List Message) (names : List String) :
    M Core.AgentError StrategyOutcome := do
  let input := lastUserText messages
  let plan ← generatePlan sk.ext sk.depth input (sk.tools.toolSummariesFor names) (renderConversation messages)
  let stepResults ← runSteps sk names plan.steps
  let rendered := "\n".intercalate
    (stepResults.map fun r => "Step " ++ toString r.1 ++ ": " ++ r.2)
  synthesize sk
    ("You executed the following plan:\nPlan: " ++ plan.description ++ "\n\nStep results:\n" ++ rendered ++
      "\n\nProvide the final answer to: " ++ input)
    "Based on the executed plan, provide the final answer."

/-- `run_hitl` is the default of the trait. -/
def strategy : RunStrategy where
  run messages := runWithActiveTools sk messages sk.tools.toolNames
  runWithActiveTools := runWithActiveTools sk
  runHitl messages names _ := runWithActiveTools sk messages names

end PlanStrategy

namespace HierarchicalStrategy

variable (sk : CycleSkeleton)

/-- The plan of one sub-goal. A failing planner is noted in the results. -/
def runGoal (messages : List Message) (names : List String) (goal : String) : M Core.AgentError String := do
  match ← (generatePlan sk.ext sk.depth goal (sk.tools.toolSummariesFor names)
      (renderConversation messages)).attempt with
  | .error e => return "Plan generation failed: " ++ e.display
  | .ok plan =>
    let results ← runSteps sk names plan.steps
    return "\n".intercalate (results.map (·.2))

def runGoals (messages : List Message) (names : List String) :
    List (String × Nat) → M Core.AgentError (List (Nat × String))
  | [] => .ret []
  | (goal, i) :: goals => do
    let result ← runGoal sk messages names goal
    let rest ← runGoals messages names goals
    return (i, result) :: rest

def runWithActiveTools (maxDecomposeDepth : Nat) (messages : List Message) (names : List String) :
    M Core.AgentError StrategyOutcome := do
  let input := lastUserText messages
  let subGoals ← decomposeRequest sk.ext sk.depth input
  let results ← runGoals sk messages names (subGoals.zipIdx.take maxDecomposeDepth)
  let rendered := "\n".intercalate
    (results.map fun r => "Sub-goal " ++ toString r.1 ++ ": " ++ r.2)
  synthesize sk
    ("You are a synthesis assistant. Combine the results of the completed sub-goals below into a single, " ++
      "comprehensive answer to the user's request.")
    ("All sub-goals have been executed. Provide a comprehensive answer to the user's request.\n\n" ++
      "User request: " ++ input ++ "\n\nSub-goal results:\n" ++ rendered)

/-- `run_hitl` is the default of the trait. -/
def strategy (maxDecomposeDepth : Nat) : RunStrategy where
  run messages := runWithActiveTools sk maxDecomposeDepth messages sk.tools.toolNames
  runWithActiveTools := runWithActiveTools sk maxDecomposeDepth
  runHitl messages names _ := runWithActiveTools sk maxDecomposeDepth messages names

end HierarchicalStrategy

/-! ### Factory -/

inductive StrategyKind where
  | react
  | plan
  | hierarchical
  deriving DecidableEq

/-- Build a strategy of a kind. -/
def buildStrategy (kind : StrategyKind) (sk : CycleSkeleton) : RunStrategy :=
  match kind with
  | .react => ReActStrategy.strategy sk
  | .plan => PlanStrategy.strategy sk
  | .hierarchical => HierarchicalStrategy.strategy sk 3

end AgentVerse
