import AgentVerse.React.Cycle

/-!
# ReAct strategy

The tool-calling loop of the ReAct strategy, without and with an approval hook. Both loops run at most
`maxIterations` times; the recursion is on the iterations that are left.
-/

namespace AgentVerse

open Effects

namespace ReActStrategy

variable (sk : CycleSkeleton)

def outOfIterations : Core.AgentError :=
  .model (.timeout ("Max iterations (" ++ toString sk.maxIterations ++ ") reached"))

def loop (names : List String) : (remaining : Nat) → List Message → M Core.AgentError StrategyOutcome
  | 0, _ => .fail (outOfIterations sk)
  | remaining + 1, buf => do
    let response ← sk.invoke buf names
    match actionFromResponse response with
    | .toolCalls calls =>
      let results ← infallible (sk.tools.executeMany sk.runTool sk.depth calls)
      loop names remaining (buf ++ batchMessages sk.ext response calls results)
    | .done answer => return .done answer
    | .error message => .fail (.model (.invalidResponse message))

/-- What the model is told when it answers without having called a required tool. -/
def requiredToolReminder (required : List String) : String :=
  "You did not call the required tool (" ++ ", ".intercalate required ++ ") before answering. " ++
    "This step requires human approval — you must call it before you can finish. Call it now."

def hitlLoop (names : List String) (hook : HitlHook) :
    (remaining : Nat) → List Message → (requiredToolCalled : Bool) → M Core.AgentError StrategyOutcome
  | 0, _, _ => .fail (outOfIterations sk)
  | remaining + 1, buf, requiredToolCalled => do
    let response ← sk.invoke buf names
    match actionFromResponse response with
    | .toolCalls calls =>
      let requiredToolCalled :=
        requiredToolCalled || calls.any fun c => hook.requiredToolNames.contains c.name
      match ← infallible (sk.tools.executeManyHitl sk.runTool sk.depth hook calls) with
      | .ok results =>
        hitlLoop names hook remaining (buf ++ batchMessages sk.ext response calls results) requiredToolCalled
      | .error interrupt =>
        -- The history is the buffer before the assistant turn, so it has no tool call without a result.
        return .interrupted ⟨interrupt.approvalId, interrupt.kindJson, buf, calls, names⟩
    | .done answer =>
      if requiredToolCalled then return .done answer
      else
        hitlLoop names hook remaining
          (buf ++ [⟨.assistant, response.content⟩,
            .ofText .user (requiredToolReminder hook.requiredToolNames)]) requiredToolCalled
    | .error message => .fail (.model (.invalidResponse message))

def runWithActiveTools (messages : List Message) (names : List String) :
    M Core.AgentError StrategyOutcome :=
  loop sk names sk.maxIterations (prepareBuffer sk.ext messages)

def run (messages : List Message) : M Core.AgentError StrategyOutcome :=
  runWithActiveTools sk messages sk.tools.toolNames

def runHitl (messages : List Message) (names : List String) (hook : HitlHook) :
    M Core.AgentError StrategyOutcome :=
  hitlLoop sk names hook sk.maxIterations (prepareBuffer sk.ext messages) hook.requiredToolNames.isEmpty

def strategy : RunStrategy := ⟨run sk, runWithActiveTools sk, runHitl sk⟩

end ReActStrategy

end AgentVerse
