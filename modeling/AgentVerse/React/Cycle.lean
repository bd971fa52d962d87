import AgentVerse.Tools.Registry

/-!
# The cycle skeleton

What the tool-calling loops share: the call of the model, the reading of its response as an action, and the order in
which the results of a batch go back into the conversation.
-/

namespace AgentVerse

open Effects

/-- What a strategy leaves behind when an approval hook stops it. -/
structure HitlInterrupt where
  approvalId : ApprovalId
  kindJson : JsonText InterruptKind
  history : List Message
  pendingCalls : List ToolCall
  activeToolNames : List String
  deriving DecidableEq

inductive StrategyOutcome where
  | done (text : String)
  | interrupted (interrupt : HitlInterrupt)
  deriving DecidableEq

/-- The `RunStrategy` trait. -/
structure RunStrategy where
  run : List Message → M Core.AgentError StrategyOutcome
  runWithActiveTools : List Message → List String → M Core.AgentError StrategyOutcome
  runHitl : List Message → List String → HitlHook → M Core.AgentError StrategyOutcome

/-! ### Calling the model -/

/-- `LlmRunner::invoke_inner`: system messages are joined into the system prompt. -/
def invokeRunner (depth : Nat) (messages : List Message) (tools : Option (List ToolDefinition)) :
    M Core.AgentError GenerateResponse :=
  let systemParts := (messages.filter fun m => m.role = .system).map (·.asText)
  let system := if systemParts.isEmpty then none else some ("\n\n".intercalate systemParts)
  .ask (.generate depth ⟨system, messages.filter fun m => m.role ≠ .system, tools, none⟩) fun
    | .ok response => .ret response
    | .error e => .fail (.model e)

/-- Apply the output guardrail to a response. -/
def checkOutputGuardrail (ext : Externals) (output : String) : M Core.AgentError Unit :=
  match ext.checkOutput output with
  | none => .ret ()
  | some msg => .fail (.guardrailOutputFiltered msg)

/-! ### Actions -/

inductive CycleAction where
  | toolCalls (calls : List ToolCall)
  | done (answer : String)
  | error (message : String)
  deriving DecidableEq

/-- The tool calls of a response, in order. -/
def GenerateResponse.calls (response : GenerateResponse) : List ToolCall :=
  response.content.filterMap fun
    | .toolUse id name input => some ⟨id, name, input⟩
    | _ => none

def GenerateResponse.textParts (response : GenerateResponse) : List String :=
  response.content.filterMap fun
    | .text text => if isBlank text then none else some text
    | _ => none

/-- Derive the next action from a response. Tool calls take priority over text. -/
def actionFromResponse (response : GenerateResponse) : CycleAction :=
  if !response.calls.isEmpty then .toolCalls response.calls
  else if !response.textParts.isEmpty then .done ("\n".intercalate response.textParts)
  else .error "Empty response from model"

/-! ### Results -/

/-- The result given for a call whose task panicked. -/
def noResult (id name : String) : ToolCallResult :=
  ⟨id, name, .error (.execution "tool execution failed (no result returned)")⟩

/-- Take the results of calls out of a map by id; among results of one id the map keeps the last. -/
def takeResults (byId : List ToolCallResult) : List (String × String) → List ToolCallResult
  | [] => []
  | (id, name) :: calls =>
    match byId.find? fun r => r.id = id with
    | some r => r :: takeResults (byId.filter fun r => r.id ≠ id) calls
    | none => noResult id name :: takeResults byId calls

/-- Restore results to the order of their calls, with an error for every dropped one. -/
def reconcileAndOrderResults (results : List ToolCallResult) (calls : List (String × String)) :
    List ToolCallResult :=
  takeResults results.reverse calls

def resultsToToolResultBlocks (ext : Externals) (results : List ToolCallResult) : List ContentBlock :=
  results.map fun r =>
    match r.result with
    | .ok v => .toolResult r.id (ext.display v) false
    | .error e => .toolResult r.id e.display true

/-! ### The skeleton -/

structure CycleSkeleton where
  ext : Externals
  tools : ToolRegistry
  runTool : ToolRunner
  depth : Nat
  maxIterations : Nat

/-- Insert the preamble before the first non-system message, or in front when there is none. -/
def prepareBuffer (ext : Externals) (messages : List Message) : List Message :=
  match ext.reactPreamble with
  | none => messages
  | some preamble =>
    if isBlank preamble then messages else
      let pos := (messages.findIdx? fun m => m.role ≠ .system).getD 0
      messages.take pos ++ [.ofText .user preamble] ++ messages.drop pos

/-- The order in which results go back: the ids and names of the calls. -/
def callOrder (calls : List ToolCall) : List (String × String) := calls.map fun c => (c.id, c.name)

/-- One model call with the definitions of the active tools, checked by the output guardrail. -/
def CycleSkeleton.invoke (sk : CycleSkeleton) (messages : List Message) (names : List String) :
    M Core.AgentError GenerateResponse := do
  match sk.tools.toolDefinitionsFor names with
  | .error e => .fail (.config ("invalid tool schema for active tools: " ++ e))
  | .ok definitions =>
    let response ← invokeRunner sk.depth messages (if definitions.isEmpty then none else some definitions)
    checkOutputGuardrail sk.ext response.asText
    return response

/-- The messages that a dispatched batch adds to the conversation. -/
def batchMessages (ext : Externals) (response : GenerateResponse) (calls : List ToolCall)
    (results : List ToolCallResult) : List Message :=
  [⟨.assistant, response.content⟩,
    ⟨.tool, resultsToToolResultBlocks ext (reconcileAndOrderResults results (callOrder calls))⟩]

end AgentVerse
