import Mathlib.Data.List.Basic

/-!
# Core types

The data that the crates of the workspace exchange: JSON values, messages and their content blocks, tool calls and
their results, model requests and responses, and the errors of the core crate.

A persisted JSON text is represented by the value it was printed from, or the error of `serde_json::from_str`
(`JsonText`). The text of a value that nests too deep is printed all right and is not read back.
-/

namespace AgentVerse

/-- `uuid::Uuid`. `Uuid::new_v4` draws a value that was never drawn before, so identities are counted. -/
abbrev Uuid := Nat

abbrev SessionId := Uuid

abbrev ApprovalId := Uuid

/-! ### JSON -/

mutual

/-- `serde_json::Value`. A number that is not an integer is kept as its text. -/
inductive Json where
  | null
  | bool (b : Bool)
  | int (n : Int)
  | float (text : String)
  | string (s : String)
  | array (items : JsonItems)
  | object (fields : JsonFields)
  deriving DecidableEq

inductive JsonItems where
  | nil
  | cons (head : Json) (tail : JsonItems)
  deriving DecidableEq

inductive JsonFields where
  | nil
  | cons (key : String) (value : Json) (rest : JsonFields)
  deriving DecidableEq

end

def JsonFields.get? : JsonFields → String → Option Json
  | nil, _ => none
  | cons k v rest, key => if k = key then some v else rest.get? key

/-- Indexing `value[key]`: `null` when the value is no object or has no such key. -/
def Json.field (v : Json) (key : String) : Json :=
  match v with
  | .object fields => (fields.get? key).getD .null
  | _ => .null

def Json.asStr : Json → Option String
  | .string s => some s
  | _ => none

mutual

/-- Levels of arrays and objects. -/
def Json.depth : Json → Nat
  | .array items => items.depth + 1
  | .object fields => fields.depth + 1
  | _ => 0

def JsonItems.depth : JsonItems → Nat
  | .nil => 0
  | .cons v rest => max v.depth rest.depth

def JsonFields.depth : JsonFields → Nat
  | .nil => 0
  | .cons _ v rest => max v.depth rest.depth

end

/-- `serde_json::Error`, by its message. -/
structure JsonError where
  message : String
  deriving DecidableEq

/-- The levels of nesting that reading refuses. -/
def nestingLimit : Nat := 128

/-- Types whose values are written as JSON, with the levels of arrays and objects in the text of a value. -/
class Nested (α : Type) where
  depth : α → Nat

instance : Nested Json := ⟨Json.depth⟩

instance {α : Type} [Nested α] : Nested (List α) := ⟨fun l => (l.map Nested.depth).foldr max 0 + 1⟩

theorem Nested.depth_list_lt {α : Type} [Nested α] {l : List α} {n : Nat} :
    Nested.depth l < n + 2 ↔ ∀ a ∈ l, Nested.depth a < n + 1 := by
  change (l.map Nested.depth).foldr max 0 + 1 < n + 2 ↔ _
  induction l with
  | nil => simp
  | cons a l ih =>
    rw [List.map_cons, List.foldr_cons, List.forall_mem_cons, ← ih]
    omega

/-- A JSON text, seen through `serde_json::from_str` at type `α`: the text of a value, or a text of another shape
together with the error that reading it reports. -/
inductive JsonText (α : Type) where
  | printed (a : α)
  | unreadable (e : JsonError)
  deriving DecidableEq

namespace JsonText

variable {α : Type}

/-- `serde_json::to_string`. -/
def ofValue (a : α) : JsonText α := printed a

/-- `serde_json::from_str`. The message of a text that nests too deep goes on with a line and a column. -/
def fromStr [Nested α] : JsonText α → Except JsonError α
  | printed a => if Nested.depth a < nestingLimit then .ok a else .error ⟨"recursion limit exceeded"⟩
  | unreadable e => .error e

variable [Nested α] {a : α}

/-- The text reads back as a value. -/
def Reads (t : JsonText α) : Prop := ∃ a, t.fromStr = .ok a

theorem fromStr_ofValue (h : Nested.depth a < nestingLimit) : (ofValue a).fromStr = .ok a := if_pos h

theorem fromStr_ofValue_error (h : ¬ Nested.depth a < nestingLimit) :
    (ofValue a).fromStr = .error ⟨"recursion limit exceeded"⟩ := if_neg h

theorem fromStr_eq_ok {t : JsonText α} : t.fromStr = .ok a ↔ t = ofValue a ∧ Nested.depth a < nestingLimit := by
  cases t with
  | printed b =>
    rw [fromStr, ofValue]
    by_cases h : Nested.depth b < nestingLimit
    · rw [if_pos h, Except.ok.injEq, printed.injEq]
      constructor
      · rintro rfl
        exact ⟨rfl, h⟩
      · exact And.left
    · rw [if_neg h, printed.injEq]
      constructor
      · intro he
        cases he
      · rintro ⟨rfl, ha⟩
        exact absurd ha h
  | unreadable e => simp [fromStr, ofValue]

end JsonText

/-! ### Messages -/

inductive ContentBlock where
  | text (text : String)
  | toolUse (id name : String) (input : Json)
  | toolResult (toolUseId content : String) (isError : Bool)
  deriving DecidableEq

/-- The levels of the input of a tool call. -/
def ContentBlock.inputDepth : ContentBlock → Nat
  | toolUse _ _ input => input.depth
  | _ => 0

instance : Nested ContentBlock := ⟨fun b => b.inputDepth + 1⟩

/-- Flatten content blocks into plain text. -/
def contentAsText (content : List ContentBlock) : String :=
  "\n".intercalate <| content.map fun
    | .text text => text
    | .toolUse _ name _ => "[tool_use: " ++ name ++ "]"
    | .toolResult toolUseId content _ => "[tool_result " ++ toolUseId ++ ": " ++ content ++ "]"

inductive MessageRole where
  | system
  | user
  | assistant
  | tool
  deriving DecidableEq

structure Message where
  role : MessageRole
  content : List ContentBlock
  deriving DecidableEq

instance : Nested Message := ⟨fun m => Nested.depth m.content + 1⟩

/-- `Message::text`: a message of one text block. -/
def Message.ofText (role : MessageRole) (text : String) : Message := ⟨role, [.text text]⟩

def Message.asText (m : Message) : String := contentAsText m.content

/-! ### Tools -/

inductive ToolError where
  | execution (message : String)
  | notFound (name : String)
  | invalidArgs (message : String)
  deriving DecidableEq

def ToolError.display : ToolError → String
  | execution m => "Execution failed: " ++ m
  | notFound n => "Not found: " ++ n
  | invalidArgs m => "Invalid arguments: " ++ m

abbrev ToolResult := Except ToolError Json

structure ToolCall where
  id : String
  name : String
  args : Json
  deriving DecidableEq

instance : Nested ToolCall := ⟨fun call => call.args.depth + 1⟩

structure ToolCallResult where
  id : String
  name : String
  result : ToolResult
  deriving DecidableEq

structure ToolDefinition where
  name : String
  description : String
  parameters : Json
  deriving DecidableEq

/-! ### Models -/

structure GenerateRequest where
  system : Option String
  messages : List Message
  tools : Option (List ToolDefinition)
  /-- Structured output schema. -/
  responseFormat : Option Json
  deriving DecidableEq

structure UsageStats where
  inputTokens : UInt32
  outputTokens : UInt32
  cacheWriteTokens : UInt32
  cacheReadTokens : UInt32
  deriving DecidableEq

/-- `UsageStats::default`. -/
def UsageStats.zero : UsageStats := ⟨0, 0, 0, 0⟩

/-- `add_assign`, in release arithmetic. -/
def UsageStats.add (a b : UsageStats) : UsageStats :=
  ⟨a.inputTokens + b.inputTokens, a.outputTokens + b.outputTokens, a.cacheWriteTokens + b.cacheWriteTokens,
    a.cacheReadTokens + b.cacheReadTokens⟩

structure GenerateResponse where
  content : List ContentBlock
  usage : UsageStats
  deriving DecidableEq

def GenerateResponse.asText (r : GenerateResponse) : String := contentAsText r.content

inductive ModelError where
  | apiError (message : String)
  | timeout (message : String)
  | invalidResponse (message : String)
  | rateLimited (message : String)
  | circuitOpen (message : String)
  | unknownProvider (message : String)
  | invalidApiKey (message : String)
  | missingSetting (setting provider : String)
  deriving DecidableEq

def ModelError.display : ModelError → String
  | apiError m => "API error: " ++ m
  | timeout m => "Timeout: " ++ m
  | invalidResponse m => "Invalid response: " ++ m
  | rateLimited m => "Rate limited: " ++ m
  | circuitOpen m => "Circuit breaker open: " ++ m
  | unknownProvider m => "Unknown provider: " ++ m
  | invalidApiKey m => "Invalid API key: " ++ m
  | missingSetting s p => "Missing required setting " ++ s.quote ++ " for provider " ++ p.quote

/-! ### Errors of the core crate -/

namespace Core

/-- `agentverse::AgentError`, without the variants that no modelled function raises. `panicked` is no value of the
source: it stands for a panic that unwinds through the call, which then has no result. -/
inductive AgentError where
  | model (e : ModelError)
  | tool (e : ToolError)
  | config (message : String)
  | guardrailPromptInjection (message : String)
  | guardrailOutputFiltered (message : String)
  | memory (message : String)
  | panicked
  deriving DecidableEq

def AgentError.display : AgentError → String
  | model e => "Model error: " ++ e.display
  | tool e => "Tool error: " ++ e.display
  | config m => "Config error: Invalid config: " ++ m
  | guardrailPromptInjection m => "Guardrail error: Prompt injection: " ++ m
  | guardrailOutputFiltered m => "Guardrail error: Output filtered: " ++ m
  | memory m => "Memory error: " ++ m
  | panicked => "panicked"

end Core

/-- What a tool task ends with: the result of the tool, or a panic of its task. -/
inductive TaskEnd where
  | finished (result : ToolResult)
  | panicked
  deriving DecidableEq

/-! ### Text -/

/-- `char::is_whitespace`. -/
def isWhitespace (c : Char) : Bool :=
  let n := c.toNat
  (9 ≤ n && n ≤ 13) || n = 32 || n = 0x85 || n = 0xA0 || n = 0x1680 || (0x2000 ≤ n && n ≤ 0x200A) ||
    n = 0x2028 || n = 0x2029 || n = 0x202F || n = 0x205F || n = 0x3000

/-- `text.trim().is_empty()`. -/
def isBlank (text : String) : Bool := text.toList.all isWhitespace

def trimStart (cs : List Char) : List Char := cs.dropWhile isWhitespace

def trimEnd (cs : List Char) : List Char := cs.reverse.dropWhile isWhitespace |>.reverse

/-- `text.trim()`. -/
def trim (cs : List Char) : List Char := trimEnd (trimStart cs)

/-! ### Data parsed by third-party code -/

/-- A step of a plan. -/
structure PlanStep where
  id : Nat
  description : String
  tool : Option String
  args : Option Json
  /-- IDs of steps this depends on. -/
  dependsOn : List Nat
  deriving DecidableEq

structure Plan where
  description : String
  steps : List PlanStep
  deriving DecidableEq

structure ResourceContent where
  label : String
  content : String
  deriving DecidableEq

/-- The arguments of the subagent tool, without its name, which is only traced. -/
structure SubAgentArgs where
  objective : String
  systemPrompt : Option String
  model : Option String
  allowedTools : List String
  maxSteps : Option Nat
  maxTokens : Option UInt32
  resources : List ResourceContent
  deriving DecidableEq

/-- Code outside this repository, or built on regular expressions and templates, as pure functions. -/
structure Externals where
  /-- `Value::to_string`. -/
  display : Json → String
  /-- The message with which `check_output` rejects a text. -/
  checkOutput : String → Option String
  /-- The message with which `check_prompt` rejects a text. -/
  checkPrompt : String → Option String
  /-- The rendered `react` template, where there is one. -/
  reactPreamble : Option String
  /-- The rendered `system` template, where there is one. -/
  systemPrompt : Option String
  /-- The prompt of the plan strategy, from the tool summaries and the conversation. -/
  planPrompt : String → String → Except String String
  /-- The prompt that decomposes a request. -/
  decomposePrompt : String → Except String String
  /-- Reading a plan, or a list of sub-goals, from a response. -/
  parsePlan : String → Except String Plan
  parseGoals : String → Except String (List String)
  /-- `serde_json::from_value` at `SubAgentArgs`. -/
  parseSubAgentArgs : Json → Except String SubAgentArgs
  /-- The error of selecting a model by name, if any. -/
  withModel : String → Option ModelError
  /-- `{:?}` of a duration in nanoseconds. -/
  showElapsed : Nat → String

end AgentVerse
