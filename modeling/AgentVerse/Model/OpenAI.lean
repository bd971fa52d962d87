import AgentVerse.Core.Json

/-!
# The OpenAI-compatible wire format

`build_request` and `parse_response` of the provider. A response body is seen through `serde_json::from_str` at the
type of responses; what a message of a request reads as under the same rules is `ResponseMessage.ofFields`.
-/

namespace AgentVerse

/-- Texts of values: `serde_json::to_string` and `from_str` at `Value`, and `{:?}` of a content block. -/
structure Printers where
  toString : Json → String
  fromStr : String → Except JsonError Json
  debug : ContentBlock → String

/-- Reading a text gives the value back that it was printed from. -/
def Printers.Reads (pr : Printers) (v : Json) : Prop := pr.fromStr (pr.toString v) = .ok v

namespace OpenAICompatible

/-! ### The wire types -/

structure ChatToolCallOut where
  id : String
  /-- "function" -/
  typeField : String
  name : String
  /-- The JSON text of the input. -/
  arguments : String
  deriving DecidableEq

structure ChatMessage where
  role : String
  content : Option String
  toolCalls : Option (List ChatToolCallOut)
  toolCallId : Option String
  deriving DecidableEq

structure ChatTool where
  typeField : String
  name : String
  description : String
  parameters : Json
  strict : Bool

structure ChatRequest where
  model : String
  messages : List ChatMessage
  tools : Option (List ChatTool)
  chatTemplateKwargs : Option Json
  responseFormat : Option Json

def ChatToolCallOut.toValue (c : ChatToolCallOut) : Json :=
  .object (Json.record [
    ("id", some (.string c.id)),
    ("type", some (.string c.typeField)),
    ("function", some (.object (Json.record [
      ("name", some (.string c.name)),
      ("arguments", some (.string c.arguments))])))])

def ChatMessage.toFields (m : ChatMessage) : JsonFields :=
  Json.record [
    ("role", some (.string m.role)),
    ("content", m.content.map .string),
    ("tool_calls", m.toolCalls.map fun calls => .ofList (calls.map ChatToolCallOut.toValue)),
    ("tool_call_id", m.toolCallId.map .string)]

def ChatMessage.toValue (m : ChatMessage) : Json := .object m.toFields

def ChatTool.toValue (t : ChatTool) : Json :=
  .object (Json.record [
    ("type", some (.string t.typeField)),
    ("function", some (.object (Json.record [
      ("name", some (.string t.name)),
      ("description", some (.string t.description)),
      ("parameters", some t.parameters),
      ("strict", some (.bool t.strict))])))])

def ChatRequest.toValue (r : ChatRequest) : Json :=
  .object (Json.record [
    ("model", some (.string r.model)),
    ("messages", some (.ofList (r.messages.map ChatMessage.toValue))),
    ("tools", r.tools.map fun tools => .ofList (tools.map ChatTool.toValue)),
    ("chat_template_kwargs", r.chatTemplateKwargs),
    ("response_format", r.responseFormat)])

/-! ### Requests -/

variable (pr : Printers)

/-- The text and the tool calls of a User or Assistant message. -/
def collect (role : String) : List ContentBlock → Except ModelError (List String × List ChatToolCallOut)
  | [] => .ok ([], [])
  | block :: content =>
    match block with
    | .text text => do
      let (texts, calls) ← collect role content
      return (text :: texts, calls)
    | .toolUse id name input => do
      let (texts, calls) ← collect role content
      return (texts, ⟨id, "function", name, pr.toString input⟩ :: calls)
    | .toolResult .. => .error (.invalidResponse (role ++ "-role message must not contain a ToolResult block"))

def buildTextMessage (role : String) (content : List ContentBlock) : Except ModelError ChatMessage := do
  let (textParts, toolCalls) ← collect pr role content
  let content :=
    if textParts.isEmpty && toolCalls.isEmpty then some ""
    else if textParts.isEmpty then none
    else some ("\n".intercalate textParts)
  return ⟨role, content, if toolCalls.isEmpty then none else some toolCalls, none⟩

/-- One message for each result of a Tool message. -/
def toolMessages : List ContentBlock → Except ModelError (List ChatMessage)
  | [] => .ok []
  | block :: content =>
    match block with
    | .toolResult toolUseId result isError => do
      let rest ← toolMessages content
      return ⟨"tool", some (if isError then "Error: " ++ result else result), none, some toolUseId⟩ :: rest
    | other =>
      .error (.invalidResponse ("Tool-role message must contain only ToolResult blocks, found " ++ pr.debug other))

/-- The messages that one message of a conversation becomes. -/
def chatMessages (m : Message) : Except ModelError (List ChatMessage) :=
  match m.role with
  | .system => .ok []
  | .tool => toolMessages pr m.content
  | .user => return [← buildTextMessage pr "user" m.content]
  | .assistant => return [← buildTextMessage pr "assistant" m.content]

/-- The loop over the conversation, up to the first message that is refused. -/
def conversationMessages : List Message → Except ModelError (List ChatMessage)
  | [] => .ok []
  | m :: messages => do
    let first ← chatMessages pr m
    let rest ← conversationMessages messages
    return first ++ rest

def systemMessages : Option String → List ChatMessage
  | some system => [⟨"system", some system, none, none⟩]
  | none => []

def chatTool (tool : ToolDefinition) : ChatTool := ⟨"function", tool.name, tool.description, tool.parameters, true⟩

/-- The request around its messages. -/
def chatRequest (disableThinking : Bool) (model : String) (request : GenerateRequest) (messages : List ChatMessage) :
    ChatRequest where
  model := model
  messages := systemMessages request.system ++ messages
  tools := request.tools.map (·.map chatTool)
  chatTemplateKwargs :=
    if disableThinking then some (.object (Json.record [("enable_thinking", some (.bool false))])) else none
  responseFormat := request.responseFormat.map fun schema =>
    .object (Json.record [
      ("type", some (.string "json_schema")),
      ("json_schema", some (.object (Json.record [("name", some (.string "response")), ("schema", some schema)])))])

def buildRequest (disableThinking : Bool) (model : String) (request : GenerateRequest) : Except ModelError Json := do
  let messages ← conversationMessages pr request.messages
  return (chatRequest disableThinking model request messages).toValue

/-! ### Responses -/

structure ToolCallWire where
  id : String
  name : String
  arguments : String
  deriving DecidableEq

structure ResponseMessage where
  content : Option String
  toolCalls : List ToolCallWire
  deriving DecidableEq

structure ChatResponse where
  /-- The messages of the choices. -/
  choices : List ResponseMessage
  promptTokens : UInt32
  completionTokens : UInt32
  cachedTokens : UInt32

instance : Nested ToolCallWire := ⟨fun _ => 2⟩

instance : Nested ResponseMessage := ⟨fun message => Nested.depth message.toolCalls + 1⟩

/-- A message is in its choice, and the choices are in the response. -/
instance : Nested ChatResponse := ⟨fun response => Nested.depth response.choices + 2⟩

/-- The tool-use blocks of the calls of a response. -/
def toolUses : List ToolCallWire → Except ModelError (List ContentBlock)
  | [] => .ok []
  | call :: calls =>
    match pr.fromStr call.arguments with
    | .error e => .error (.invalidResponse ("invalid tool_call arguments JSON: " ++ e.message))
    | .ok input => do
      let rest ← toolUses calls
      return .toolUse call.id call.name input :: rest

/-- The blocks of a message, of which there must be some. -/
def messageContent (message : ResponseMessage) : Except ModelError (List ContentBlock) := do
  let texts : List ContentBlock :=
    match message.content with
    | some text => if isBlank text then [] else [.text text]
    | none => []
  let uses ← toolUses pr message.toolCalls
  if (texts ++ uses).isEmpty then .error (.invalidResponse "No content in response")
  else return texts ++ uses

def parseResponse (body : JsonText ChatResponse) : Except ModelError GenerateResponse :=
  match body.fromStr with
  | .error e => .error (.invalidResponse e.message)
  | .ok response =>
    match response.choices with
    | [] => .error (.invalidResponse "No content in response")
    | message :: _ => do
      let content ← messageContent pr message
      return ⟨content, response.promptTokens, response.completionTokens, 0, response.cachedTokens⟩

/-! ### Reading a message -/

def ToolCallWire.ofValue (v : Json) : Option ToolCallWire := do
  let id ← (v.field "id").asStr
  let name ← ((v.field "function").field "name").asStr
  let arguments ← ((v.field "function").field "arguments").asStr
  return ⟨id, name, arguments⟩

/-- Reading an object as a response message: unknown fields are ignored, and `tool_calls` may be missing. -/
def ResponseMessage.ofFields (fields : JsonFields) : Option ResponseMessage := do
  let content ← fields.optString "content"
  let toolCalls ←
    match fields.get? "tool_calls" with
    | none => some []
    | some (.array items) => items.toList.mapM ToolCallWire.ofValue
    | some _ => none
  return ⟨content, toolCalls⟩

end OpenAICompatible

end AgentVerse
