import AgentVerse.Core.Json

/-!
# The Anthropic wire format

`build_wire_request` and `parse_response` of the provider. Every block of a message becomes one block of the request,
and cache markers are put on the last tool, on the system text and on the last block of the last message but one.
-/

namespace AgentVerse.AnthropicProvider

/-! ### The wire types -/

structure CacheControl where
  cacheType : String

def ephemeral : CacheControl := ⟨"ephemeral"⟩

inductive AnthropicContentBlock where
  | text (text : String) (cacheControl : Option CacheControl)
  | toolUse (id name : String) (input : Json) (cacheControl : Option CacheControl)
  | toolResult (toolUseId content : String) (isError : Bool) (cacheControl : Option CacheControl)

namespace AnthropicContentBlock

def newText (t : String) : AnthropicContentBlock := text t none

def newTextCached (t : String) : AnthropicContentBlock := text t (some ephemeral)

def newToolUse (id name : String) (input : Json) : AnthropicContentBlock := toolUse id name input none

def newToolResult (toolUseId content : String) (isError : Bool) : AnthropicContentBlock :=
  toolResult toolUseId content isError none

def setCacheControl (cc : CacheControl) : AnthropicContentBlock → AnthropicContentBlock
  | text t _ => text t (some cc)
  | toolUse id name input _ => toolUse id name input (some cc)
  | toolResult toolUseId content isError _ => toolResult toolUseId content isError (some cc)

end AnthropicContentBlock

structure AnthropicMessage where
  role : String
  content : List AnthropicContentBlock

structure AnthropicTool where
  name : String
  description : String
  inputSchema : Json
  cacheControl : Option CacheControl
  strict : Bool

structure AnthropicOutputFormat where
  typeField : String
  schema : Json

structure AnthropicRequest where
  model : String
  system : List AnthropicContentBlock
  messages : List AnthropicMessage
  tools : Option (List AnthropicTool)
  maxTokens : Nat
  /-- The format of `output_config`. -/
  outputFormat : Option AnthropicOutputFormat

def CacheControl.toValue (cc : CacheControl) : Json := .object (Json.record [("type", some (.string cc.cacheType))])

def AnthropicContentBlock.toFields : AnthropicContentBlock → JsonFields
  | text t cc =>
    Json.record [
      ("type", some (.string "text")),
      ("text", some (.string t)),
      ("cache_control", cc.map CacheControl.toValue)]
  | toolUse id name input cc =>
    Json.record [
      ("type", some (.string "tool_use")),
      ("id", some (.string id)),
      ("name", some (.string name)),
      ("input", some input),
      ("cache_control", cc.map CacheControl.toValue)]
  | toolResult toolUseId content isError cc =>
    Json.record [
      ("type", some (.string "tool_result")),
      ("tool_use_id", some (.string toolUseId)),
      ("content", some (.string content)),
      ("is_error", some (.bool isError)),
      ("cache_control", cc.map CacheControl.toValue)]

def AnthropicContentBlock.toValue (b : AnthropicContentBlock) : Json := .object b.toFields

def AnthropicMessage.toFields (m : AnthropicMessage) : JsonFields :=
  Json.record [
    ("role", some (.string m.role)),
    ("content", some (.ofList (m.content.map AnthropicContentBlock.toValue)))]

def AnthropicMessage.toValue (m : AnthropicMessage) : Json := .object m.toFields

def AnthropicTool.toValue (t : AnthropicTool) : Json :=
  .object (Json.record [
    ("name", some (.string t.name)),
    ("description", some (.string t.description)),
    ("input_schema", some t.inputSchema),
    ("cache_control", t.cacheControl.map CacheControl.toValue),
    ("strict", some (.bool t.strict))])

def AnthropicOutputFormat.toValue (f : AnthropicOutputFormat) : Json :=
  .object (Json.record [("type", some (.string f.typeField)), ("schema", some f.schema)])

def AnthropicRequest.toValue (r : AnthropicRequest) : Json :=
  .object (Json.record [
    ("model", some (.string r.model)),
    ("system", if r.system.isEmpty then none else some (.ofList (r.system.map AnthropicContentBlock.toValue))),
    ("messages", some (.ofList (r.messages.map AnthropicMessage.toValue))),
    ("tools", r.tools.map fun tools => .ofList (tools.map AnthropicTool.toValue)),
    ("max_tokens", some (.int r.maxTokens)),
    ("output_config", r.outputFormat.map fun f => .object (Json.record [("format", some f.toValue)]))])

/-! ### Requests -/

/-- Change the last element, if there is one. -/
def lastMut {α : Type} (f : α → α) (l : List α) : List α := l.modify (l.length - 1) f

def mapRole : MessageRole → Option String
  | .user => some "user"
  | .assistant => some "assistant"
  | .tool => some "user"
  | .system => none

def wireBlock : ContentBlock → AnthropicContentBlock
  | .text t => .newText t
  | .toolUse id name input => .newToolUse id name input
  | .toolResult toolUseId content isError => .newToolResult toolUseId content isError

def wireMessage (m : Message) : Option AnthropicMessage := do
  let role ← mapRole m.role
  return ⟨role, m.content.map wireBlock⟩

def wireTool (d : ToolDefinition) : AnthropicTool := ⟨d.name, d.description, d.parameters, none, true⟩

/-- The cache marker on the last block of the last message but one. -/
def markPenultimate (messages : List AnthropicMessage) : List AnthropicMessage :=
  if 2 ≤ messages.length then
    messages.modify (messages.length - 2) fun m =>
      { m with content := lastMut (·.setCacheControl ephemeral) m.content }
  else messages

def buildWireRequest (modelName : String) (request : GenerateRequest) : AnthropicRequest where
  model := modelName
  system := request.system.toList.map .newTextCached
  messages := markPenultimate (request.messages.filterMap wireMessage)
  tools := request.tools.map fun defs =>
    lastMut (fun t => { t with cacheControl := some ephemeral }) (defs.map wireTool)
  maxTokens := 4096
  outputFormat := request.responseFormat.map fun schema => ⟨"json_schema", schema⟩

def buildRequest (model : String) (request : GenerateRequest) : Except ModelError Json :=
  .ok (buildWireRequest model request).toValue

/-! ### Responses -/

structure AnthropicContent where
  contentType : String
  text : Option String
  id : Option String
  name : Option String
  input : Option Json
  /-- A `null` reads as a missing input. -/
  input_ne_null : input ≠ some .null

structure AnthropicUsage where
  inputTokens : UInt32
  outputTokens : UInt32
  cacheCreationInputTokens : UInt32
  cacheReadInputTokens : UInt32

structure AnthropicResponse where
  content : List AnthropicContent
  usage : AnthropicUsage

instance : Nested AnthropicContent := ⟨fun c => (c.input.map Json.depth).getD 0 + 1⟩

instance : Nested AnthropicResponse := ⟨fun resp => Nested.depth resp.content + 1⟩

/-- The loop over the blocks of a response. -/
def usable : List AnthropicContent → Except ModelError (List ContentBlock)
  | [] => .ok []
  | c :: rest =>
    if c.contentType = "text" then
      match c.text with
      | some text => do
        let content ← usable rest
        return if isBlank text then content else .text text :: content
      | none => usable rest
    else if c.contentType = "tool_use" then
      match c.id, c.name, c.input with
      | some id, some name, some input => do
        let content ← usable rest
        return .toolUse id name input :: content
      | _, _, _ => .error (.invalidResponse "tool_use content block missing id, name, or input")
    else usable rest

/-- The blocks of a response, of which there must be some. -/
def responseContent (blocks : List AnthropicContent) : Except ModelError (List ContentBlock) := do
  let content ← usable blocks
  if content.isEmpty then .error (.invalidResponse "No text or tool_use content in response")
  else return content

def parseResponse (body : JsonText AnthropicResponse) : Except ModelError GenerateResponse :=
  match body.fromStr with
  | .error e => .error (.invalidResponse e.message)
  | .ok resp => do
    let content ← responseContent resp.content
    return ⟨content, resp.usage.inputTokens, resp.usage.outputTokens, resp.usage.cacheCreationInputTokens,
      resp.usage.cacheReadInputTokens⟩

/-! ### Reading a message -/

def AnthropicContent.ofFields (fields : JsonFields) : Option AnthropicContent := do
  let contentType ← (fields.get? "type").bind Json.asStr
  let text ← fields.optString "text"
  let id ← fields.optString "id"
  let name ← fields.optString "name"
  return ⟨contentType, text, id, name, fields.optValue "input", fields.optValue_ne_null "input"⟩

def AnthropicContent.ofValue : Json → Option AnthropicContent
  | .object fields => ofFields fields
  | _ => none

/-- Reading an object as a response, for its blocks: unknown fields are ignored. -/
def contentOfFields (fields : JsonFields) : Option (List AnthropicContent) :=
  match fields.get? "content" with
  | some (.array items) => items.toList.mapM AnthropicContent.ofValue
  | _ => none

end AgentVerse.AnthropicProvider
