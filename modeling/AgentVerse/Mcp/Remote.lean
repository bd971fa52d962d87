import AgentVerse.Core.Document
import AgentVerse.Effects.Marks
import AgentVerse.Tools.Registry

/-!
# Tools over MCP

`handle_mcp` serves the tools of a registry, and `McpClient` calls them. The server prints a result as text and the
client returns the text it finds, so that a remote call succeeds exactly if the local one does, with the text of its
result (`remote_call_exact`). Bodies are delivered unchanged; a handler that panics answers nothing.
-/

namespace AgentVerse

open Effects

/-- `Value::get`. -/
def Json.get? (v : Json) (key : String) : Option Json :=
  match v with
  | .object fields => fields.get? key
  | _ => none

def Json.asArray : Json → Option (List Json)
  | .array items => some items.toList
  | _ => none

/-- An object of the `json!` macro. -/
def Json.ofFields (fields : List (String × Json)) : Json :=
  .object (Json.record (fields.map fun e => (e.1, some e.2)))

namespace Mcp

inductive McpError where
  | connection (message : String)
  | initialization (message : String)
  | protocol (message : String)
  | parse (message : String)
  | toolCall (message : String)
  | config (message : String)
  deriving DecidableEq

def McpError.display : McpError → String
  | connection m => "Connection error: " ++ m
  | initialization m => "Initialization failed: " ++ m
  | protocol m => "Protocol error: " ++ m
  | parse m => "Parse error: " ++ m
  | toolCall m => "Tool call error: " ++ m
  | config m => "Config error: " ++ m

/-! ### The server -/

/-- The tools that a server offers. `schema` is `ErasedTool::schema`. -/
structure Server where
  registry : ToolRegistry
  runTool : ToolRunner
  schema : ErasedTool → Json
  version : String

def resultBody (id result : Json) : Json := .ofFields [("jsonrpc", .string "2.0"), ("id", id), ("result", result)]

def errorBody (id : Json) (code : Int) (message : String) : Json :=
  .ofFields [("jsonrpc", .string "2.0"), ("id", id),
    ("error", .ofFields [("code", .int code), ("message", .string message)])]

/-- What `tools/list` tells of a tool. -/
def listed (schema : Json) : Json :=
  .ofFields [("name", schema.field "name"), ("description", schema.field "description"),
    ("inputSchema", schema.field "input_schema")]

variable (jt : JsonTexts) (server : Server)

def initializeResult : Json :=
  .ofFields [("protocolVersion", .string "2025-03-26"), ("capabilities", .ofFields [("tools", .ofFields [])]),
    ("serverInfo", .ofFields [("name", .string "agentverse"), ("version", .string server.version)])]

/-- The definitions that are listed, all but that of `find_tools`. -/
def offered : List Json :=
  (server.registry.tools.map server.schema).filter fun s => (s.field "name").asStr ≠ some "find_tools"

def toolsListResult : Json := .ofFields [("tools", .ofList ((offered server).map listed))]

/-- The body that answers a tool call, unless the tool panics. -/
def callBody (id : Json) : TaskEnd → Option Json
  | .finished (.ok v) =>
    some (resultBody id (.ofFields [("content",
      .ofList [.ofFields [("type", .string "text"), ("text", .string (jt.print v))]])]))
  | .finished (.error e) => some (errorBody id (-32000) e.display)
  | .panicked => none

/-- Status and body of a response; none if the handler panics. -/
def handleMcp (body : Json) : M Empty (Option (Nat × Json)) :=
  let method := ((body.field "method").asStr).getD ""
  let id := body.field "id"
  match method with
  | "initialize" => .ret (some (200, resultBody id (initializeResult server)))
  | "notifications/initialized" => .ret (some (204, .null))
  | "tools/list" => .ret (some (200, resultBody id (toolsListResult server)))
  | "tools/call" => do
    let name := (((body.field "params").field "name").asStr).getD ""
    let args := (body.field "params").field "arguments"
    let taskEnd ← server.registry.execute server.runTool 0 name args
    return (callBody jt id taskEnd).map fun b => (200, b)
  | method => .ret (some (200, errorBody id (-32601) ("Method not found: " ++ method)))

/-! ### The client -/

structure JsonRpcRequest where
  id : String
  method : String
  params : Option Json

def JsonRpcRequest.body (req : JsonRpcRequest) : Json :=
  .object (Json.record [("jsonrpc", some (.string "2.0")), ("id", some (.string req.id)),
    ("method", some (.string req.method)), ("params", req.params)])

structure McpToolInfo where
  name : String
  description : String
  inputSchema : Json

def McpToolInfo.ofJson (t : Json) : McpToolInfo :=
  ⟨((t.field "name").asStr).getD "", ((t.field "description").asStr).getD "", t.field "inputSchema"⟩

/-- How a client sends a request and receives a body. -/
abbrev Transport := JsonRpcRequest → M Empty (Except McpError Json)

/-- A transport to the server that delivers bodies unchanged. `closed` is the error of a connection that is closed
without an answer. -/
def http (closed : String) : Transport := fun req => do
  match ← handleMcp jt server req.body with
  | some (_, body) => return .ok body
  | none => return .error (.connection closed)

/-- The message of an error object. -/
def errorMessage (err : Json) (default : String) : String := ((err.field "message").asStr).getD default

def readCall (resp : Json) : Except McpError Json :=
  match resp.get? "error" with
  | some err => .error (.toolCall (errorMessage err ""))
  | none =>
    match ((resp.field "result").field "content").asArray with
    | none => .error (.parse "No content array")
    | some content =>
      match content.findSome? fun c => (c.field "text").asStr with
      | none => .error (.parse "No text content")
      | some text => .ok (.string text)

def readTools (resp : Json) : Except McpError (List McpToolInfo) :=
  match resp.get? "error" with
  | some err => .error (.protocol (errorMessage err ""))
  | none =>
    match ((resp.field "result").field "tools").asArray with
    | none => .error (.parse "No tools array")
    | some tools => .ok (tools.map .ofJson)

/-- The request of a call. -/
def callRequest (id name : String) (args : Json) : JsonRpcRequest :=
  ⟨id, "tools/call", some (.ofFields [("name", .string name), ("arguments", args)])⟩

/-- `McpClient::call_tool`; the request has a fresh id. -/
def callTool (send : Transport) (id name : String) (args : Json) : M Empty (Except McpError Json) := do
  match ← send (callRequest id name args) with
  | .ok resp => return readCall resp
  | .error e => return .error e

def listTools (send : Transport) (id : String) : M Empty (Except McpError (List McpToolInfo)) := do
  match ← send ⟨id, "tools/list", some (.ofFields [])⟩ with
  | .ok resp => return readTools resp
  | .error e => return .error e

/-! ### Members -/

variable {jt server}

theorem get?_ofFields {fields : List (String × Json)} (h : (fields.map Prod.fst).Nodup) (key : String) :
    (Json.ofFields fields).get? key = fields.lookup key := by
  have hkeys : ((fields.map fun e => (e.1, some e.2)).map Prod.fst).Nodup := by
    rw [List.map_map]
    exact h
  refine (Json.get?_record hkeys key).trans ?_
  clear h hkeys
  induction fields with
  | nil => rfl
  | cons e rest ih =>
    rw [List.map_cons, List.lookup_cons, List.lookup_cons]
    cases key == e.1 with
    | true => rfl
    | false => exact ih

theorem field_ofFields {fields : List (String × Json)} (h : (fields.map Prod.fst).Nodup) (key : String) :
    (Json.ofFields fields).field key = (fields.lookup key).getD .null := by
  rw [← get?_ofFields h]
  rfl

theorem field_body {req : JsonRpcRequest} (key : String) : req.body.field key =
    ([("jsonrpc", some (.string "2.0")), ("id", some (.string req.id)), ("method", some (.string req.method)),
      ("params", req.params)].lookup key).join.getD .null := by
  rw [← Json.get?_record (by simp)]
  rfl

@[simp] theorem resultBody_error (id result : Json) : (resultBody id result).get? "error" = none := by
  rw [resultBody, get?_ofFields (by simp)]
  rfl

@[simp] theorem resultBody_result (id result : Json) : (resultBody id result).field "result" = result := by
  rw [resultBody, field_ofFields (by simp)]
  rfl

@[simp] theorem errorBody_error (id : Json) (code : Int) (message : String) :
    (errorBody id code message).get? "error" =
      some (.ofFields [("code", .int code), ("message", .string message)]) := by
  rw [errorBody, get?_ofFields (by simp)]
  rfl

/-! ### A remote call -/

/-- What the client makes of the end of a tool. -/
def remoteResult (jt : JsonTexts) (closed : String) : TaskEnd → Except McpError Json
  | .finished (.ok v) => .ok (.string (jt.print v))
  | .finished (.error e) => .error (.toolCall e.display)
  | .panicked => .error (.connection closed)

/-- The text of a result is what the client finds. -/
theorem readCall_ok (id : Json) (text : String) :
    readCall (resultBody id (.ofFields [("content",
      .ofList [.ofFields [("type", .string "text"), ("text", .string text)]])])) = .ok (.string text) := by
  have htext : (Json.ofFields [("type", .string "text"), ("text", .string text)]).field "text" = .string text :=
    field_ofFields (by simp) "text"
  have hcontent : ∀ v, (Json.ofFields [("content", v)]).field "content" = v :=
    fun v => field_ofFields (by simp) "content"
  rw [readCall, resultBody_error, resultBody_result, hcontent, Json.ofList]
  simp only [Json.asArray, JsonItems.toList_ofList, List.findSome?_cons, htext, Json.asStr]

theorem readCall_error (id : Json) (code : Int) (message : String) :
    readCall (errorBody id code message) = .error (.toolCall message) := by
  have hmessage : (Json.ofFields [("code", .int code), ("message", .string message)]).field "message" =
      .string message := field_ofFields (by simp) "message"
  rw [readCall, errorBody_error]
  simp only [errorMessage, hmessage, Json.asStr, Option.getD_some]

/-- The server executes what the client asks for. -/
theorem handleMcp_call (id name : String) (args : Json) :
    handleMcp jt server (callRequest id name args).body =
      server.registry.execute server.runTool 0 name args >>= fun taskEnd =>
        .ret ((callBody jt (.string id) taskEnd).map fun b => (200, b)) := by
  have hname : (Json.ofFields [("name", .string name), ("arguments", args)]).field "name" = .string name :=
    field_ofFields (by simp) "name"
  have hargs : (Json.ofFields [("name", .string name), ("arguments", args)]).field "arguments" = args :=
    field_ofFields (by simp) "arguments"
  have hparams : (callRequest id name args).body.field "params" =
      .ofFields [("name", .string name), ("arguments", args)] := field_body "params"
  have hmethod : (callRequest id name args).body.field "method" = .string "tools/call" := field_body "method"
  have hid : (callRequest id name args).body.field "id" = .string id := field_body "id"
  unfold handleMcp
  rw [hid, hmethod, hparams, hname, hargs]
  rfl

/-- A call is the execution on the server, and then reading its end. -/
theorem callTool_http (closed id name : String) (args : Json) :
    callTool (http jt server closed) id name args =
      server.registry.execute server.runTool 0 name args >>= fun taskEnd =>
        .ret (remoteResult jt closed taskEnd) := by
  unfold callTool http
  rw [handleMcp_call, Prog.bind_assoc, Prog.bind_assoc]
  congr 1
  funext taskEnd
  cases taskEnd with
  | panicked => rfl
  | finished result =>
    cases result with
    | ok v => exact congrArg Prog.ret (readCall_ok (.string id) (jt.print v))
    | error e => exact congrArg Prog.ret (readCall_error (.string id) (-32000) e.display)

theorem callTool_plays {closed id name : String} {args : Json} {t : List (Step Reply)} {x : Except McpError Json} :
    (callTool (http jt server closed) id name args).Plays t (.ok x) ↔
      ∃ taskEnd, (server.registry.execute server.runTool 0 name args).Plays t (.ok taskEnd) ∧
        x = remoteResult jt closed taskEnd := by
  rw [callTool_http, Prog.plays_bind]
  constructor
  · rintro (⟨e, _, he⟩ | ⟨taskEnd, t₁, t₂, rfl, hplay, rfl, hx⟩)
    · cases he
    · rw [List.append_nil]
      exact ⟨taskEnd, hplay, Except.ok.inj hx⟩
  · rintro ⟨taskEnd, hplay, rfl⟩
    exact .inr ⟨taskEnd, t, [], (List.append_nil t).symm, hplay, rfl, rfl⟩

/-- A remote call asks for what the execution asks for. It succeeds exactly if the execution does, with the text of
its result, and fails exactly if the execution fails or the tool panics. -/
theorem remote_call_exact (jt : JsonTexts) (server : Server) (closed id name : String) (args : Json)
    (t : List (Step Reply)) :
    (∀ w, (callTool (http jt server closed) id name args).Plays t (.ok (.ok w)) ↔
      ∃ v, (server.registry.execute server.runTool 0 name args).Plays t (.ok (.finished (.ok v))) ∧
        w = .string (jt.print v)) ∧
    ∀ err, (callTool (http jt server closed) id name args).Plays t (.ok (.error err)) ↔
      (∃ e, (server.registry.execute server.runTool 0 name args).Plays t (.ok (.finished (.error e))) ∧
        err = .toolCall e.display) ∨
      (server.registry.execute server.runTool 0 name args).Plays t (.ok .panicked) ∧ err = .connection closed := by
  refine ⟨fun w => callTool_plays.trans ⟨?_, ?_⟩, fun err => callTool_plays.trans ⟨?_, ?_⟩⟩
  · rintro ⟨taskEnd, hplay, hx⟩
    cases taskEnd with
    | panicked => cases hx
    | finished result =>
      cases result with
      | ok v => exact ⟨v, hplay, Except.ok.inj hx⟩
      | error e => cases hx
  · rintro ⟨v, hplay, rfl⟩
    exact ⟨_, hplay, rfl⟩
  · rintro ⟨taskEnd, hplay, hx⟩
    cases taskEnd with
    | panicked => exact .inr ⟨hplay, Except.error.inj hx⟩
    | finished result =>
      cases result with
      | ok v => cases hx
      | error e => exact .inl ⟨e, hplay, Except.error.inj hx⟩
  · rintro (⟨e, hplay, rfl⟩ | ⟨hplay, rfl⟩)
    · exact ⟨_, hplay, rfl⟩
    · exact ⟨_, hplay, rfl⟩

/-- A tool that returns `null`. -/
def nullServer : Server where
  registry := ⟨[⟨"null", .error "", "", .plain, ToolBody.plain_ne⟩], List.nodup_singleton _⟩
  runTool _ _ := .ret (.finished (.ok .null))
  schema _ := .null
  version := "0.1.0"

/-- Called from afar, it returns the text `null`. -/
theorem null_becomes_text :
    (nullServer.registry.execute nullServer.runTool 0 "null" .null).Plays [] (.ok (.finished (.ok .null))) ∧
    (callTool (http ⟨fun _ => "null", fun _ => .ok .null⟩ nullServer "closed") "1" "null" .null).Plays []
      (.ok (.ok (.string "null"))) ∧
    ¬ (callTool (http ⟨fun _ => "null", fun _ => .ok .null⟩ nullServer "closed") "1" "null" .null).Plays []
      (.ok (.ok .null)) := by
  have hlocal : (nullServer.registry.execute nullServer.runTool 0 "null" .null).Plays []
      (.ok (.finished (.ok .null))) := ⟨rfl, rfl⟩
  refine ⟨hlocal, callTool_plays.mpr ⟨_, hlocal, rfl⟩, fun h => ?_⟩
  obtain ⟨taskEnd, ⟨_, hend⟩, hx⟩ := callTool_plays.mp h
  cases Except.ok.inj hend
  cases hx

/-! ### The tools of a server -/

/-- A tool definition as `ErasedTool::schema` gives it. -/
def toolSchema (name description : String) (inputSchema : Json) : Json :=
  .ofFields [("name", .string name), ("description", .string description), ("input_schema", inputSchema)]

structure McpToolAdapter where
  toolName : String
  toolDescription : String
  inputSchema : Json

namespace McpToolAdapter

def ofInfo (info : McpToolInfo) : McpToolAdapter := ⟨info.name, info.description, info.inputSchema⟩

def schema (adapter : McpToolAdapter) : Json :=
  toolSchema adapter.toolName adapter.toolDescription adapter.inputSchema

/-- `execute_raw` over a client, whose errors become tool errors. -/
def executeRaw (adapter : McpToolAdapter) (send : Transport) (id : String) (args : Json) : M Empty ToolResult := do
  match ← callTool send id adapter.toolName args with
  | .ok v => return .ok v
  | .error e => return .error (.execution e.display)

end McpToolAdapter

/-- An adapter does what the tool does, with the text of its result. -/
theorem adapter_http (adapter : McpToolAdapter) (closed id : String) (args : Json) :
    adapter.executeRaw (http jt server closed) id args =
      server.registry.execute server.runTool 0 adapter.toolName args >>= fun taskEnd =>
        .ret ((remoteResult jt closed taskEnd).mapError fun e => .execution e.display) := by
  unfold McpToolAdapter.executeRaw
  rw [callTool_http, Prog.bind_assoc]
  congr 1
  funext taskEnd
  cases remoteResult jt closed taskEnd <;> rfl

/-- What is listed of a tool is its definition. -/
theorem schema_listed (name description : String) (inputSchema : Json) :
    (McpToolAdapter.ofInfo (.ofJson (listed (toolSchema name description inputSchema)))).schema =
      toolSchema name description inputSchema := by
  have hdef : ∀ key, (toolSchema name description inputSchema).field key =
      ([("name", .string name), ("description", .string description), ("input_schema", inputSchema)].lookup key).getD
        .null := fun key => field_ofFields (by simp) key
  have hlisted : ∀ n d i key, (Json.ofFields [("name", n), ("description", d), ("inputSchema", i)]).field key =
      ([("name", n), ("description", d), ("inputSchema", i)].lookup key).getD .null :=
    fun n d i key => field_ofFields (by simp) key
  unfold listed McpToolInfo.ofJson
  rw [hlisted, hlisted, hlisted, hdef, hdef, hdef]
  rfl

theorem readTools_ok (id : Json) (tools : List Json) :
    readTools (resultBody id (.ofFields [("tools", .ofList tools)])) = .ok (tools.map .ofJson) := by
  have htools : (Json.ofFields [("tools", .ofList tools)]).field "tools" = .ofList tools :=
    field_ofFields (by simp) "tools"
  rw [readTools, resultBody_error, resultBody_result, htools, Json.ofList]
  simp only [Json.asArray, JsonItems.toList_ofList]

/-- The client lists the tools of the server but `find_tools`, and an adapter of each has the same definition. -/
theorem listTools_http (closed id : String) (definition : ErasedTool → String × String × Json)
    (hschema : ∀ tool, server.schema tool =
      toolSchema (definition tool).1 (definition tool).2.1 (definition tool).2.2) :
    ∃ infos, listTools (http jt server closed) id = .ret (.ok infos) ∧
      infos.map (fun info => (McpToolAdapter.ofInfo info).schema) = offered server := by
  let req : JsonRpcRequest := ⟨id, "tools/list", some (.ofFields [])⟩
  have hmethod : req.body.field "method" = .string "tools/list" := field_body "method"
  have hid : req.body.field "id" = .string id := field_body "id"
  refine ⟨((offered server).map listed).map .ofJson, ?_, ?_⟩
  · unfold listTools http handleMcp
    rw [hmethod, hid]
    exact congrArg Prog.ret (readTools_ok (.string id) _)
  · rw [List.map_map, List.map_map]
    refine (List.map_congr_left fun s hs => ?_).trans (List.map_id _)
    obtain ⟨tool, _, rfl⟩ := List.mem_map.mp (List.mem_filter.mp hs).1
    rw [hschema tool]
    exact schema_listed ..

end Mcp

end AgentVerse
