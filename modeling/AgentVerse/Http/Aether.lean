import AgentVerse.Agent.Calls
import AgentVerse.Http.Envelope
import AgentVerse.Http.Messages

/-!
# The aether routes

`POST /aether/invoke` opens a session for the user named in the metadata, invokes the agent once and answers with an
envelope; `POST /aether/resume` continues a suspended session for its owner. A session ends with the result that is
sent. Beside the requests of the orchestrator, other calls reach the same agent.
-/

namespace AgentVerse

open Effects SessionRoutes

/-- `serde_json::to_value`. -/
def Envelope.value (uu : UuidTexts) (e : Envelope) : Json := .object (Json.record [
  ("id", some (.string (uu.print e.id))),
  ("kind", some (.string e.kind.name)),
  ("payload", some e.payload),
  ("metadata", some e.metadata.document)])

namespace Aether

def interruptToKindAndPrompt (ext : Externals) : InterruptKind → String × String
  | .toolApproval toolName args =>
    ("tool_approval", "Approve tool call \x60" ++ toolName ++ "\x60 with args " ++ ext.display args ++ "?")
  | .phaseGate fromSkill toSkill deliverable =>
    ("phase_gate", "Approve phase transition " ++ fromSkill ++ " → " ++ toSkill ++ " (deliverable: " ++ deliverable ++
      ")?")
  | .skillCheckpoint checkpointName payload =>
    ("skill_checkpoint", "Approve checkpoint \x60" ++ checkpointName ++ "\x60 with payload " ++ ext.display payload ++
      "?")

def mapDecision : AetherApprovalDecision → ApprovalDecision
  | .approved => .approved
  | .rejected reason => .rejected (reason.getD "")
  | .modified payload => .modified payload

/-- The payload of a result. -/
def resultPayload (text : String) : Json := .object (Json.record [("output", some (.string text))])

variable (agent : Agent) (uu : UuidTexts)

def suspendPayload (sid : SessionId) (approvalId : ApprovalId) (kind : InterruptKind) : SuspendPayload :=
  let (kindTag, prompt) := interruptToKindAndPrompt agent.ext kind
  ⟨uu.print sid, uu.print approvalId, kindTag, prompt⟩

/-- The envelope for an output. The session is ended on a result, as far as that works. -/
def finish (owner : String) (sid : SessionId) (reqId : Uuid) (metadata : StringMap) :
    AgentOutput → M Empty Envelope
  | .done text => do
    let _ ← (Agent.endSession owner sid).attempt
    return ⟨reqId, .result, resultPayload text, metadata⟩
  | .interrupted approvalId kind =>
    return ⟨reqId, .suspended, (suspendPayload agent uu sid approvalId kind).value, metadata⟩

def errorEnvelope (reqId : Uuid) (metadata : StringMap) (message : String) : Response :=
  ⟨500, (Envelope.mk reqId .error (errorBody message) metadata).value uu⟩

/-- The user that an envelope is from. -/
def owner (envelope : Envelope) : String := (envelope.metadata.get? "user_id").getD "aether"

/-- The input of an envelope: a client's, or else the output of an upstream node. -/
def input (envelope : Envelope) : String :=
  ((envelope.payload.field "input").asStr.or (envelope.payload.field "output").asStr).getD ""

def aetherInvoke (envelope : Envelope) : M Empty Response :=
  if envelope.kind ≠ .invoke then .ret ⟨400, errorBody "expected envelope kind: invoke"⟩
  else do
    match ← (Agent.createSession (owner envelope)).attempt with
    | .error e => return errorEnvelope uu envelope.id envelope.metadata (e.display uu.print)
    | .ok sid =>
      match ← (agent.invoke (owner envelope) sid (input envelope)).attempt with
      | .ok out =>
        let resp ← finish agent uu (owner envelope) sid envelope.id envelope.metadata out
        return ⟨200, resp.value uu⟩
      | .error e =>
        let _ ← (Agent.endSession (owner envelope) sid).attempt
        return errorEnvelope uu envelope.id envelope.metadata (e.display uu.print)

/-- `Agent::session_owner`: the owner of a session, without an assertion. -/
def sessionOwner (sid : SessionId) : M AgentError (Option String) := do
  let session ← sess (SessionMemory.get sid)
  return session.map (·.userId)

/-- The answer to a request to resume, once the agent is through with it. -/
def answerResume (owner : String) (sid : SessionId) : Except AgentError AgentOutput → M Empty Response
  | .ok out => do
    let id ← request .newUuid
    let resp ← finish agent uu owner sid id .empty out
    return ⟨200, resp.value uu⟩
  | .error e => return ⟨statusForAgentError e, errorBody (e.display uu.print)⟩

def aetherResume (req : ResumeRequest) : M Empty Response :=
  match uu.parse req.sessionId with
  | none => .ret ⟨400, errorBody "invalid session_id"⟩
  | some sid =>
    match uu.parse req.approvalId with
    | none => .ret ⟨400, errorBody "invalid approval_id"⟩
    | some approvalId => do
      match ← (sessionOwner sid).attempt with
      | .ok (some owner) =>
        let r ← (agent.resume owner sid approvalId (mapDecision req.decision)).attempt
        answerResume agent uu owner sid r
      | .ok none => return ⟨404, errorBody "session not found"⟩
      | .error e => return ⟨500, errorBody (e.display uu.print)⟩

end Aether

/-! ### Histories -/

/-- What reaches an agent behind the aether routes: requests of the orchestrator, and any other call. -/
inductive AetherCall where
  | invoke (envelope : Envelope)
  | resume (req : ResumeRequest)
  | api (call : ApiCall)

inductive AetherReply where
  | response (r : Response)
  | api (r : Except AgentError ApiResult)

def Agent.aetherProgram (agent : Agent) (uu : UuidTexts) : AetherCall → M Empty AetherReply
  | .invoke envelope => do return .response (← Aether.aetherInvoke agent uu envelope)
  | .resume req => do return .response (← Aether.aetherResume agent uu req)
  | .api call => do return .api (← (agent.program call).attempt)

abbrev AetherEntry := Entry AetherCall Reply World Empty AetherReply

abbrev AetherHistory := History AetherCall Reply World Empty AetherReply

/-- The history after the calls `cs`, from the history `H`. -/
def Agent.serveAether (agent : Agent) (env : Env) (uu : UuidTexts) (H : AetherHistory) (cs : List AetherCall) :
    AetherHistory := H.calls (handle env) (agent.aetherProgram uu) cs

/-- The entry that a call makes in world `w`. -/
def Agent.aetherEntry (agent : Agent) (env : Env) (uu : UuidTexts) (w : World) (call : AetherCall) : AetherEntry :=
  History.entry (handle env) (agent.aetherProgram uu) w call

/-! ### Reading the answers -/

namespace Envelope

variable {uu : UuidTexts} {e : Envelope}

/-- An envelope is read from the value that is sent for it. -/
theorem ofDocument_value (h : e.payload.Ordered) : ofDocument uu (e.value uu) = some e := by
  have hordered : (e.value uu).Ordered := by
    refine Json.ordered_record fun x hx v hv => ?_
    simp only [List.mem_cons, List.not_mem_nil, or_false] at hx
    rcases hx with rfl | rfl | rfl | rfl
    · cases hv; trivial
    · cases hv; trivial
    · cases hv; exact h
    · cases hv; exact e.metadata.ordered_document
  have hget : ∀ key, (Json.record [("id", some (.string (uu.print e.id))), ("kind", some (.string e.kind.name)),
      ("payload", some e.payload), ("metadata", some e.metadata.document)]).get? key = _ :=
    Json.get?_record (show ["id", "kind", "payload", "metadata"].Nodup by decide)
  have hparts : ofParts uu (.string (uu.print e.id)) (.string e.kind.name) e.payload e.metadata.document = some e :=
    ofDocument_document h
  unfold value ofDocument at *
  simp only [JsonFields.single_eq_get? hordered.1, hget]
  exact hparts

end Envelope

end AgentVerse
