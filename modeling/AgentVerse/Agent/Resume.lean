import AgentVerse.Agent.Types

/-!
# Resuming

`Agent::resume` in its stages: the checks that read only, the two writes that consume the pending state, and the
decision taking effect.
-/

namespace AgentVerse

open Effects

namespace InterruptedState

/-- The persisted history and calls, for the states that have them. -/
def payload : InterruptedState → Except AgentError (Option (List Message × List ToolCall))
  | pendingToolCall _ _ historyJson pendingCallsJson _ _ => parse historyJson pendingCallsJson
  | pendingCheckpoint _ _ historyJson _ _ => parse historyJson (.ofValue [])
  | pendingPhaseGate _ _ => .ok none
where
  /-- `parse_resume_payload`: any error becomes the fixed, actionable one. -/
  parse (historyJson : JsonText (List Message)) (pendingCallsJson : JsonText (List ToolCall)) :
      Except AgentError (Option (List Message × List ToolCall)) :=
    match historyJson.fromStr with
    | .error _ => .error .incompatiblePersistedInterrupt
    | .ok history =>
      match pendingCallsJson.fromStr with
      | .error _ => .error .incompatiblePersistedInterrupt
      | .ok pending => .ok (some (history, pending))

def activeToolNames : InterruptedState → List String
  | pendingToolCall _ _ _ _ names _ => names
  | pendingCheckpoint _ _ _ names _ => names
  | pendingPhaseGate _ _ => []

def skillContextJson : InterruptedState → Option (JsonText SkillContext)
  | pendingToolCall _ _ _ _ _ ctx => ctx
  | pendingCheckpoint _ _ _ _ ctx => ctx
  | pendingPhaseGate _ _ => none

/-- The skill that a resumed run is bound to: the persisted one, if it can be read. -/
def skillContext (state : InterruptedState) : Option SkillContext :=
  state.skillContextJson.bind fun j => j.fromStr.toOption

end InterruptedState

theorem Agent.skillContext_interruptedState (i : HitlInterrupt) (kind : InterruptKind)
    (skillCtx : Option SkillContext) : (interruptedState i kind skillCtx).skillContext = skillCtx := by
  cases kind <;> cases skillCtx <;> rfl

/-- The calls that are persisted with an interrupt. -/
def persistedCalls (i : HitlInterrupt) : InterruptKind → List ToolCall
  | .skillCheckpoint .. => []
  | _ => i.pendingCalls

/-- What an interrupt persists is read back: neither text nests too deep. -/
def ReadsBack (i : HitlInterrupt) (kind : InterruptKind) : Prop :=
  Nested.depth i.history < nestingLimit ∧ Nested.depth (persistedCalls i kind) < nestingLimit

instance (i : HitlInterrupt) (kind : InterruptKind) : Decidable (ReadsBack i kind) :=
  inferInstanceAs (Decidable (_ ∧ _))

theorem Agent.payload_interruptedState (i : HitlInterrupt) (kind : InterruptKind) (skillCtx : Option SkillContext) :
    (interruptedState i kind skillCtx).payload =
      if ReadsBack i kind then .ok (some (i.history, persistedCalls i kind))
      else .error .incompatiblePersistedInterrupt := by
  have hparse : (interruptedState i kind skillCtx).payload =
      InterruptedState.payload.parse (.ofValue i.history) (.ofValue (persistedCalls i kind)) := by
    cases kind <;> rfl
  rw [hparse, InterruptedState.payload.parse]
  by_cases h : ReadsBack i kind
  · rw [if_pos h, JsonText.fromStr_ofValue h.1, JsonText.fromStr_ofValue h.2]
  · rw [if_neg h]
    by_cases hhistory : Nested.depth i.history < nestingLimit
    · rw [JsonText.fromStr_ofValue hhistory, JsonText.fromStr_ofValue_error fun hcalls => h ⟨hhistory, hcalls⟩]
    · rw [JsonText.fromStr_ofValue_error hhistory]

/-- What is read back is what was persisted. -/
theorem Agent.payload_eq_ok {i : HitlInterrupt} {kind : InterruptKind} {skillCtx : Option SkillContext}
    {payload : Option (List Message × List ToolCall)}
    (h : (interruptedState i kind skillCtx).payload = .ok payload) :
    ReadsBack i kind ∧ payload = some (i.history, persistedCalls i kind) := by
  rw [payload_interruptedState] at h
  split at h
  · exact ⟨‹_›, (Except.ok.inj h).symm⟩
  · cases h

namespace Agent

variable (agent : Agent)

/-- The observation text of executed calls. -/
def renderResults (results : List ToolCallResult) : String :=
  "\n\n".intercalate <| results.map fun r =>
    let v := match r.result with
      | .ok v => agent.ext.display v
      | .error e => "Error: " ++ e.display
    "Tool: " ++ r.name ++ "\nResult: " ++ v

/-- The tools that pending calls are executed with. -/
def executionTools (activeToolNames : List String) : ToolRegistry :=
  match agent.strategyRouter with
  | some _ => agent.tools.restrictedToNames activeToolNames
  | none => agent.tools

/-- Execute calls directly, without the approval hook. -/
def executeDirectly (activeToolNames : List String) (calls : List ToolCall) : M AgentError String := do
  let results ←
    infallible ((agent.executionTools activeToolNames).executeMany agent.executor.runTool 0 calls)
  return agent.renderResults results

/-- What the decision makes of the pending calls. -/
def observation (activeToolNames : List String) (decision : ApprovalDecision) (pending : List ToolCall) :
    M AgentError String :=
  match decision with
  | .approved =>
    if pending.isEmpty then .ret "Checkpoint approved. Continue."
    else agent.executeDirectly activeToolNames pending
  | .modified newArgs =>
    match pending with
    | first :: _ => agent.executeDirectly activeToolNames [{ first with args := newArgs }]
    | [] => .ret "No tool calls to modify."
  | .rejected reason =>
    if pending.isEmpty then .ret ("Checkpoint rejected: " ++ reason ++ ". Revise and resubmit.")
    else
      .ret ("\n\n".intercalate (pending.map fun c =>
        "Tool: " ++ c.name ++ "\nResult: Rejected by approver: " ++ reason))

/-- Continue the suspended run with one more user message. -/
def continueRun (sid : SessionId) (state : InterruptedState) (messages : List Message) :
    M AgentError AgentOutput := do
  let skillCtx := state.skillContext
  match ← agent.runStrategy (agent.strategyForResume state.activeToolNames) messages state.activeToolNames
      (HitlContext.newForResume sid (skillCtx.map (·.skillId))) with
  | .done text => return .done text
  | .interrupted interrupt => handleToolInterrupt sid interrupt skillCtx

def resumeToolCallOrCheckpoint (sid : SessionId) (state : InterruptedState) (decision : ApprovalDecision)
    (history : List Message) (pending : List ToolCall) : M AgentError AgentOutput := do
  let text ← agent.observation state.activeToolNames decision pending
  agent.continueRun sid state (history ++ [.ofText .user text])

/-- Bind the session to the next skill and leave its opening context. -/
def applyTransition (notConfigured : String) (sid : SessionId) (transition : PhaseTransition) :
    M AgentError Unit := do
  match agent.skills with
  | none => .fail (.skill (.notConfigured notConfigured))
  | some _ =>
    let reg ← request .readSkills
    match reg.compileContext transition.nextSkill with
    | .error e => .fail (.skill e)
    | .ok newCtx =>
      sess (SessionMemory.applyPhaseTransition sid (.ofValue newCtx)
        ("Context from previous phase: " ++ transition.summary))

def resumePhaseGate (sid : SessionId) (transitionJson : JsonText PhaseTransition)
    (decision : ApprovalDecision) : M AgentError AgentOutput := do
  match decision with
  | .rejected reason => return .done ("Phase transition rejected: " ++ reason)
  | _ =>
    let transition ← orJson transitionJson
    agent.applyTransition "no skills configured" sid transition
    return .done ("Phase transition to " ++ transition.nextSkill ++ " approved.")

/-- What a resume works on, once it is checked. -/
structure Resolved where
  state : InterruptedState
  payload : Option (List Message × List ToolCall)

/-- The checks of `resume`, none of which writes. -/
def resumeChecks (userId : String) (sid : SessionId) (approvalId : ApprovalId) : M AgentError Resolved := do
  sess (SessionManager.assertOwner userId sid)
  match ← sess (SessionMemory.getInterruptedState sid) with
  | none => .fail (.session (.notFound sid))
  | some stateJson =>
    let state ← orJson stateJson
    if state.approvalId ≠ approvalId then
      .fail (.llm (.memory ("approval_id mismatch: expected " ++ toString state.approvalId ++ ", got " ++
        toString approvalId)))
    else
      match state.payload with
      | .error e => .fail e
      | .ok payload => return ⟨state, payload⟩

/-- The two writes that consume the pending state. -/
def resumeClear (sid : SessionId) : M AgentError Unit := do
  sess (SessionMemory.setInterruptedState sid none)
  sess (SessionMemory.updateStatus sid .active)

/-- The decision taking effect. -/
def resumeAct (sid : SessionId) (resolved : Resolved) (decision : ApprovalDecision) :
    M AgentError AgentOutput :=
  match resolved.state, resolved.payload with
  | .pendingPhaseGate _ transitionJson, _ => agent.resumePhaseGate sid transitionJson decision
  | state, some (history, pending) => agent.resumeToolCallOrCheckpoint sid state decision history pending
  -- `resolved.expect(..)`: the payload of the other states is always there.
  | _, none => .fail (.llm .panicked)

def resume (userId : String) (sid : SessionId) (approvalId : ApprovalId) (decision : ApprovalDecision) :
    M AgentError AgentOutput := do
  let resolved ← resumeChecks userId sid approvalId
  resumeClear sid
  agent.resumeAct sid resolved decision

end Agent

end AgentVerse
