import AgentVerse.Agent.Types

/-!
# Invocations

`invoke_stateless`, and `invoke` in its stages: the history and the input, the skill, the long-term memories, the
strategy run, and what is kept of the turn.
-/

namespace AgentVerse

open Effects

namespace Agent

variable (agent : Agent)

/-! ### Assembling messages -/

def assembleSystem (skillCtx : Option SkillContext) (summariesBlock : Option String) : Option String :=
  let skillParts :=
    match skillCtx with
    | some ctx => ctx.instructions :: ctx.documents
    | none =>
      match summariesBlock with
      | some block => if block = "" then [] else [block]
      | none => []
  let baseParts :=
    match agent.ext.systemPrompt with
    | some base => if isBlank base then [] else [base]
    | none => []
  let parts := skillParts ++ baseParts
  if parts.isEmpty then none else some ("\n\n".intercalate parts)

def assembleMessages (system : Option String) (history : List Message) (input : String) : List Message :=
  (match system with
    | some sys => [.ofText .system sys]
    | none => []) ++ history ++ [.ofText .user input]

def assembleMessagesWithContext (system longTermText : Option String) (history : List Message)
    (input : String) : List Message :=
  let sysContent :=
    match system, longTermText with
    | some sys, some lt => some (sys ++ "\n\n" ++ lt)
    | some sys, none => some sys
    | none, some lt => some lt
    | none, none => none
  assembleMessages sysContent history input

/-! ### Stages of an invocation -/

/-- The cached conversation, or the stored one. -/
def getCacheMemory (userId : String) (sid : SessionId) : M AgentError (List Message) :=
  .ask (.cacheLoad userId sid) fun
    | some messages => .ret messages
    | none => do
      let history ← sess (SessionMemory.loadMessages sid)
      request (.cacheStore userId sid history)
      return history

/-- The phase opening context, which only agents with skills have. -/
def phaseOpening (sid : SessionId) : M AgentError (Option String) :=
  if agent.skills.isSome then sess (SessionMemory.getPhaseOpeningContext sid) else .ret none

/-- The history and the effective input. A phase opening context replaces the history and is used up. -/
def openingContext (userId : String) (sid : SessionId) (input : String) :
    M AgentError (List Message × String) := do
  match ← agent.phaseOpening sid with
  | some ctx =>
    request (.cacheEvict userId sid)
    sess (SessionMemory.setPhaseOpeningContext sid none)
    return ([], ctx ++ "\n\n" ++ input)
  | none =>
    let history ← getCacheMemory userId sid
    return (history, input)

/-- The skill of the session, which routing binds where none is bound yet, and the discovery text. -/
def resolveSkill (sid : SessionId) (input : String) :
    M AgentError (Option SkillContext × Option String) := do
  match ← sess (SessionMemory.getSkillContext sid) with
  | some json =>
    let ctx ← orJson json
    return (some ctx, none)
  | none =>
    match agent.skills with
    | none => return (none, none)
    | some cfg =>
      let reg ← request .readSkills
      match cfg.route input (reg.eligible cfg.mode) with
      | some skillId =>
        let reg ← request .readSkills
        match reg.compileContext skillId with
        | .error e => .fail (.skill e)
        | .ok ctx =>
          sess (SessionMemory.setSkillContext sid (some (.ofValue ctx)))
          return (some ctx, none)
      | none =>
        let text ← request .readSummaries
        return (none, if text = "" then none else some text)

/-- Skill tools that are registered, or all tools without a skill. -/
def activeToolNames (skillCtx : Option SkillContext) : List String :=
  match skillCtx with
  | none => agent.tools.toolNames
  | some ctx => ctx.tools.filter agent.tools.hasTool

/-- The retrieved long-term memories. A failing retrieval is ignored. -/
def longTermText (userId input : String) : M AgentError (Option String) :=
  if agent.longtermMemory then
    .ask (.retrieve userId input 5) fun
      | .error _ => .ret none
      | .ok memories =>
        if memories.isEmpty then .ret none
        else .ret (some ("\n".intercalate (memories.map fun m => "[Memory] " ++ m)))
  else .ret none

/-- Store a finished turn. -/
def keepTurn (userId : String) (sid : SessionId) (input response : String) : M AgentError AgentOutput := do
  let userMsg := Message.ofText .user input
  let assistantMsg := Message.ofText .assistant response
  sess (SessionMemory.appendTurn sid userMsg assistantMsg)
  request (.cacheAppendTurn userId sid userMsg assistantMsg)
  if agent.longtermMemory then
    let _ ← request (.longtermWrite userId ("User: " ++ input ++ "\nAssistant: " ++ response) none)
  return .done response

/-- What an invocation starts from, once its session is read. -/
structure Prepared where
  history : List Message
  input : String
  skillCtx : Option SkillContext
  summariesBlock : Option String

def prepare (userId : String) (sid : SessionId) (input : String) : M AgentError Prepared := do
  sess (SessionManager.assertOwner userId sid)
  let (history, effectiveInput) ← agent.openingContext userId sid input
  let (skillCtx, summariesBlock) ← agent.resolveSkill sid input
  return ⟨history, effectiveInput, skillCtx, summariesBlock⟩

/-- The approval context of an invocation. -/
def Prepared.hitlContext (p : Prepared) (sid : SessionId) : HitlPolicy → HitlContext :=
  HitlContext.new sid (p.skillCtx.map (·.skillId))

/-- The strategy run of an invocation. -/
def runPrepared (userId : String) (sid : SessionId) (p : Prepared) : M AgentError StrategyOutcome := do
  let names := agent.activeToolNames p.skillCtx
  let longTerm ← agent.longTermText userId p.input
  let messages := assembleMessagesWithContext (agent.assembleSystem p.skillCtx p.summariesBlock) longTerm
    p.history p.input
  let strategy ← agent.strategyForInvoke p.input names
  agent.runStrategy strategy messages names (p.hitlContext sid)

/-! ### Entry points -/

def invoke (userId : String) (sid : SessionId) (input : String) : M AgentError AgentOutput := do
  let p ← agent.prepare userId sid input
  match ← agent.runPrepared userId sid p with
  | .done text => agent.keepTurn userId sid p.input text
  | .interrupted interrupt => handleToolInterrupt sid interrupt p.skillCtx

def invokeStateless (input : String) : M AgentError String := do
  match ← llm (agent.strategy.run (assembleMessages (agent.assembleSystem none none) [] input)) with
  | .done text => return text
  | .interrupted _ =>
    .fail (.llm (.memory
      "HITL interrupt is not supported in invoke_stateless (no session to persist interrupted state into)"))

end Agent

end AgentVerse
