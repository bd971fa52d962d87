import AgentVerse.Agent.Resume

/-!
# Sessions and phases

The session operations of an agent, and `advance_phase`, which reads a transition from an agent's output and either
applies it or suspends the session at a phase gate.
-/

namespace AgentVerse

open Effects

/-! ### Transition directives -/

/-- A finished line without its carriage return; the line is given in reverse. -/
def closeLine : List Char → List Char
  | '\r' :: cs => cs.reverse
  | cs => cs.reverse

/-- `str::lines`; `acc` holds the current line in reverse. -/
def linesFrom (acc : List Char) : List Char → List (List Char)
  | [] => if acc.isEmpty then [] else [acc.reverse]
  | c :: cs => if c = '\n' then closeLine acc :: linesFrom [] cs else linesFrom (c :: acc) cs

/-- The lines of a text, last one first, without blank ones in front. -/
def popBlank (linesReversed : List (List Char)) : List (List Char) :=
  linesReversed.dropWhile fun l => l.all isWhitespace

/-- What follows a directive on its line, trimmed; nothing when the line has another form or the rest is empty. -/
def directive (name : String) (line : List Char) : Option (List Char) :=
  let line := trim line
  if name.toList.isPrefixOf line then
    let value := trim (line.drop name.toList.length)
    if value.isEmpty then none else some value
  else none

/-- Parse `NEXT_SKILL: <id>` and `SUMMARY: <text>` from the last non-empty lines of an output. -/
def parsePhaseTransition (output : String) : Option PhaseTransition :=
  match popBlank (linesFrom [] (trimEnd output.toList)).reverse with
  | last :: rest => do
    let summary ← directive "SUMMARY:" last
    match popBlank rest with
    | [] => none
    | nextLine :: body =>
      let nextSkill ← directive "NEXT_SKILL:" nextLine
      let deliverable := "\n".toList.intercalate (popBlank body).reverse
      if (trim deliverable).isEmpty then none
      else some ⟨String.ofList nextSkill, String.ofList summary, String.ofList deliverable⟩
  | [] => none

namespace Agent

variable (agent : Agent)

/-! ### Sessions -/

def createSession (userId : String) : M AgentError SessionId := sess (SessionManager.createSession userId)

def createSessionWithSkill (userId : String) (skillId : SkillId) : M AgentError SessionId := do
  match agent.skills with
  | none => .fail (.skill (.notConfigured "no skill registry configured on this agent"))
  | some _ =>
    let reg ← request .readSkills
    match reg.compileContext skillId with
    | .error e => .fail (.skill e)
    | .ok ctx => sess (SessionManager.createSessionWithSkillContext userId (.ofValue ctx))

def getSession (userId : String) (sid : SessionId) : M AgentError (Option Session) := do
  sess (SessionManager.assertOwner userId sid)
  sess (SessionMemory.get sid)

def listSessions (userId : String) : M AgentError (List Session) := sess (SessionMemory.listByUser userId)

def loadMessages (userId : String) (sid : SessionId) : M AgentError (List Message) := do
  sess (SessionManager.assertOwner userId sid)
  sess (SessionMemory.loadMessages sid)

def endSession (userId : String) (sid : SessionId) : M AgentError Unit := do
  sess (SessionManager.assertOwner userId sid)
  sess (SessionManager.endSession sid)
  request (.cacheEvict userId sid)

/-- Delete sessions and evict them from the working memory. -/
def deleteAll (userId : String) : List Session → M AgentError Unit
  | [] => .ret ()
  | session :: sessions => do
    sess (SessionMemory.deleteSession session.id)
    request (.cacheEvict userId session.id)
    deleteAll userId sessions

def deleteAllUserData (userId : String) : M AgentError Unit := do
  let sessions ← sess (SessionMemory.listByUser userId)
  deleteAll userId sessions

/-! ### Phases -/

/-- The skill whose phase gate a transition has to pass, if any. -/
def gatedSkill (policy : HitlPolicy) (ctxJson : Option (JsonText SkillContext)) : Option SkillId :=
  match ctxJson.bind fun j => j.fromStr.toOption with
  | some ctx => if policy.requiresPhaseGate ctx.skillId then some ctx.skillId else none
  | none => none

/-- Suspend the session at its phase gate. -/
def suspendAtGate (sid : SessionId) (skillId : SkillId) (transition : PhaseTransition) :
    M AgentError PhaseAdvanceResult :=
  .ask (.submit sid (.phaseGate skillId transition.nextSkill transition.deliverable)) fun
    | .error e => .fail (.session (.database e.display))
    | .ok approvalId => do
      persistInterrupt sid (.pendingPhaseGate approvalId (.ofValue transition))
      return .pending approvalId

/-- Whether a transition is gated, in the session's current skill. -/
def phaseGate (sid : SessionId) : M AgentError (Option SkillId) :=
  match agent.hitl with
  | none => .ret none
  | some policy => do
    let ctxJson ← sess (SessionMemory.getSkillContext sid)
    return gatedSkill policy ctxJson

def advancePhase (userId : String) (sid : SessionId) (output : String) :
    M AgentError (Option PhaseAdvanceResult) := do
  sess (SessionManager.assertOwner userId sid)
  match parsePhaseTransition output with
  | none => return none
  | some transition =>
    match ← agent.phaseGate sid with
    | some skillId =>
      let r ← suspendAtGate sid skillId transition
      return some r
    | none =>
      agent.applyTransition "no skill registry configured on this agent" sid transition
      return some (.advanced transition)

end Agent

end AgentVerse
