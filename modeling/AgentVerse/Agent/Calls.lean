import AgentVerse.Agent.Invoke
import AgentVerse.Agent.Sessions
import AgentVerse.Effects.History
import AgentVerse.Workers

/-!
# Calls

The calls that reach a running agent from outside, those of its clients and operators and those of its background
workers, each with the program it runs. A history of such calls, one after the other, is a run of the system.
-/

namespace AgentVerse

open Effects

inductive ApiCall where
  | createSession (userId : String)
  | createSessionWithSkill (userId : String) (skillId : SkillId)
  | invoke (userId : String) (sid : SessionId) (input : String)
  | invokeStateless (input : String)
  | resume (userId : String) (sid : SessionId) (approvalId : ApprovalId) (decision : ApprovalDecision)
  | advancePhase (userId : String) (sid : SessionId) (output : String)
  | endSession (userId : String) (sid : SessionId)
  | deleteAllUserData (userId : String)
  /-- `ApprovalQueue::resolve`, by an operator. -/
  | resolve (id : ApprovalId) (decision : ApprovalDecision)
  /-- `ApprovalQueue::sweep_expired`, by the sweep worker. -/
  | sweepExpired
  /-- `HitlContext::check_tool`, outside any strategy run. -/
  | checkTool (ctx : HitlContext) (toolName : String) (args : Json)
  /-- `CleanupWorker::tick`. -/
  | cleanup (cfg : CleanupConfig)

/-- The session that a call is about. -/
def ApiCall.session? : ApiCall → Option SessionId
  | invoke _ sid _ | resume _ sid _ _ | advancePhase _ sid _ | endSession _ sid => some sid
  | _ => none

inductive ApiResult where
  | unit
  | session (id : SessionId)
  | output (out : AgentOutput)
  | text (text : String)
  | phase (result : Option PhaseAdvanceResult)
  | queue (result : Except HitlError Unit)
  | check (result : Option (ApprovalId × JsonText InterruptKind))
  deriving DecidableEq

/-- The program of a call. The workers log their errors and go on. -/
def Agent.program (agent : Agent) : ApiCall → M AgentError ApiResult
  | .createSession u => do return .session (← createSession u)
  | .createSessionWithSkill u s => do return .session (← agent.createSessionWithSkill u s)
  | .invoke u sid input => do return .output (← agent.invoke u sid input)
  | .invokeStateless input => do return .text (← agent.invokeStateless input)
  | .resume u sid id decision => do return .output (← agent.resume u sid id decision)
  | .advancePhase u sid output => do return .phase (← agent.advancePhase u sid output)
  | .endSession u sid => do
    endSession u sid
    return .unit
  | .deleteAllUserData u => do
    deleteAllUserData u
    return .unit
  | .resolve id decision => do return .queue (← request (.resolve id decision))
  | .sweepExpired => do
    let _ ← request .sweepExpired
    return .unit
  | .checkTool ctx toolName args => do return .check (← infallible (ctx.checkTool toolName args))
  | .cleanup cfg => do
    let _ ← (CleanupWorker.tick cfg).attempt
    return .unit

/-- A completed call. -/
abbrev CallEntry := Entry ApiCall Reply World AgentError ApiResult

/-- A run of the system. -/
abbrev CallHistory := History ApiCall Reply World AgentError ApiResult

/-- The history after the calls `cs`, from the history `H`. -/
def Agent.serve (agent : Agent) (env : Env) (H : CallHistory) (cs : List ApiCall) : CallHistory :=
  H.calls (handle env) agent.program cs

/-- The entry that call `c` makes in world `w`. -/
def Agent.entry (agent : Agent) (env : Env) (w : World) (c : ApiCall) : CallEntry :=
  History.entry (handle env) agent.program w c

/-- A call leaves what its program leaves. -/
theorem Agent.entry_eq {agent : Agent} {α : Type} {call : ApiCall} {p : M AgentError α} {f : α → ApiResult}
    (h : agent.program call = p >>= fun a => .ret (f a)) (env : Env) (w : World) :
    agent.entry env w call =
      ⟨call, w, (p.run (handle env) ⟨w, []⟩).2.trace, (p.run (handle env) ⟨w, []⟩).1.map f,
        (p.run (handle env) ⟨w, []⟩).2.state⟩ := by
  simp only [Agent.entry, History.entry, Prog.asked, h, Prog.run_bind_ret]

/-- The history in which nothing happened yet. -/
def CallHistory.start (w : World) : CallHistory := ⟨[], w⟩

/-! ### A plain deployment -/

/-- External code that rejects nothing, renders nothing and parses nothing. -/
def Externals.plain : Externals where
  display _ := ""
  checkOutput _ := none
  checkPrompt _ := none
  reactPreamble := none
  systemPrompt := none
  planPrompt _ _ := .ok ""
  decomposePrompt _ := .ok ""
  parsePlan _ := .error ""
  parseGoals _ := .error ""
  parseSubAgentArgs _ := .error ""
  withModel _ := none
  showElapsed _ := ""

def ErasedTool.plain (name : String) : ErasedTool := ⟨name, .ok ⟨name, "", .null⟩, "", .plain, ToolBody.plain_ne⟩

/-- A registry of a harmless tool and of two tools on the default blocklist. -/
def ToolRegistry.plain : ToolRegistry where
  tools := [.plain "read_file", .plain "file_delete", .plain "exec_command"]
  nodup := by decide

/-- A ReAct agent with the default policy and no skills. -/
def Agent.plain : Agent where
  ext := .plain
  tools := .plain
  kind := .react
  maxIterations := 4
  strategyRouter := none
  longtermMemory := false
  skills := none
  hitl := some .new

/-- A skill whose phase has to be approved. -/
def Skill.draft : Skill where
  id := "draft"
  description := ""
  tools := ["read_file", "file_delete", "exec_command"]
  instructions := ""
  documents := []
  maxIterations := none
  hitlTools := []
  phaseGate := true
  checkpoints := []

/-- The plain agent with skills, one of which has a phase gate. -/
def Agent.gated : Agent :=
  { Agent.plain with
    skills := some ⟨.open, fun _ _ => none⟩
    hitl := some (.fromSystemSkills [.draft]) }

/-- A response that calls tools without arguments; each call has its tool's name for an id. -/
def GenerateResponse.ofCalls (names : List String) : GenerateResponse :=
  ⟨names.map fun name => .toolUse name name .null, .zero⟩

def GenerateResponse.ofText (text : String) : GenerateResponse := ⟨[.text text], .zero⟩

/-- A model that asks for tools on the first message of a conversation and then answers. -/
def Env.asksFor (names : List String) : Env :=
  .steady fun _ req => if req.messages.length ≤ 1 then .ofCalls names else .ofText "done"

end AgentVerse
