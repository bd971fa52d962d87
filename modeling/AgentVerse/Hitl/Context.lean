import AgentVerse.Tools.Registry

/-!
# Approval context

The hook that an agent gives to its strategies: it checks a call against the policy and, for a call that is
intercepted, submits a request to the queue.
-/

namespace AgentVerse

open Effects

structure HitlContext where
  sessionId : SessionId
  skillId : Option SkillId
  policy : HitlPolicy
  /-- The mandatory call of the invocation already happened before it was suspended. -/
  alreadySatisfied : Bool

namespace HitlContext

def new (sessionId : SessionId) (skillId : Option SkillId) (policy : HitlPolicy) : HitlContext :=
  ⟨sessionId, skillId, policy, false⟩

def newForResume (sessionId : SessionId) (skillId : Option SkillId) (policy : HitlPolicy) : HitlContext :=
  ⟨sessionId, skillId, policy, true⟩

variable (ctx : HitlContext)

/-- What a human is asked about a call, if anything. -/
def interruptKind (toolName : String) (args : Json) : Option InterruptKind :=
  if HitlPolicy.isCheckpointTool toolName then
    some (.skillCheckpoint ((args.field "name").asStr.getD "unknown") (args.field "payload"))
  else if ctx.policy.requiresToolApproval ctx.skillId toolName then
    some (.toolApproval toolName args)
  else none

/-- Submit a request; when the queue fails, the call is blocked under a sentinel id that is not in the queue. -/
def submit (kind : InterruptKind) : M Empty (ApprovalId × JsonText InterruptKind) :=
  .ask (.submit ctx.sessionId kind) fun
    | .ok id => .ret (id, .ofValue kind)
    | .error _ => do
      let sentinel ← request .newUuid
      return (sentinel, .ofValue kind)

def checkTool (toolName : String) (args : Json) : M Empty (Option (ApprovalId × JsonText InterruptKind)) :=
  match ctx.interruptKind toolName args with
  | none => .ret none
  | some kind => do
    let r ← ctx.submit kind
    return some r

def requiredToolNames : List String :=
  if ctx.alreadySatisfied then [] else ctx.policy.requiredToolNames ctx.skillId

def hook : HitlHook := ⟨ctx.checkTool, ctx.requiredToolNames⟩

/-- Whether a call is intercepted depends on its name only. -/
theorem interruptKind_isSome (toolName : String) (args : Json) :
    (ctx.interruptKind toolName args).isSome = ctx.policy.intercepts ctx.skillId toolName := by
  unfold interruptKind HitlPolicy.intercepts
  by_cases h1 : HitlPolicy.isCheckpointTool toolName = true
  · simp [h1]
  · by_cases h2 : ctx.policy.requiresToolApproval ctx.skillId toolName = true <;> simp [h1, h2]

theorem interruptKind_eq_none {toolName : String} {args : Json} :
    ctx.interruptKind toolName args = none ↔ ctx.policy.intercepts ctx.skillId toolName = false := by
  rw [← interruptKind_isSome ctx toolName args]
  cases ctx.interruptKind toolName args <;> simp

/-- A call is never shown as a phase gate. -/
theorem interruptKind_ne_phaseGate {toolName : String} {args : Json} {kind : InterruptKind}
    (h : ctx.interruptKind toolName args = some kind) (f t d : String) : kind ≠ .phaseGate f t d := by
  rintro rfl
  unfold interruptKind at h
  split at h
  · cases h
  · split at h <;> cases h

/-- An intercepted call that is no checkpoint is shown with its name and arguments. -/
theorem interruptKind_toolApproval {toolName n : String} {args a : Json}
    (h : ctx.interruptKind toolName args = some (.toolApproval n a)) :
    n = toolName ∧ a = args ∧ HitlPolicy.isCheckpointTool toolName = false := by
  unfold interruptKind at h
  split at h
  · cases h
  · split at h
    · cases h
      exact ⟨rfl, rfl, by simpa using ‹¬HitlPolicy.isCheckpointTool toolName = true›⟩
    · cases h

end HitlContext

end AgentVerse
