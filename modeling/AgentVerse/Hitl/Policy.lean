import AgentVerse.Skill.Registry

/-!
# Approval policy

What a human is asked about (`InterruptKind`), how they answer (`ApprovalDecision`), and the policy that says which
tool calls and phase transitions need an answer.
-/

namespace AgentVerse

inductive InterruptKind where
  | toolApproval (toolName : String) (args : Json)
  | phaseGate (fromSkill toSkill deliverable : String)
  | skillCheckpoint (checkpointName : String) (payload : Json)
  deriving DecidableEq

inductive ApprovalDecision where
  | approved
  | rejected (reason : String)
  | modified (newArgs : Json)
  deriving DecidableEq

instance : Nested InterruptKind where
  depth
    | .toolApproval _ args => args.depth + 2
    | .phaseGate .. => 2
    | .skillCheckpoint _ payload => payload.depth + 2

instance : Nested ApprovalDecision where
  depth
    | .approved => 0
    | .rejected _ => 2
    | .modified newArgs => newArgs.depth + 2

/-- A decision that lets the interrupted work go on. -/
def ApprovalDecision.approves : ApprovalDecision → Bool
  | approved => true
  | rejected _ => false
  | modified _ => true

/-- Tier 1, the global blocklist, wins over everything. Tier 2 comes from the system skills only. The maps and sets
of the source are association lists and lists; an inserted binding shadows the earlier ones. -/
structure HitlPolicy where
  globalToolBlocklist : List String
  skillToolGates : List (SkillId × List String)
  skillPhaseGates : List SkillId
  skillCheckpoints : List (SkillId × List String)

namespace HitlPolicy

def new : HitlPolicy where
  globalToolBlocklist := ["file_delete", "exec_command", "system_shutdown", "database_delete"]
  skillToolGates := []
  skillPhaseGates := []
  skillCheckpoints := []

def fromSystemSkills (skills : List Skill) : HitlPolicy :=
  skills.foldl (fun policy skill =>
    { policy with
      skillToolGates :=
        if skill.hitlTools.isEmpty then policy.skillToolGates
        else (skill.id, skill.hitlTools) :: policy.skillToolGates
      skillPhaseGates :=
        if skill.phaseGate then skill.id :: policy.skillPhaseGates else policy.skillPhaseGates
      skillCheckpoints :=
        if skill.checkpoints.isEmpty then policy.skillCheckpoints
        else (skill.id, skill.checkpoints) :: policy.skillCheckpoints }) new

variable (policy : HitlPolicy)

def requiresToolApproval (skillId : Option SkillId) (toolName : String) : Bool :=
  policy.globalToolBlocklist.contains toolName ||
    match skillId.bind fun id => policy.skillToolGates.lookup id with
    | some gates => gates.contains toolName
    | none => false

def requiresPhaseGate (skillId : SkillId) : Bool := policy.skillPhaseGates.contains skillId

def isCheckpointTool (toolName : String) : Bool := toolName = "request_checkpoint"

/-- Tools that must be called, and approved, before a skill invocation may finish. -/
def requiredToolNames : Option SkillId → List String
  | none => []
  | some id =>
    (policy.skillToolGates.lookup id).getD [] ++
      match policy.skillCheckpoints.lookup id with
      | some cps => if cps.isEmpty then [] else ["request_checkpoint"]
      | none => []

/-- The calls that are stopped before they run: checkpoints and calls that need approval. -/
def intercepts (skillId : Option SkillId) (toolName : String) : Bool :=
  isCheckpointTool toolName || policy.requiresToolApproval skillId toolName

/-- Tier 1 wins: a blocklisted tool needs approval under every skill. -/
theorem requiresToolApproval_of_blocklist {toolName : String}
    (h : toolName ∈ policy.globalToolBlocklist) (skillId : Option SkillId) :
    policy.requiresToolApproval skillId toolName = true := by
  simp [requiresToolApproval, h]

theorem intercepts_of_requires {skillId : Option SkillId} {toolName : String}
    (h : policy.requiresToolApproval skillId toolName = true) :
    policy.intercepts skillId toolName = true := by
  simp [intercepts, h]

/-- A required tool is always stopped. -/
theorem intercepts_of_required {skillId : Option SkillId} {toolName : String}
    (h : toolName ∈ policy.requiredToolNames skillId) : policy.intercepts skillId toolName = true := by
  cases skillId with
  | none => cases h
  | some id =>
    rcases List.mem_append.mp h with h | h
    · cases hgates : policy.skillToolGates.lookup id with
      | none => rw [hgates] at h; cases h
      | some gates =>
        rw [hgates] at h
        exact policy.intercepts_of_requires (by simp [requiresToolApproval, hgates, show toolName ∈ gates from h])
    · have hname : toolName = "request_checkpoint" := by
        split at h
        · split at h
          · cases h
          · exact List.mem_singleton.mp h
        · cases h
      simp [intercepts, isCheckpointTool, hname]

end HitlPolicy

end AgentVerse
