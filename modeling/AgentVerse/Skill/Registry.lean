import Mathlib.Data.List.Sort
import Mathlib.Data.String.Basic
import AgentVerse.Core.Types

/-!
# Skills

Skill packages, the registry they are looked up in, and the context that a session is bound to. The keyword router
scores in floating point; it is the parameter `route` of a skill configuration.
-/

namespace AgentVerse

abbrev SkillId := String

/-- `Skill`, with the fields that routing, contexts and the approval policy read. -/
structure Skill where
  id : SkillId
  description : String
  tools : List String
  instructions : String
  documents : List String
  maxIterations : Option Nat
  hitlTools : List String
  phaseGate : Bool
  checkpoints : List String
  deriving DecidableEq

/-- The skill a session is bound to, persisted as JSON. -/
structure SkillContext where
  skillId : SkillId
  instructions : String
  documents : List String
  tools : List String
  maxIterations : Option Nat
  deriving DecidableEq

instance : Nested SkillContext := ⟨fun _ => 2⟩

@[simp] theorem SkillContext.fromStr_ofValue (ctx : SkillContext) : (JsonText.ofValue ctx).fromStr = .ok ctx := rfl

@[simp] theorem SkillContext.fromStr_printed (ctx : SkillContext) : (JsonText.printed ctx).fromStr = .ok ctx := rfl

inductive SkillError where
  | notFound (id : String)
  | notConfigured (message : String)
  deriving DecidableEq

inductive SkillMode where
  | open
  | constrained (ids : List SkillId)
  deriving DecidableEq

/-- The skills on disk, in the iteration order of the map they are kept in. -/
structure SkillRegistry where
  skills : List Skill
  deriving DecidableEq

namespace SkillRegistry

def get (reg : SkillRegistry) (id : String) : Option Skill := reg.skills.find? fun s => s.id = id

/-- Skills eligible for routing under the given mode. -/
def eligible (reg : SkillRegistry) : SkillMode → List Skill
  | .open => reg.skills
  | .constrained ids => ids.filterMap reg.get

/-- Compile a context for the given skill id. -/
def compileContext (reg : SkillRegistry) (id : String) : Except SkillError SkillContext :=
  match reg.get id with
  | none => .error (.notFound id)
  | some skill => .ok ⟨skill.id, skill.instructions, skill.documents, skill.tools, skill.maxIterations⟩

/-- A compiled context carries the id it was compiled for. -/
theorem compileContext_skillId {reg : SkillRegistry} {id : String} {ctx : SkillContext}
    (h : reg.compileContext id = .ok ctx) : ctx.skillId = id := by
  unfold compileContext get at h
  cases hs : reg.skills.find? (fun s => s.id = id) with
  | none => rw [hs] at h; cases h
  | some skill =>
    rw [hs] at h
    cases h
    simpa using List.find?_some hs

end SkillRegistry

/-- The discovery text listing the skills by id, empty when there is none. -/
def formatSkillSummaries (skills : List Skill) : String :=
  if skills.isEmpty then "" else
    let sorted := skills.insertionSort fun a b => a.id ≤ b.id
    let lines := "\n".intercalate (sorted.map fun s => "- " ++ s.id ++ ": " ++ s.description)
    "## Available Skills\n\n" ++ lines ++
      "\n\nYou may use a skill when the user's request matches one of the above."

/-- The skill configuration of an agent. `route` is the router that `routing_threshold` and the mode select. -/
structure SkillConfig where
  mode : SkillMode
  route : String → List Skill → Option SkillId

/-- The precomputed summaries, which are rebuilt whenever the registry is replaced. -/
def SkillConfig.summaries (cfg : SkillConfig) (reg : SkillRegistry) : String :=
  formatSkillSummaries (reg.eligible cfg.mode)

end AgentVerse
