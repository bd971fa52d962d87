import AgentVerse.World

/-!
# Tool registry

The registry of tools and the three ways it executes them: one tool (`execute`), a batch of concurrent calls
(`executeMany`), and a batch that is first checked call by call against an approval hook (`executeManyHitl`).

A batch is a join set: its calls are spawned as tasks, and their results are collected in completion order, up to
the first task that panics. The tasks that are left then are aborted wherever they are.
-/

namespace AgentVerse

open Effects

/-- Tool name used by the subagent tool. -/
def spawnSubagentToolName : String := "spawn_subagent"

inductive ToolBody where
  /-- A tool whose body is outside the agent. -/
  | plain
  /-- `SubAgentTool`. -/
  | subagent
  deriving DecidableEq

/-- A registered tool. `definition` is its schema after the strict-mode adapter, or the error of that adapter. -/
structure ErasedTool where
  name : String
  definition : Except String ToolDefinition
  summary : String
  body : ToolBody
  /-- `SubAgentTool::name` is a constant. -/
  subagent_name : body = .subagent → name = spawnSubagentToolName

theorem ToolBody.plain_ne {name : String} (h : ToolBody.plain = .subagent) : name = spawnSubagentToolName := by
  cases h

/-- The tools of a registry, which are kept by name. -/
structure ToolRegistry where
  tools : List ErasedTool
  nodup : (tools.map (·.name)).Nodup

namespace ToolRegistry

variable (reg : ToolRegistry)

def get (name : String) : Option ErasedTool := reg.tools.find? fun t => t.name = name

def hasTool (name : String) : Bool := (reg.get name).isSome

def toolNames : List String := reg.tools.map (·.name)

/-- The registry of the named tools, possibly without the subagent tool. -/
def copyNamedTools (names : List String) (excludeSubagentSpawner : Bool) : ToolRegistry where
  tools := reg.tools.filter fun t =>
    names.contains t.name && !(excludeSubagentSpawner && t.name = spawnSubagentToolName)
  nodup := reg.nodup.sublist (List.filter_sublist.map _)

def restrictedToNames (names : List String) : ToolRegistry := reg.copyNamedTools names false

def filterByNames (names : List String) : ToolRegistry := reg.copyNamedTools names true

/-- The definitions of the requested registered tools; unknown names are skipped. -/
def toolDefinitionsFor (names : List String) : Except String (List ToolDefinition) :=
  (names.filterMap reg.get).mapM (·.definition)

def toolSummariesFor (names : List String) : String :=
  let entries := (names.filterMap reg.get).map (·.summary)
  if entries.isEmpty then "none (reasoning only)" else "\n".intercalate (entries.insertionSort (· ≤ ·))

theorem get_mem {name : String} {t : ErasedTool} (h : reg.get name = some t) : t ∈ reg.tools ∧ t.name = name :=
  ⟨List.mem_of_find?_eq_some h, by simpa using List.find?_some h⟩

end ToolRegistry

/-- A program that cannot fail, in a context that can. -/
def infallible {ε α : Type} (p : M Empty α) : M ε α := p.mapErr Empty.elim

/-- How the body of a tool is run. -/
abbrev ToolRunner := ErasedTool → Dispatch → M Empty TaskEnd

/-- The `HitlHook` trait: the check of one call, and the tools that must be called. -/
structure HitlHook where
  checkTool : String → Json → M Empty (Option (ApprovalId × JsonText InterruptKind))
  requiredToolNames : List String

structure HitlInterruptResult where
  approvalId : ApprovalId
  kindJson : JsonText InterruptKind

namespace ToolRegistry

variable (reg : ToolRegistry) (runTool : ToolRunner) (depth : Nat)

/-- The task of one call. -/
def runTask (c : ToolCall) : M Empty TaskEnd :=
  match reg.get c.name with
  | some t => runTool t ⟨depth, some c.id, c.name, c.args⟩
  | none => .ret (.finished (.error (.notFound c.name)))

/-- Abort the tasks that are left: each of them may have come to any point. -/
def abortAll : List ToolCall → M Empty Unit
  | [] => .ret ()
  | c :: cs => do
    let _ ← (((reg.runTask runTool depth c).mapErr Empty.elim).cutOff .deadline id ()).attempt
    abortAll cs

/-- The `join_next` loop over tasks in completion order. -/
def joinAll : List ToolCall → M Empty (List ToolCallResult)
  | [] => .ret []
  | c :: cs => do
    match ← reg.runTask runTool depth c with
    | .finished result =>
      let rest ← joinAll cs
      return ⟨c.id, c.name, result⟩ :: rest
    | .panicked =>
      reg.abortAll runTool depth cs
      return []

/-- Execute calls concurrently. Results are in completion order. -/
def executeMany (calls : List ToolCall) : M Empty (List ToolCallResult) :=
  .ask (.joinSet depth calls) fun schedule => reg.joinAll runTool depth schedule.order

/-- Check calls one by one, up to the first one that is intercepted. -/
def checkAll (hook : HitlHook) : List ToolCall → M Empty (Option HitlInterruptResult)
  | [] => .ret none
  | c :: cs => do
    match ← hook.checkTool c.name c.args with
    | some (approvalId, kindJson) => return some ⟨approvalId, kindJson⟩
    | none => checkAll hook cs

/-- Execute calls unless one of them requires approval: all or nothing. -/
def executeManyHitl (hook : HitlHook) (calls : List ToolCall) :
    M Empty (Except HitlInterruptResult (List ToolCallResult)) := do
  match ← checkAll hook calls with
  | some interrupt => return .error interrupt
  | none => return .ok (← reg.executeMany runTool depth calls)

/-- Execute one tool by name. -/
def execute (name : String) (args : Json) : M Empty TaskEnd :=
  match reg.get name with
  | some t => runTool t ⟨depth, none, name, args⟩
  | none => .ret (.finished (.error (.notFound name)))

end ToolRegistry

end AgentVerse
