import AgentVerse.Agent.Gates

/-!
# The blocklist

The hook stands in the loop of ReAct. A stateless invocation, a subagent and the plans of a fixed strategy run without
it, so they execute blocklisted tools that no human saw (`blocklist_unhooked`). An invocation or a resume executes them
in no other way than under an approval of their own, whatever the model replies and whatever strategy a router selects,
apart from the rest of an approved batch (`blocklist_kept`).
-/

namespace AgentVerse

open Effects

namespace Agent

variable (agent : Agent)

/-! ### The rule -/

/-- The tools of the blocklist that a call executes with its strategy run, besides those that are exempt. -/
def listedTasks (policy : HitlPolicy) (exempt : CallEntry → Dispatch → Bool) (e : CallEntry) : List Dispatch :=
  match e.call with
  | .invoke .. | .invokeStateless _ | .resume .. =>
    (e.asked.filterMap fun x => x.1.dispatch?).filter fun d =>
      decide (d.tool ∈ policy.globalToolBlocklist) && !exempt e d
  | _ => []

/-- A tool that is started without the hook: by a stateless invocation, in a subagent, or by the plan of a fixed
strategy. -/
def unhooked (e : CallEntry) (d : Dispatch) : Bool :=
  match e.call with
  | .invokeStateless _ => true
  | _ => decide (d.depth ≠ 0) || agent.fixedStep d

/-- The hook was consulted for every blocklisted tool that a strategy run executes, and a human approved it, each
execution under its own approval. What is exempt, or in `rest`, is left out. -/
def BlocklistKept (env : Env) (policy : HitlPolicy) (exempt : CallEntry → Dispatch → Bool)
    (rest : CallEntry → List Dispatch) (H : CallHistory) : Prop :=
  ApprovedEach (Allows env Consulted) (listedTasks policy exempt) rest H

variable {agent} {policy : HitlPolicy}

/-- The tools that are not exempt are intercepted. -/
theorem hookedBy_listed (skill : Option SkillId) : agent.HookedBy policy skill fun d =>
    decide (d.depth = 0) && (decide (d.tool ∈ policy.globalToolBlocklist) && !agent.fixedStep d) := by
  intro d hd
  simp only [Bool.and_eq_true, decide_eq_true_iff, Bool.not_eq_true'] at hd
  exact ⟨hd.1, hd.2.2, policy.intercepts_of_requires (policy.requiresToolApproval_of_blocklist hd.2.1 _)⟩

/-- The tasks of a turn that are not exempt are its own. -/
theorem listedTasks_of_turn {e : CallEntry} (hturn : e.call.TakesTurn sid) :
    listedTasks policy agent.unhooked e = (e.asked.filterMap ownTask).filter fun d =>
      decide (d.depth = 0) && (decide (d.tool ∈ policy.globalToolBlocklist) && !agent.fixedStep d) := by
  have hsame : (e.asked.filterMap fun x => x.1.dispatch?).filter (fun d =>
      decide (d.tool ∈ policy.globalToolBlocklist) && !(decide (d.depth ≠ 0) || agent.fixedStep d)) =
        (e.asked.filterMap ownTask).filter fun d =>
          decide (d.depth = 0) && (decide (d.tool ∈ policy.globalToolBlocklist) && !agent.fixedStep d) := by
    rw [List.filter_filterMap, List.filter_filterMap]
    refine List.filterMap_congr fun x _ => ?_
    rw [ownTask, Request.ownTask?, Option.filter_filter]
    refine congrArg (Option.filter · x.1.dispatch?) (funext fun d => ?_)
    by_cases hdepth : d.depth = 0 <;> simp [hdepth]
  unfold listedTasks unhooked
  cases hcall : e.call with
  | invoke | resume => exact hsame
  | _ => rw [hcall] at hturn; exact hturn.elim

/-- In every history, a blocklisted tool is executed under an approval of its own, without the hook, or with the rest of
a batch. -/
theorem blocklist_kept (env : Env) (agent : Agent) (skills : SkillRegistry) (clock : Nat) (calls : List ApiCall)
    (policy : HitlPolicy) (hpolicy : agent.hitl = some policy) :
    BlocklistKept env policy agent.unhooked (agent.restOfBatch policy)
      (agent.serve env (.start (World.fresh skills clock)) calls) := by
  refine approvedEach_of_acts (agent.acts_once env skills clock calls) fun pre e post hsplit => ?_
  obtain ⟨before, call, rfl, rfl⟩ := History.split_calls rfl pre e post hsplit
  have hprov := agent.provenance env skills clock before
  cases call with
  | invoke u sid input =>
    have hturn : (ApiCall.invoke u sid input).TakesTurn sid := rfl
    rw [listedTasks_of_turn hturn]
    exact stopped_tasks hprov hpolicy hturn (hookedBy_listed _)
  | resume u sid id decision =>
    have hturn : (ApiCall.resume u sid id decision).TakesTurn sid := rfl
    rw [listedTasks_of_turn hturn]
    exact stopped_tasks hprov hpolicy hturn (hookedBy_listed _)
  | invokeStateless input => exact .inl (List.filter_eq_nil_iff.mpr fun d _ => by simp [unhooked, History.entry])
  | _ => exact .inl rfl

/-- A file is deleted after its approval. -/
theorem blocklist_kept_delete : BlocklistKept (.asksFor ["file_delete"]) .new Agent.plain.unhooked
    (Agent.plain.restOfBatch .new) (Agent.plain.serve (.asksFor ["file_delete"]) (.start (World.fresh ⟨[]⟩ 0))
      [.createSession "u", .invoke "u" 0 "", .resume "u" 0 1 .approved]) :=
  blocklist_kept _ .plain ⟨[]⟩ 0 _ .new rfl

/-! ### Runs without the hook -/

/-- A blocklisted tool that a call executes without any resume so far was not approved. -/
theorem not_blocklistKept {env : Env} {w : World} (calls : List ApiCall) (call : ApiCall)
    (hresumes : ∀ e ∈ (agent.serve env (.start w) (calls ++ [call])).past, e.call.approval? = none)
    (hran : listedTasks policy (fun _ _ => false) (agent.entry env (agent.serve env (.start w) calls).state call) ≠ []) :
    ¬ BlocklistKept env policy (fun _ _ => false) (fun _ => []) (agent.serve env (.start w) (calls ++ [call])) := by
  intro h
  obtain ⟨d, hd⟩ := List.exists_mem_of_ne_nil _ hran
  have hpast : (agent.serve env (.start w) (calls ++ [call])).past = (agent.serve env (.start w) calls).past ++
      [agent.entry env (agent.serve env (.start w) calls).state call] := by
    rw [Agent.serve, History.calls_concat]
    rfl
  obtain ⟨a, -, -, e, he, args, userId, decision, -, hcall, -⟩ := h.approved hpast hd
  have hnone := hresumes e (hpast ▸ he)
  rw [hcall] at hnone
  cases hnone

/-- The text of a plan with one step, and the plan. -/
def commandPlanText : String :=
  "\x7b\"steps\":[\x7b\"id\":1,\"description\":\"\",\"tool\":\"exec_command\"\x7d]\x7d"

def commandPlan : Plan := ⟨"", [⟨1, "", some "exec_command", none, []⟩]⟩

/-- An agent that plans. -/
def planning : Agent :=
  { plain with
    kind := .plan
    ext := { Externals.plain with
      parsePlan := fun text => if text = commandPlanText then .ok commandPlan else .error "" } }

/-- The arguments of a subagent with one tool. -/
def commandSpawn : Json :=
  .object (.cons "name" (.string "s") (.cons "objective" (.string "")
    (.cons "allowed_tools" (.array (.cons (.string "exec_command") .nil)) .nil)))

/-- An agent that may spawn subagents. -/
def spawning : Agent :=
  { plain with
    tools := ⟨[⟨spawnSubagentToolName, .ok ⟨spawnSubagentToolName, "", .null⟩, "", .subagent, fun _ => rfl⟩,
      .plain "exec_command"], by decide⟩
    ext := { Externals.plain with
      parseSubAgentArgs := fun args =>
        if args = commandSpawn then .ok ⟨"", none, none, ["exec_command"], none, none, []⟩ else .error "" } }

/-- A model that spawns the subagent, and asks for its tool there. -/
def spawns : Env :=
  .steady fun depth req =>
    if req.messages.length ≤ 1 then
      if depth = 0 then ⟨[.toolUse "s" spawnSubagentToolName commandSpawn], .zero⟩ else .ofCalls ["exec_command"]
    else .ofText "done"

/-- A stateless invocation, the plan of a fixed strategy and a subagent execute a blocklisted tool that no human was
asked about. -/
theorem blocklist_unhooked :
    ¬ BlocklistKept (.asksFor ["exec_command"]) .new (fun _ _ => false) (fun _ => [])
      (plain.serve (.asksFor ["exec_command"]) (.start (World.fresh ⟨[]⟩ 0)) [.invokeStateless ""]) ∧
    ¬ BlocklistKept (.steady fun _ _ => .ofText commandPlanText) .new (fun _ _ => false) (fun _ => [])
      (planning.serve (.steady fun _ _ => .ofText commandPlanText) (.start (World.fresh ⟨[]⟩ 0))
        [.createSession "u", .invoke "u" 0 ""]) ∧
    ¬ BlocklistKept spawns .new (fun _ _ => false) (fun _ => [])
      (spawning.serve spawns (.start (World.fresh ⟨[]⟩ 0)) [.createSession "u", .invoke "u" 0 ""]) :=
  ⟨not_blocklistKept [] (.invokeStateless "") (by decide +kernel) (by decide +kernel),
    not_blocklistKept [.createSession "u"] (.invoke "u" 0 "") (by decide +kernel) (by decide +kernel),
    not_blocklistKept [.createSession "u"] (.invoke "u" 0 "") (by decide +kernel) (by decide +kernel)⟩

end Agent

end AgentVerse
