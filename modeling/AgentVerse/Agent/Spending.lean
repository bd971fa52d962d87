import AgentVerse.Agent.Decision
import AgentVerse.Effects.Budget

/-!
# What a decision may start

Whatever the environment answers, the execution of a decision starts each of the calls it is about at most once
before the agent asks its model: `resumeAct_spends`.
-/

namespace AgentVerse

open Effects

/-- A program starts tool bodies of the agent itself, before it asks its model, from a budget only. -/
abbrev SpendsTasks {ε α : Type} (p : M ε α) (budget : List Dispatch) : Prop :=
  p.Spends Request.ownTask? Request.callsModel budget

section Tasks

variable (executor : SubAgentExecutor) (reg : ToolRegistry)

theorem runTool_spends (t : ErasedTool) (c : ToolCall) :
    SpendsTasks (executor.runTool t (c.task 0)) [c.task 0] := by
  unfold SubAgentExecutor.runTool
  cases t.body with
  | plain => exact Or.inr ⟨[], spend_singleton (c.task 0), fun _ => trivial⟩
  | subagent =>
    refine Or.inr ⟨[], spend_singleton (c.task 0), fun _ => ?_⟩
    dsimp only
    cases executor.ext.parseSubAgentArgs (c.task 0).args with
    | error e => trivial
    | ok args =>
      refine Prog.Only.spends (Prog.Meets.mono (SubAgentExecutor.executeTool_meets (B := fun _ _ => True)
        admitsSubagent_inner (fun q r _ => ?_) executor args) (fun _ _ h => h) (fun _ h => h.2) fun _ _ => trivial) []
      cases q <;> first | trivial | exact fun _ _ _ _ _ h => by simp [ToolCall.task] at h

theorem runTask_spends (c : ToolCall) : SpendsTasks (reg.runTask executor.runTool 0 c) [c.task 0] := by
  unfold ToolRegistry.runTask
  cases reg.get c.name with
  | some t => exact runTool_spends executor t c
  | none => trivial

theorem abortAll_spends (calls : List ToolCall) :
    SpendsTasks (reg.abortAll executor.runTool 0 calls) (calls.map (·.task 0)) := by
  induction calls with
  | nil => trivial
  | cons c cs ih =>
    unfold ToolRegistry.abortAll
    exact Prog.Spends.bind ((runTask_spends executor reg c).mapErr.cutOff rfl).attempt fun _ => ih

theorem joinAll_spends (calls : List ToolCall) :
    SpendsTasks (reg.joinAll executor.runTool 0 calls) (calls.map (·.task 0)) := by
  induction calls with
  | nil => trivial
  | cons c cs ih =>
    unfold ToolRegistry.joinAll
    refine Prog.Spends.bind (runTask_spends executor reg c) fun te => ?_
    cases te with
    | finished result => exact ih.bind_free fun _ => trivial
    | panicked => exact (abortAll_spends executor reg cs).bind_free fun _ => trivial

theorem executeMany_spends (calls : List ToolCall) :
    SpendsTasks (reg.executeMany executor.runTool 0 calls) (calls.map (·.task 0)) :=
  Or.inr ⟨_, rfl, fun schedule =>
    (joinAll_spends executor reg schedule.order).mono (schedule.perm.map _).subperm⟩

end Tasks

/-- The calls that a decision on pending calls executes. -/
def decidedCalls : ApprovalDecision → List ToolCall → List ToolCall
  | .approved, pending => pending
  | .modified newArgs, first :: _ => [{ first with args := newArgs }]
  | _, _ => []

/-- The calls that are pending in a persisted state. -/
def InterruptedState.pendingCalls (state : InterruptedState) : List ToolCall :=
  match state.payload with
  | .ok (some (_, pending)) => pending
  | _ => []

namespace Agent

variable (agent : Agent)

theorem observation_spends (names : List String) (decision : ApprovalDecision) (pending : List ToolCall) :
    SpendsTasks (agent.observation names decision pending) ((decidedCalls decision pending).map (·.task 0)) := by
  have hrun : ∀ calls, SpendsTasks (agent.executeDirectly names calls) (calls.map (·.task 0)) := fun calls =>
    (executeMany_spends agent.executor _ calls).mapErr.bind_free fun _ => trivial
  unfold observation
  cases decision with
  | approved => dsimp only; split <;> first | trivial | exact hrun _
  | modified newArgs => cases pending <;> first | trivial | exact hrun _
  | rejected reason => dsimp only; split <;> trivial

theorem observation_quiet (names : List String) (decision : ApprovalDecision) (pending : List ToolCall) :
    (agent.observation names decision pending).Only fun q => q.callsModel = false := by
  have hrun : ∀ calls, (agent.executeDirectly names calls).Only fun q => q.callsModel = false := fun calls =>
    Prog.Only.bind (infallible_any (executeMany_meets (P := fun _ => True)
      (fun t d _ => runTool_quiet agent.executor t d) rfl rfl fun _ _ _ => trivial)) fun _ => trivial
  unfold observation
  cases decision with
  | approved => dsimp only; split <;> first | trivial | exact hrun _
  | modified newArgs => dsimp only; split <;> first | trivial | exact hrun _
  | rejected reason => dsimp only; split <;> trivial

/-- A decision starts each of its calls at most once. -/
theorem resumeAct_spends (sid : SessionId) {resolved : Resolved}
    (hpay : resolved.state.payload = .ok resolved.payload) (decision : ApprovalDecision) :
    SpendsTasks (agent.resumeAct sid resolved decision)
      ((decidedCalls decision resolved.state.pendingCalls).map (·.task 0)) := by
  obtain ⟨state, payload⟩ := resolved
  have hact : ∀ history pending, payload = some (history, pending) →
      SpendsTasks (agent.resumeToolCallOrCheckpoint sid state decision history pending)
        ((decidedCalls decision state.pendingCalls).map (·.task 0)) := by
    rintro history pending rfl
    have hpending : state.pendingCalls = pending := by rw [InterruptedState.pendingCalls, hpay]
    rw [hpending]
    exact (agent.observation_spends state.activeToolNames decision pending).bind_free fun text =>
      (agent.continueRun_opens sid state _).spends []
  unfold resumeAct
  cases state with
  | pendingPhaseGate id transitionJson =>
    refine Prog.Only.spends (Prog.Only.mono (agent.resumePhaseGate_only (s := sid) transitionJson decision)
      fun q hq => ?_) _
    rw [Request.ownTask?, hq.dispatch]
    rfl
  | pendingToolCall | pendingCheckpoint =>
    cases payload with
    | some x => exact hact _ _ rfl
    | none => trivial

end Agent

end AgentVerse
