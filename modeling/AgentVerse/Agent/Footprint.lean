import AgentVerse.Agent.Invoke
import AgentVerse.Session.Frame

/-!
# Footprints of strategies

What a strategy run may ask of the world. `Request.Avoids W` holds of the requests of strategies that start no tool
in `W`; the lemmas of this file say under which model replies a strategy run makes such requests only. A run behind
the approval hook needs no assumption on the replies to the strategy itself: the hook stops a batch before it is
dispatched (`runHitl_avoids`).
-/

namespace AgentVerse

open Effects

namespace Request

/-- The requests of strategies and of the tools they run. -/
def OfStrategy : Request → Prop
  | .now | .generate .. | .joinSet .. | .executeRaw _ | .enterSubagent _ | .deadline | .newUuid | .submit .. => True
  | _ => False

/-- The tool body that a request starts. -/
def dispatch? : Request → Option Dispatch
  | .executeRaw d => some d
  | .enterSubagent d => some d
  | _ => none

/-- A request of a strategy that starts no tool body in `W`. -/
def Avoids (W : Dispatch → Prop) (q : Request) : Prop := q.OfStrategy ∧ ∀ d, q.dispatch? = some d → ¬ W d

theorem OfStrategy.keeps {β : Type} {π : SessionRow → β} {sid : SessionId} {q : Request} (hq : q.OfStrategy) :
    q.Keeps π sid := by
  cases q with
  | sql st => exact hq.elim
  | _ => trivial

end Request

/-! ### Assumptions on model replies -/

/-- The tool body that a call starts. -/
def ToolCall.task (depth : Nat) (c : ToolCall) : Dispatch := ⟨depth, some c.id, c.name, c.args⟩

/-- Model replies at a depth call no tool in `W`. -/
def CallsAvoid (W : Dispatch → Prop) (depth : Nat) : (q : Request) → Reply q → Prop
  | .generate k _, r => k = depth → ∀ resp : GenerateResponse, r = .ok resp → ∀ c ∈ resp.calls, ¬ W (c.task depth)
  | _, _ => True

theorem callsAvoid_false (depth : Nat) (q : Request) (r : Reply q) : CallsAvoid (fun _ => False) depth q r := by
  cases q <;> try trivial
  exact fun _ _ _ _ _ h => h

/-- A model reply, read as a plan, uses no tool in `W`. -/
def PlansAvoid (ext : Externals) (W : Dispatch → Prop) (depth : Nat) (resp : GenerateResponse) : Prop :=
  ∀ plan, ext.parsePlan resp.asText = .ok plan → ∀ step ∈ plan.steps, ∀ t, step.tool = some t →
    ¬ W ⟨depth, none, t, step.args.getD .null⟩

/-- No result is ruled out. -/
abbrev AnyResult {ε α : Type} : Except ε α → Prop := fun _ => True

variable {B : (q : Request) → Reply q → Prop}

/-- A program of which nothing matters. -/
theorem meets_any {ε α : Type} (p : M ε α) : p.Meets B (fun _ => True) AnyResult :=
  Prog.Meets.mono (Prog.only_true p) (fun _ _ _ => trivial) (fun _ h => h) fun _ h => h

/-! ### Batches -/

section Batch

variable {A : Request → Prop} {reg : ToolRegistry} {runTool : ToolRunner} {depth : Nat} {P : Dispatch → Prop}

theorem infallible_meets {ε α : Type} {p : M Empty α} {N : α → Prop}
    (hp : p.Meets B A fun r => ∀ a, r = .ok a → N a) :
    (infallible p : M ε α).Meets B A fun r => ∃ a, r = .ok a ∧ N a :=
  Prog.Meets.mapErr hp fun r hr => by
    cases r with
    | ok a => exact ⟨a, rfl, hr a rfl⟩
    | error e => exact e.elim

/-- A call of a tool that is not registered starts nothing. -/
theorem runTask_meets (hrun : ∀ t d, P d → (runTool t d).Meets B A AnyResult) {c : ToolCall}
    (hc : reg.hasTool c.name = true → P (c.task depth)) : (reg.runTask runTool depth c).Meets B A AnyResult := by
  unfold ToolRegistry.runTask
  cases ht : reg.get c.name with
  | some t => exact hrun t _ (hc (by rw [ToolRegistry.hasTool, ht]; rfl))
  | none => trivial

theorem abortAll_meets (hrun : ∀ t d, P d → (runTool t d).Meets B A AnyResult) (hdead : A .deadline)
    {calls : List ToolCall} (hcalls : ∀ c ∈ calls, reg.hasTool c.name = true → P (c.task depth)) :
    (reg.abortAll runTool depth calls).Meets B A AnyResult := by
  induction calls with
  | nil => trivial
  | cons c cs ih =>
    unfold ToolRegistry.abortAll
    have hc : (reg.runTask runTool depth c).Meets B A AnyResult := runTask_meets hrun (hcalls c (by simp))
    refine Prog.Meets.bind (P := AnyResult) ?_ (fun _ _ => ih fun x hx => hcalls x (by simp [hx])) (fun _ _ => trivial)
    exact Prog.Meets.attempt (Prog.Meets.cutOff (Prog.Meets.mapErr hc (N := AnyResult) fun _ _ => trivial)
      hdead trivial) fun _ _ => trivial

theorem joinAll_meets (hrun : ∀ t d, P d → (runTool t d).Meets B A AnyResult) (hdead : A .deadline)
    {calls : List ToolCall} (hcalls : ∀ c ∈ calls, reg.hasTool c.name = true → P (c.task depth)) :
    (reg.joinAll runTool depth calls).Meets B A AnyResult := by
  induction calls with
  | nil => trivial
  | cons c cs ih =>
    unfold ToolRegistry.joinAll
    have hcs : ∀ x ∈ cs, reg.hasTool x.name = true → P (x.task depth) := fun x hx => hcalls x (by simp [hx])
    refine Prog.Meets.bind (runTask_meets hrun (hcalls c (by simp))) (fun r _ => ?_) (fun _ _ => trivial)
    cases r with
    | finished result => exact Prog.Meets.bind (ih hcs) (fun _ _ => trivial) (fun _ _ => trivial)
    | panicked => exact Prog.Meets.bind (abortAll_meets hrun hdead hcs) (fun _ _ => trivial) (fun _ _ => trivial)

theorem executeMany_meets (hrun : ∀ t d, P d → (runTool t d).Meets B A AnyResult) (hdead : A .deadline)
    {calls : List ToolCall} (hjoin : A (.joinSet depth calls))
    (hcalls : ∀ c ∈ calls, reg.hasTool c.name = true → P (c.task depth)) :
    (reg.executeMany runTool depth calls).Meets B A AnyResult :=
  ⟨hjoin, fun schedule _ => joinAll_meets hrun hdead fun c hc => hcalls c (schedule.perm.mem_iff.mp hc)⟩

end Batch

/-! ### Model calls -/

section Models

variable {A : Request → Prop}

theorem invokeRunner_meets {depth : Nat} (hgen : ∀ req, A (.generate depth req)) (messages : List Message)
    (tools : Option (List ToolDefinition)) :
    (invokeRunner depth messages tools).Meets B A
      fun r => ∀ resp, r = .ok resp → ∃ req, B (.generate depth req) (.ok resp) := by
  refine ⟨hgen _, fun r hr => ?_⟩
  cases r with
  | ok resp =>
    intro resp' h
    cases h
    exact ⟨_, hr⟩
  | error e =>
    intro resp' h
    cases h

theorem checkOutputGuardrail_meets (ext : Externals) (text : String) :
    (checkOutputGuardrail ext text).Meets B A AnyResult := by
  unfold checkOutputGuardrail
  cases ext.checkOutput text <;> trivial

theorem CycleSkeleton.invoke_meets (sk : CycleSkeleton) (hgen : ∀ req, A (.generate sk.depth req))
    (messages : List Message) (names : List String) :
    (sk.invoke messages names).Meets B A
      fun r => ∀ resp, r = .ok resp → ∃ req, B (.generate sk.depth req) (.ok resp) := by
  unfold CycleSkeleton.invoke
  cases sk.tools.toolDefinitionsFor names with
  | error e => intro resp h; cases h
  | ok definitions =>
    refine Prog.Meets.bind (invokeRunner_meets hgen ..) (fun resp hresp => ?_) (fun e _ resp h => by cases h)
    refine Prog.Meets.bind (checkOutputGuardrail_meets ..) (fun _ _ => ?_) (fun e _ resp h => by cases h)
    intro resp' h
    cases h
    exact hresp resp rfl

theorem actionFromResponse_calls {response : GenerateResponse} {calls : List ToolCall}
    (h : actionFromResponse response = .toolCalls calls) : calls = response.calls := by
  unfold actionFromResponse at h
  split at h
  · cases h; rfl
  · split at h <;> cases h

end Models

/-! ### Subagents -/

/-- The requests that a subagent makes as long as it starts no tool in `W`. -/
structure AdmitsSubagent (A : Request → Prop) (W : Dispatch → Prop) : Prop where
  now : A .now
  deadline : A .deadline
  generate : ∀ req, A (.generate 1 req)
  joinSet : ∀ calls, A (.joinSet 1 calls)
  executeRaw : ∀ d, ¬ W d → A (.executeRaw d)

section Subagent

variable {A : Request → Prop} {W : Dispatch → Prop}

theorem avoids_of_none {q : Request} (h : q.OfStrategy) (hd : q.dispatch? = none) : q.Avoids W :=
  ⟨h, fun d hq => by rw [hd] at hq; cases hq⟩

theorem admitsSubagent_avoids : AdmitsSubagent (Request.Avoids W) W where
  now := avoids_of_none trivial rfl
  deadline := avoids_of_none trivial rfl
  generate _ := avoids_of_none trivial rfl
  joinSet _ := avoids_of_none trivial rfl
  executeRaw _ hd := ⟨trivial, fun _ h => by cases h; exact hd⟩

/-- The batch of a reply that calls no registered tool in `W`. -/
theorem batch_meets {sk : CycleSkeleton} {resp : GenerateResponse} {calls : List ToolCall}
    (hrun : ∀ t d, ¬ W d → (sk.runTool t d).Meets B A AnyResult) (hdead : A .deadline)
    (hjoin : ∀ calls, A (.joinSet sk.depth calls))
    (hresp : ∀ c ∈ resp.calls, sk.tools.hasTool c.name = true → ¬ W (c.task sk.depth))
    (hcalls : actionFromResponse resp = .toolCalls calls) :
    (sk.tools.executeMany sk.runTool sk.depth calls).Meets B A AnyResult := by
  rw [actionFromResponse_calls hcalls]
  exact executeMany_meets (P := fun d => ¬ W d) hrun hdead (hjoin _) hresp

variable (hA : AdmitsSubagent A W)

include hA in
theorem runPlainTool_meets {t : ErasedTool} {d : Dispatch} (hd : ¬ W d) :
    (runPlainTool t d).Meets B A AnyResult :=
  ⟨hA.executeRaw d hd, fun _ _ => trivial⟩

include hA in
theorem runCycle_meets {sk : CycleSkeleton} (hdepth : sk.depth = 1) (hplain : sk.runTool = runPlainTool)
    (hB : ∀ req resp, B (.generate 1 req) (.ok resp) → ∀ c ∈ resp.calls, sk.tools.hasTool c.name = true → ¬ W (c.task 1))
    (budget : Budget) (remaining : Nat) (buf : List Message) (usage : UsageStats) (steps : Nat) :
    (runCycle sk budget remaining buf usage steps).Meets B A AnyResult := by
  induction remaining generalizing buf usage steps with
  | zero =>
    unfold runCycle
    dsimp only
    split <;> trivial
  | succ remaining ih =>
    unfold runCycle
    dsimp only
    split
    · trivial
    · refine Prog.Meets.bind (Prog.Meets.mapErr (sk.invoke_meets (hdepth ▸ hA.generate) buf sk.tools.toolNames)
        (N := fun r => ∀ resp, r = .ok resp → ∃ req, B (.generate sk.depth req) (.ok resp)) ?_)
        (fun resp hresp => ?_) (fun _ _ => trivial)
      · intro r hr resp h
        cases r with
        | ok a => cases h; exact hr _ rfl
        | error e => cases h
      · obtain ⟨req, hreq⟩ := hresp resp rfl
        have havoid : ∀ c ∈ resp.calls, sk.tools.hasTool c.name = true → ¬ W (c.task sk.depth) := by
          rw [hdepth] at hreq ⊢
          exact hB req resp hreq
        cases ha : actionFromResponse resp with
        | toolCalls calls =>
          refine Prog.Meets.bind (infallible_meets (N := fun _ => True) (Prog.Meets.mono
            (batch_meets (fun t d hd => hplain ▸ runPlainTool_meets hA hd) hA.deadline (hdepth ▸ hA.joinSet)
              havoid ha)
            (fun _ _ h => h) (fun _ h => h) fun _ _ _ _ => trivial)) (fun _ _ => ih ..) (fun _ _ => trivial)
        | done answer => trivial
        | error message => trivial

/-- Replies to a subagent call none of its tools that is in `W`. -/
def SubAgentExecutor.RepliesAvoid (executor : SubAgentExecutor) (B : (q : Request) → Reply q → Prop)
    (W : Dispatch → Prop) (allowedTools : List String) : Prop :=
  ∀ req resp, B (.generate 1 req) (.ok resp) → ∀ c ∈ resp.calls,
    (executor.parentTools.filterByNames allowedTools).hasTool c.name = true → ¬ W (c.task 1)

theorem repliesAvoid_of_calls {executor : SubAgentExecutor} (hB : ∀ q r, B q r → CallsAvoid W 1 q r)
    (allowedTools : List String) : executor.RepliesAvoid B W allowedTools :=
  fun req resp hreq c hc _ => hB (.generate 1 req) _ hreq rfl resp rfl c hc

include hA in
theorem SubAgentExecutor.run_meets (executor : SubAgentExecutor) (spec : SubAgentSpec) {ctx : SubAgentContext}
    (hdepth : ctx.depth = 0) (hB : executor.RepliesAvoid B W spec.allowedTools) :
    (executor.run spec ctx).Meets B A AnyResult := by
  unfold SubAgentExecutor.run
  split
  · trivial
  · split
    · trivial
    · refine Prog.Meets.bind (P := AnyResult) ⟨hA.now, fun _ _ => trivial⟩
        (fun start _ => ?_) (fun _ _ => trivial)
      refine Prog.Meets.bind (P := AnyResult) ?_ (fun r _ => ?_) (fun _ _ => trivial)
      · refine Prog.Meets.attempt (P := AnyResult) (Prog.Meets.cutOff (P := AnyResult) ?_
          hA.deadline trivial) fun _ _ => trivial
        refine Prog.Meets.mapErr (P := AnyResult)
          (runCycle_meets hA (by simp [hdepth]) rfl ?_ _ _ _ _ _) fun _ _ => trivial
        exact hB
      · match r with
        | .ok result => trivial
        | .error (some e) => trivial
        | .error none => exact ⟨hA.now, fun _ _ => trivial⟩

include hA in
/-- A subagent always ends: whatever goes wrong in it is the error of its tool. -/
theorem SubAgentExecutor.executeTool_scoped (executor : SubAgentExecutor) (args : SubAgentArgs)
    (hB : executor.RepliesAvoid B W args.allowedTools) :
    (executor.executeTool args).Meets B A fun r => ∃ result, r = .ok (.finished result) := by
  unfold SubAgentExecutor.executeTool
  refine Prog.Meets.bind (Prog.Meets.attempt (N := AnyResult)
    (SubAgentExecutor.run_meets hA executor _ rfl hB) fun _ _ => trivial) (fun r _ => ?_) (fun e _ => e.elim)
  cases r with
  | ok result => exact ⟨_, rfl⟩
  | error e => exact ⟨_, rfl⟩

include hA in
theorem SubAgentExecutor.executeTool_meets (hB : ∀ q r, B q r → CallsAvoid W 1 q r) (executor : SubAgentExecutor)
    (args : SubAgentArgs) : (executor.executeTool args).Meets B A fun r => ∃ result, r = .ok (.finished result) :=
  SubAgentExecutor.executeTool_scoped hA executor args (repliesAvoid_of_calls hB _)

/-- Running a tool outside `W` starts no tool in `W`, when the replies to a subagent call none that it has. -/
theorem SubAgentExecutor.runTool_scoped (executor : SubAgentExecutor) (t : ErasedTool) (d : Dispatch) (hd : ¬ W d)
    (hB : B (.enterSubagent d) () → ∀ args, executor.ext.parseSubAgentArgs d.args = .ok args →
      executor.RepliesAvoid B W args.allowedTools) :
    (executor.runTool t d).Meets B (Request.Avoids W) AnyResult := by
  unfold SubAgentExecutor.runTool
  cases t.body with
  | plain => exact runPlainTool_meets admitsSubagent_avoids hd
  | subagent =>
    refine ⟨⟨trivial, fun d' h => by cases h; exact hd⟩, fun _ henter => ?_⟩
    dsimp only
    cases hargs : executor.ext.parseSubAgentArgs d.args with
    | error e => trivial
    | ok args =>
      exact Prog.Meets.mono (SubAgentExecutor.executeTool_scoped admitsSubagent_avoids executor args
        (hB henter args hargs)) (fun _ _ h => h) (fun _ h => h) fun _ _ => trivial

theorem SubAgentExecutor.runTool_meets (hB : ∀ q r, B q r → CallsAvoid W 1 q r) (executor : SubAgentExecutor)
    (t : ErasedTool) (d : Dispatch) (hd : ¬ W d) : (executor.runTool t d).Meets B (Request.Avoids W) AnyResult :=
  SubAgentExecutor.runTool_scoped executor t d hd fun _ _ _ => repliesAvoid_of_calls hB _

end Subagent

end AgentVerse
