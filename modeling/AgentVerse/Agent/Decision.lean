import AgentVerse.Agent.Resumption

/-!
# How a decision is executed

A decision on a suspended batch executes calls before the model is asked again. `executed` reads the tool bodies of
this stage off the trace of a resume; the lemmas of this file say which ones they are and what results they leave,
for every completion order of the batch.
-/

namespace AgentVerse

open Effects

/-! ### Reading a trace -/

/-- Whether an agent, and not a subagent, asks its model. -/
def Request.callsModel : Request → Bool
  | .generate depth _ => depth = 0
  | _ => false

/-- The tool body that an agent itself starts. -/
def Request.ownTask? (q : Request) : Option Dispatch := q.dispatch?.filter fun d => d.depth = 0

def asksModel (x : Event) : Bool := x.1.callsModel

def ownTask (x : Event) : Option Dispatch := x.1.ownTask?

/-- The part of a trace before an agent asks its model. -/
def beforeModel (t : List Event) : List Event := t.takeWhile fun x => !asksModel x

/-- The tool bodies that an agent itself starts before it asks its model. -/
def executed (t : List Event) : List Dispatch := (beforeModel t).filterMap ownTask

/-- A task of an agent that panicked. -/
def ownPanic : Event → Bool
  | ⟨.executeRaw d, .panicked⟩ => d.depth = 0
  | _ => false

/-- In a stretch of a trace no model is asked, `tasks` are started, and a task panicked or none did. -/
structure Stretch (t : List Event) (tasks : List Dispatch) (panicked : Bool) : Prop where
  quiet : ∀ x ∈ t, asksModel x = false
  tasks : t.filterMap ownTask = tasks
  panics : t.any ownPanic = panicked

theorem Stretch.nil : Stretch [] [] false := ⟨by simp, rfl, rfl⟩

theorem Stretch.append {t t' : List Event} {ds ds' : List Dispatch} {b b' : Bool} (h : Stretch t ds b)
    (h' : Stretch t' ds' b') : Stretch (t ++ t') (ds ++ ds') (b || b') where
  quiet x hx := (List.mem_append.mp hx).elim (h.quiet x) (h'.quiet x)
  tasks := by rw [List.filterMap_append, h.tasks, h'.tasks]
  panics := by rw [List.any_append, h.panics, h'.panics]

/-- Requests that are not the agent's own are a stretch without tasks. -/
theorem stretch_of_inner {t : List Event} (hq : ∀ x ∈ t, asksModel x = false ∧ ownTask x = none) :
    Stretch t [] false where
  quiet x hx := (hq x hx).1
  tasks := List.filterMap_eq_nil_iff.mpr fun x hx => (hq x hx).2
  panics := by
    refine List.any_eq_false.mpr fun x hx => ?_
    obtain ⟨q, r⟩ := x
    cases q with
    | executeRaw d =>
      have hd : d.depth ≠ 0 := by simpa [ownTask, Request.ownTask?, Request.dispatch?] using (hq _ hx).2
      cases r <;> simp [ownPanic, hd]
    | _ => simp [ownPanic]

theorem beforeModel_append {t t' : List Event} (h : ∀ x ∈ t, asksModel x = false)
    (h' : t' = [] ∨ ∃ x t'', t' = x :: t'' ∧ asksModel x = true) : beforeModel (t ++ t') = t := by
  rw [beforeModel, List.takeWhile_append_of_pos fun x hx => by simp [h x hx]]
  rcases h' with rfl | ⟨x, t'', rfl, hx⟩
  · simp
  · simp [hx]

theorem executed_eq_nil_of_idle {t : List Event} (h : ∀ x ∈ t, x.1.dispatch? = none) : executed t = [] := by
  refine List.filterMap_eq_nil_iff.mpr fun x hx => ?_
  rw [ownTask, Request.ownTask?, h x (List.takeWhile_subset _ hx)]
  rfl

/-! ### Tasks and batches -/

section Tasks

variable (executor : SubAgentExecutor) (env : Env)

/-- The requests of a subagent are not its parent's own. -/
theorem admitsSubagent_inner :
    AdmitsSubagent (fun q => q.callsModel = false ∧ q.ownTask? = none) (fun d => d.depth = 0) where
  now := ⟨rfl, rfl⟩
  deadline := ⟨rfl, rfl⟩
  generate _ := ⟨rfl, rfl⟩
  joinSet _ := ⟨rfl, rfl⟩
  executeRaw d hd := ⟨rfl, by simp [Request.ownTask?, Request.dispatch?, hd]⟩

theorem stretch_executeRaw (c : ToolCall) (r : TaskEnd) :
    Stretch [⟨.executeRaw (c.task 0), r⟩] [c.task 0] (r = .panicked) :=
  ⟨by simp [asksModel, Request.callsModel], rfl, by cases r <;> rfl⟩

theorem stretch_enterSubagent (c : ToolCall) (r : Unit) :
    Stretch [⟨.enterSubagent (c.task 0), r⟩] [c.task 0] false :=
  ⟨by simp [asksModel, Request.callsModel], rfl, rfl⟩

/-- A task starts the body of its tool, and panics exactly when this body does. -/
theorem runTool_stretch (t : ErasedTool) (c : ToolCall) (w : World) :
    ∃ te w' tr, (executor.runTool t (c.task 0)).run (handle env) ⟨w, []⟩ = (.ok te, ⟨w', tr⟩) ∧
      Stretch tr [c.task 0] (te = .panicked) := by
  unfold SubAgentExecutor.runTool
  cases t.body with
  | plain => exact ⟨_, _, _, rfl, stretch_executeRaw c _⟩
  | subagent =>
    simp only [Prog.run_ask, Config.after]
    cases executor.ext.parseSubAgentArgs (c.task 0).args with
    | error e => exact ⟨_, _, _, rfl, by simpa using stretch_enterSubagent c _⟩
    | ok args =>
      have hmeets := SubAgentExecutor.executeTool_meets (B := fun _ _ => True) admitsSubagent_inner
        (fun q r _ => by cases q <;> first | trivial | exact fun hk _ _ _ _ h => by simp [ToolCall.task] at h)
        executor args
      obtain ⟨hinner, result, hres⟩ := Prog.Meets.run (handle env) hmeets
        (handle env (.enterSubagent (c.task 0)) w).2 fun _ _ => trivial
      rw [Prog.run_trace, hres]
      refine ⟨_, _, _, rfl, ?_⟩
      simpa [Prog.asked] using (stretch_enterSubagent c _).append (stretch_of_inner hinner)

variable (reg : ToolRegistry)

/-- The calls of registered tools. -/
def ToolRegistry.registered (calls : List ToolCall) : List ToolCall := calls.filter fun c => reg.hasTool c.name

theorem runTask_stretch (c : ToolCall) (w : World) :
    ∃ te w' tr, (reg.runTask executor.runTool 0 c).run (handle env) ⟨w, []⟩ = (.ok te, ⟨w', tr⟩) ∧
      Stretch tr ((reg.registered [c]).map (·.task 0)) (te = .panicked) := by
  unfold ToolRegistry.runTask ToolRegistry.registered ToolRegistry.hasTool
  cases hget : reg.get c.name with
  | none => exact ⟨_, _, _, rfl, by simpa [hget] using Stretch.nil⟩
  | some t =>
    obtain ⟨te, w', tr, hrun, htask⟩ := runTool_stretch executor env t c w
    exact ⟨te, w', tr, hrun, by simpa [hget] using htask⟩

/-- A task does not ask the model of the agent. -/
theorem runTool_quiet (t : ErasedTool) (d : Dispatch) : (executor.runTool t d).Only fun q => q.callsModel = false := by
  have hadmits : AdmitsSubagent (fun q => q.callsModel = false) (fun _ => False) :=
    ⟨rfl, rfl, fun _ => rfl, fun _ => rfl, fun _ _ => rfl⟩
  unfold SubAgentExecutor.runTool
  cases t.body with
  | plain => exact runPlainTool_meets hadmits id
  | subagent =>
    refine ⟨rfl, fun _ _ => ?_⟩
    dsimp only
    cases executor.ext.parseSubAgentArgs d.args with
    | error e => trivial
    | ok args =>
      exact Prog.Meets.mono (SubAgentExecutor.executeTool_meets hadmits (fun q r _ => callsAvoid_false 1 q r)
        executor args) (fun _ _ h => h) (fun _ h => h) fun _ _ => trivial

/-- Aborted tasks do not ask the model of the agent either. -/
theorem abortAll_quiet (calls : List ToolCall) (w : World) :
    ∀ x ∈ (reg.abortAll executor.runTool 0 calls).asked (handle env) w, asksModel x = false := by
  intro x hx
  exact (Prog.Meets.run (handle env) (abortAll_meets (P := fun _ => True) (fun t d _ => runTool_quiet executor t d) rfl
    fun _ _ _ => trivial) w fun _ _ => trivial).1 x hx

/-- What a join set leaves: one result for each of its calls, in the order of their completion, unless a task
panicked. -/
structure Joined (order : List ToolCall) (results : List ToolCallResult) (tasks : List Dispatch)
    (panicked : Bool) : Prop where
  complete : panicked = false → tasks = (reg.registered order).map (·.task 0) ∧
    results.map (fun r => (r.id, r.name)) = callOrder order
  short : panicked = true → results.length < order.length

theorem joinAll_stretch (order : List ToolCall) (w : World) :
    ∃ results w' tr tasks panicked,
      (reg.joinAll executor.runTool 0 order).run (handle env) ⟨w, []⟩ = (.ok results, ⟨w', tr⟩) ∧
        Stretch tr tasks panicked ∧ Joined reg order results tasks panicked := by
  induction order generalizing w with
  | nil => exact ⟨[], w, [], [], false, rfl, .nil, fun _ => ⟨rfl, rfl⟩, fun h => by cases h⟩
  | cons c cs ih =>
    obtain ⟨te, w₁, t₁, hrun, htask⟩ := runTask_stretch executor env reg c w
    unfold ToolRegistry.joinAll
    cases te with
    | finished result =>
      obtain ⟨results, w₂, t₂, tasks, panicked, hres, hrest, hjoined⟩ := ih w₁
      refine ⟨⟨c.id, c.name, result⟩ :: results, w₂, t₁ ++ t₂, _, panicked,
        Prog.run_bind_append _ hrun ?_, htask.append hrest, fun hp => ?_, fun hp => ?_⟩
      · rw [Prog.run_bind_ok _ hres]
        rfl
      · obtain ⟨htasks, horder⟩ := hjoined.complete hp
        refine ⟨?_, by simp [horder, callOrder]⟩
        rw [htasks, ← List.map_append, ToolRegistry.registered, ToolRegistry.registered, ← List.filter_append]
        rfl
      · simpa using hjoined.short hp
    | panicked =>
      -- The tasks that are left are aborted; whatever they did, there is no result.
      have hquiet := abortAll_quiet executor env reg cs w₁
      rcases habort : (reg.abortAll executor.runTool 0 cs).run (handle env) ⟨w₁, []⟩ with ⟨r, w₂, t₂⟩
      rw [Prog.asked, habort] at hquiet
      cases r with
      | error e => exact e.elim
      | ok u =>
        refine ⟨[], w₂, t₁ ++ t₂, _, true, Prog.run_bind_append _ hrun ?_,
          htask.append ⟨hquiet, rfl, rfl⟩, fun h => (by cases h), fun _ => by simp⟩
        rw [Prog.run_bind_ok _ habort]
        rfl

/-- A batch of one call is its task. -/
theorem executeMany_one (c : ToolCall) (w : World) :
    ∃ results w' tr panicked,
      (reg.executeMany executor.runTool 0 [c]).run (handle env) ⟨w, []⟩ = (.ok results, ⟨w', tr⟩) ∧
        Stretch tr ((reg.registered [c]).map (·.task 0)) panicked := by
  have horder : (env.joinOrder w.steps [c]).order = [c] :=
    List.perm_singleton.mp (env.joinOrder w.steps [c]).perm
  obtain ⟨te, w₁, t₁, hrun, htask⟩ := runTask_stretch executor env reg c (handle env (.joinSet 0 [c]) w).2
  have hjoin : ∃ results, (reg.joinAll executor.runTool 0 [c]).run (handle env)
      ⟨(handle env (.joinSet 0 [c]) w).2, []⟩ = (.ok results, ⟨w₁, t₁⟩) := by
    unfold ToolRegistry.joinAll
    rw [Prog.run_bind_ok _ hrun]
    cases te <;> exact ⟨_, rfl⟩
  obtain ⟨results, hjoin⟩ := hjoin
  refine ⟨results, w₁, ⟨.joinSet 0 [c], env.joinOrder w.steps [c]⟩ :: t₁, _, ?_,
    Stretch.append (t := [_]) ⟨by simp [asksModel, Request.callsModel], rfl, rfl⟩ htask⟩
  have hask : (reg.executeMany executor.runTool 0 [c]).run (handle env) ⟨w, []⟩ =
      (reg.joinAll executor.runTool 0 (env.joinOrder w.steps [c]).order).run (handle env)
        ⟨(handle env (.joinSet 0 [c]) w).2, [⟨.joinSet 0 [c], env.joinOrder w.steps [c]⟩]⟩ := rfl
  rw [hask, horder, Prog.run_trace, hjoin]
  rfl

/-- A batch runs its calls in the order in which the environment lets them complete. -/
theorem executeMany_stretch (calls : List ToolCall) (w : World) :
    ∃ results w' tr tasks panicked,
      (reg.executeMany executor.runTool 0 calls).run (handle env) ⟨w, []⟩ = (.ok results, ⟨w', tr⟩) ∧
        Stretch tr tasks panicked ∧ Joined reg (env.joinOrder w.steps calls).order results tasks panicked := by
  obtain ⟨results, w', tr, tasks, panicked, hrun, htr, hjoined⟩ :=
    joinAll_stretch executor env reg (env.joinOrder w.steps calls).order (handle env (.joinSet 0 calls) w).2
  refine ⟨results, w', ⟨.joinSet 0 calls, env.joinOrder w.steps calls⟩ :: tr, tasks, panicked, ?_, ?_, hjoined⟩
  · unfold ToolRegistry.executeMany
    rw [Prog.run_ask, Config.after, Prog.run_trace]
    exact congrArg (fun x => (x.1, Config.mk x.2.state ([_] ++ x.2.trace))) hrun
  · exact Stretch.append (t := [_]) ⟨by simp [asksModel, Request.callsModel], rfl, rfl⟩ htr

end Tasks

/-! ### What follows the decision -/

section Continuation

/-- A strategy run asks its model before anything else. -/
theorem buildStrategy_opens (kind : StrategyKind) (sk : CycleSkeleton) (hdepth : sk.depth = 0) :
    (∀ messages names, ((buildStrategy kind sk).runWithActiveTools messages names).Opens
        (fun q => q.callsModel = true)) ∧
      ∀ messages names hook, ((buildStrategy kind sk).runHitl messages names hook).Opens
        fun q => q.callsModel = true := by
  have hrunner : ∀ messages tools, (invokeRunner sk.depth messages tools).Opens
      fun q => q.callsModel = true := fun _ _ => decide_eq_true hdepth
  have hinvoke : ∀ messages names, (sk.invoke messages names).Opens fun q => q.callsModel = true := by
    intro messages names
    unfold CycleSkeleton.invoke
    cases sk.tools.toolDefinitionsFor names with
    | error e => trivial
    | ok definitions => exact (hrunner _ _).bind _
  have hplanner : ∀ {α : Type} (prompt : Except String String) (req what : String)
      (parse : String → Except String α), (askPlanner sk.ext sk.depth prompt req what parse).Opens
        fun q => q.callsModel = true := by
    intro α prompt req what parse
    unfold askPlanner checkPromptGuardrail
    cases prompt with
    | error e => trivial
    | ok strategyPrompt =>
      dsimp only
      cases sk.ext.checkPrompt strategyPrompt with
      | some msg => trivial
      | none => exact (hrunner _ _).bind _
  cases kind with
  | react =>
    refine ⟨fun messages names => ?_, fun messages names hook => ?_⟩
    · show (ReActStrategy.loop sk names sk.maxIterations (prepareBuffer sk.ext messages)).Opens _
      cases sk.maxIterations with
      | zero => trivial
      | succ n => exact (hinvoke _ _).bind _
    · show (ReActStrategy.hitlLoop sk names hook sk.maxIterations (prepareBuffer sk.ext messages) _).Opens _
      cases sk.maxIterations with
      | zero => trivial
      | succ n => exact (hinvoke _ _).bind _
  | plan => exact ⟨fun _ _ => (hplanner ..).bind _, fun _ _ _ => (hplanner ..).bind _⟩
  | hierarchical => exact ⟨fun _ _ => (hplanner ..).bind _, fun _ _ _ => (hplanner ..).bind _⟩

namespace Agent

variable (agent : Agent) (env : Env)

theorem continueRun_opens (sid : SessionId) (state : InterruptedState) (messages : List Message) :
    (agent.continueRun sid state messages).Opens fun q => q.callsModel = true := by
  obtain ⟨kind, tools, n, hs, -⟩ := agent.strategyForResume_mayRun state.activeToolNames
  obtain ⟨hplain, hhook⟩ := buildStrategy_opens kind (agent.skeleton tools n) rfl
  refine Prog.Opens.bind ?_ _
  unfold runStrategy
  rw [hs]
  cases agent.hitl with
  | some policy => exact (hhook _ _ _).mapErr
  | none => exact (hplain _ _).mapErr

/-- A resume of suspended calls that is let act does what its decision does, and goes on with the observation. -/
theorem resume_stretch {env : Env} {w w' : World} {userId : String} {sid : SessionId} {approvalId : ApprovalId}
    {state : InterruptedState} {history : List Message} {pending : List ToolCall} {decision : ApprovalDecision}
    {text : String} {t : List Event} {tasks : List Dispatch} {panicked : Bool}
    (hacc : Accepts env w userId sid approvalId)
    (hres : Resumable env w userId sid approvalId ⟨state, some (history, pending)⟩)
    (hobs : (agent.observation state.activeToolNames decision pending).run (handle env) ⟨cleared env sid w, []⟩ =
      (.ok text, ⟨w', t⟩)) (ht : Stretch t tasks panicked) :
    (agent.resume userId sid approvalId decision).run (handle env) ⟨w, []⟩ =
        (agent.continueRun sid state (history ++ [.ofText .user text])).run (handle env)
          ⟨w', clearing env sid w ++ t⟩ ∧
      Stretch (beforeModel ((agent.resume userId sid approvalId decision).run (handle env) ⟨w, []⟩).2.trace)
        tasks panicked := by
  have hact : agent.resumeAct sid ⟨state, some (history, pending)⟩ decision =
      agent.resumeToolCallOrCheckpoint sid state decision history pending := by
    cases state with
    | pendingPhaseGate => cases hres.payload
    | _ => rfl
  have hrun : (agent.resume userId sid approvalId decision).run (handle env) ⟨w, []⟩ =
      (agent.continueRun sid state (history ++ [.ofText .user text])).run (handle env)
        ⟨w', clearing env sid w ++ t⟩ := by
    rw [agent.resume_acts hres hacc.2.1 hacc.2.2, hact, resumeToolCallOrCheckpoint]
    exact Prog.run_bind_ok _ (by rw [Prog.run_trace, hobs]) _
  refine ⟨hrun, ?_⟩
  have hclear : Stretch (clearing env sid w) [] false := by
    refine stretch_of_inner fun x hx => ?_
    have hq := clearing_asked x hx
    have hd : x.1.dispatch? = none := hq.elim (·.dispatch) (·.dispatch)
    refine ⟨?_, by simp [ownTask, Request.ownTask?, hd]⟩
    obtain ⟨q, r⟩ := x
    cases q with
    | generate => exact hq.elim False.elim False.elim
    | _ => rfl
  have hopens := (agent.continueRun_opens sid state (history ++ [.ofText .user text])).asked (handle env) w'
  rw [Prog.asked] at hopens
  rw [hrun, Prog.run_trace, beforeModel_append (hclear.append ht).quiet hopens]
  simpa using hclear.append ht

end Agent

end Continuation

end AgentVerse
