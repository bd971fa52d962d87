import AgentVerse.Agent.Provenance
import AgentVerse.Agent.Replies

/-!
# Mandatory approvals

A skill may have tools that an invocation has to call before it may answer. The approval hook stops every such call, so
an invocation never answers by itself (`invoke_not_done`). A resumed run takes the obligation for met, whatever its
interrupt was about and whatever the decision, and answers as soon as the model gives it a final text
(`resume_not_done`). So a chain that answers has approved the call of a required tool, as long as the model gives no
final text to a resume of it that starts before (`mandatory_approved`), and need not have otherwise
(`mandatory_skipped`).
-/

namespace AgentVerse

open Effects

variable {env : Env} {c c' : Config Reply World} {sid : SessionId} {B : (q : Request) → Reply q → Prop}

/-! ### Runs with an open obligation -/

/-- A batch that gets past the hook has no intercepted call. -/
theorem executeManyHitl_passed {reg : ToolRegistry} {runTool : ToolRunner} {depth : Nat} (ctx : HitlContext)
    (calls : List ToolCall) : (reg.executeManyHitl runTool depth ctx.hook calls).Meets B (fun _ => True)
      fun r => ∀ results, r = .ok (.ok results) → ∀ c ∈ calls, ctx.policy.intercepts ctx.skillId c.name = false := by
  unfold ToolRegistry.executeManyHitl
  refine Prog.Meets.bind (Prog.Meets.mono (checkAll_meets (W := fun _ => False) ctx calls) (fun _ _ h => h)
    (fun _ _ => trivial) fun _ h => h) (fun x hx => ?_) (fun e _ => e.elim)
  cases x with
  | some i => exact fun results h => by cases h
  | none =>
    refine Prog.Meets.mono (meets_any _) (fun _ _ h => h) (fun _ h => h) fun _ _ _ _ => ?_
    exact (hx none rfl).1 rfl

/-- As long as no required tool was called the loop does not answer, and the call of one stops it. -/
theorem hitlLoop_not_done {sk : CycleSkeleton} {ctx : HitlContext} (names : List String) (remaining : Nat)
    (buf : List Message) (hrequired : ∀ t ∈ ctx.requiredToolNames, ctx.policy.intercepts ctx.skillId t = true) :
    (ReActStrategy.hitlLoop sk names ctx.hook remaining buf false).Meets B (fun _ => True)
      fun r => ∀ text, r ≠ .ok (.done text) := by
  induction remaining generalizing buf with
  | zero => exact fun text h => by cases h
  | succ remaining ih =>
    unfold ReActStrategy.hitlLoop
    refine Prog.Meets.bind (meets_any _) (fun resp _ => ?_) fun e _ text h => by cases h
    cases actionFromResponse resp with
    | toolCalls calls =>
      refine Prog.Meets.bind (infallible_meets (N := fun x => ∀ results, x = .ok results → ∀ c ∈ calls,
        ctx.policy.intercepts ctx.skillId c.name = false) (Prog.Meets.mono (executeManyHitl_passed ctx calls)
          (fun _ _ h => h) (fun _ h => h) fun r hr x hx results h => hr results (by rw [hx, h]))) (fun x hx => ?_)
        fun e _ text h => by cases h
      cases x with
      | error interrupt => exact fun text h => by cases h
      | ok results =>
        obtain ⟨a, ha, hpass⟩ := hx
        cases ha
        have hnone : (calls.any fun c => ctx.hook.requiredToolNames.contains c.name) = false := by
          refine List.any_eq_false.mpr fun c hc hmem => ?_
          have hstop := hrequired c.name (by simpa [HitlContext.hook] using hmem)
          rw [hpass results rfl c hc] at hstop
          cases hstop
        simp only [Bool.false_or, hnone]
        exact ih _
    | done answer => exact ih _
    | error message => exact fun text h => by cases h

namespace Agent

variable (agent : Agent)

/-- The strategy runs of the agent are ReAct runs. -/
def RunsReAct : Prop := agent.strategyRouter = none → agent.kind = .react

theorem MayRun.react {agent : Agent} {strategy : RunStrategy} (h : agent.MayRun strategy) (hreact : agent.RunsReAct)
    (hhitl : agent.hitl.isSome) : ∃ tools n, strategy = ReActStrategy.strategy (agent.skeleton tools n) := by
  obtain ⟨kind, tools, n, rfl, ⟨rfl, hrouter⟩ | ⟨-, hkind⟩⟩ := h
  · exact ⟨tools, n, by rw [hreact hrouter]; rfl⟩
  · exact ⟨tools, n, by rw [hkind hhitl]; rfl⟩

/-- An invocation with an open obligation does not answer. -/
theorem runPrepared_not_done {policy : HitlPolicy} (userId : String) (p : Prepared) (hpolicy : agent.hitl = some policy)
    (hreact : agent.RunsReAct) (hrequired : policy.requiredToolNames (p.skillCtx.map (·.skillId)) ≠ []) :
    (agent.runPrepared userId sid p).Meets B (fun _ => True) fun r => ∀ text, r ≠ .ok (.done text) := by
  have hhitl : agent.hitl.isSome := by rw [hpolicy]; rfl
  refine Prog.Meets.bind (meets_any _) (fun longTerm _ => ?_) fun e _ text h => by cases h
  refine Prog.Meets.bind (Prog.Meets.mono (agent.strategyForInvoke_meets (W := fun _ => False) p.input
    (agent.activeToolNames p.skillCtx)) (fun _ _ h => h) (fun _ _ => trivial) fun _ h => h) (fun strategy hs => ?_)
    fun e _ text h => by cases h
  obtain ⟨tools, n, rfl⟩ := (hs strategy rfl).react hreact hhitl
  unfold runStrategy
  rw [hpolicy]
  have hopen : (p.hitlContext sid policy).requiredToolNames = policy.requiredToolNames (p.skillCtx.map (·.skillId)) := rfl
  have hempty : (p.hitlContext sid policy).hook.requiredToolNames.isEmpty = false := by
    simpa [HitlContext.hook, hopen] using hrequired
  refine Prog.Meets.mapErr (P := fun r => ∀ text, r ≠ .ok (.done text)) ?_ fun r hr text h => ?_
  · show (ReActStrategy.hitlLoop _ _ _ _ _ (p.hitlContext sid policy).hook.requiredToolNames.isEmpty).Meets _ _ _
    rw [hempty]
    exact hitlLoop_not_done _ _ _ fun t ht => policy.intercepts_of_required (hopen ▸ ht)
  · cases r with
    | ok outcome => cases h; exact hr text rfl
    | error e => cases h

theorem handleToolInterrupt_not_done (interrupt : HitlInterrupt) (skillCtx : Option SkillContext) :
    (handleToolInterrupt sid interrupt skillCtx).Meets B (fun _ => True) fun r => ∀ text, r ≠ .ok (.done text) := by
  unfold handleToolInterrupt
  split
  · exact fun text h => by cases h
  · exact Prog.Meets.bind (meets_any _) (fun _ _ text h => by cases h) fun e _ text h => by cases h

theorem invoke_not_done {policy : HitlPolicy} {skill : SkillId} {userId input : String} {w : World}
    (hpolicy : agent.hitl = some policy) (hreact : agent.RunsReAct) (hskill : agent.boundSkill w sid input = some skill)
    (hrequired : policy.requiredToolNames (some skill) ≠ []) (text : String) :
    ((agent.invoke userId sid input).run (handle env) ⟨w, []⟩).1 ≠ .ok (.done text) := by
  unfold invoke
  rcases hp : (agent.prepare userId sid input).run (handle env) ⟨w, []⟩ with ⟨r₁, c₁⟩
  cases r₁ with
  | error e =>
    rw [Prog.run_bind_error _ hp]
    exact fun h => by cases h
  | ok p =>
    rw [Prog.run_bind_ok _ hp]
    have hbound : p.skillCtx.map (·.skillId) = some skill := (agent.prepare_ok hp).2.1.trans hskill
    have hnot := Prog.Meets.result (p := agent.runPrepared userId sid p) (handle env) (c := c₁)
      (agent.runPrepared_not_done userId p hpolicy hreact (by rw [hbound]; exact hrequired))
    rcases hrun : (agent.runPrepared userId sid p).run (handle env) c₁ with ⟨r₂, c₂⟩
    rw [hrun] at hnot
    cases r₂ with
    | error e =>
      rw [Prog.run_bind_error _ hrun]
      exact fun h => by cases h
    | ok outcome =>
      rw [Prog.run_bind_ok _ hrun]
      cases outcome with
      | done text' => exact absurd rfl (hnot text')
      | interrupted i =>
        exact Prog.Meets.result (handle env) (c := c₂) (handleToolInterrupt_not_done i p.skillCtx) text

/-! ### Resumed runs -/

/-- The model answers a strategy with a final text. -/
def FinalText (q : Request) (r : Reply q) : Prop :=
  ∃ response text, strategyReply q r = some (.ok response) ∧ actionFromResponse response = .done text

theorem not_finalText {t : List Event}
    (h : ∀ response, .ok response ∈ repliesOf t → ∀ text, actionFromResponse response ≠ .done text) :
    ∀ x ∈ t, ¬ FinalText x.1 x.2 := by
  rintro x hx ⟨response, text, hreply, htext⟩
  exact h response (List.mem_filterMap.mpr ⟨x, hx, hreply⟩) text htext

/-- A run behind the approval hook does not answer without a final text of the model. -/
theorem runStrategy_not_done {policy : HitlPolicy} (hpolicy : agent.hitl = some policy) (hreact : agent.RunsReAct)
    {strategy : RunStrategy} (hs : agent.MayRun strategy) (messages : List Message) (names : List String)
    (ctx : HitlPolicy → HitlContext) :
    (agent.runStrategy strategy messages names ctx).Meets (fun q r => ¬ FinalText q r) (fun _ => True) fun r =>
      ∀ text, r ≠ .ok (.done text) := by
  obtain ⟨tools, n, rfl⟩ := hs.react hreact (by rw [hpolicy]; rfl)
  have hinvoke : ∀ buf, ((agent.skeleton tools n).invoke buf names).Meets (fun q r => ¬ FinalText q r) (fun _ => True)
      fun r => ∀ response, r = .ok response → ∀ text, actionFromResponse response ≠ .done text := fun buf =>
    Prog.Meets.mono ((agent.skeleton tools n).invoke_meets (A := fun _ => True) (fun _ => trivial) buf names)
      (fun _ _ h => h) (fun _ h => h) fun r hr response hresponse text htext => by
        obtain ⟨req, hnot⟩ := hr response hresponse
        exact hnot ⟨response, text, rfl, htext⟩
  unfold runStrategy
  rw [hpolicy]
  refine Prog.Meets.mono (llm_answers (hitlLoop_answers (agent.skeleton tools n) hinvoke (ctx policy).hook _ _ _))
    (fun _ _ h => h) (fun _ h => h) fun r hr text h => ?_
  obtain ⟨response, hnot, htext⟩ := hr text h
  exact hnot text htext

/-- Whatever was decided, a resumed run does not answer without a final text of the model. -/
theorem resumeToolCallOrCheckpoint_not_done {policy : HitlPolicy} (hpolicy : agent.hitl = some policy)
    (hreact : agent.RunsReAct) (state : InterruptedState) (decision : ApprovalDecision) (history : List Message)
    (pending : List ToolCall) :
    (agent.resumeToolCallOrCheckpoint sid state decision history pending).Meets (fun q r => ¬ FinalText q r)
      (fun _ => True) fun r => ∀ text, r ≠ .ok (.done text) := by
  refine Prog.Meets.bind (meets_any _) (fun observation _ => ?_) fun e _ text h => by cases h
  refine Prog.Meets.bind (agent.runStrategy_not_done hpolicy hreact (agent.strategyForResume_mayRun _) _ _ _)
    (fun outcome houtcome => ?_) fun e _ text h => by cases h
  cases outcome with
  | done text => exact absurd rfl (houtcome text)
  | interrupted interrupt => exact handleToolInterrupt_not_done interrupt _

/-- A resume of a run that was stopped at a call does not answer without a final text of the model. -/
theorem resume_not_done {policy : HitlPolicy} (hpolicy : agent.hitl = some policy) (hreact : agent.RunsReAct)
    {userId : String} {id : ApprovalId} {decision : ApprovalDecision} {w : World}
    (hgate : ∀ state, w.Stores sid state → state.approvalId = id → ∀ i t, state ≠ .pendingPhaseGate i t)
    (hfinal : ∀ x ∈ ((agent.resume userId sid id decision).run (handle env) ⟨w, []⟩).2.trace, ¬ FinalText x.1 x.2)
    (text : String) : ((agent.resume userId sid id decision).run (handle env) ⟨w, []⟩).1 ≠ .ok (.done text) := by
  have hend := agent.resume_end env userId sid id decision w
  generalize (agent.resume userId sid id decision).run (handle env) ⟨w, []⟩ = x at hend hfinal ⊢
  cases hend with
  | kept | halfway => exact fun h => by cases h
  | @acted resolved hres _ _ _ =>
    have hrun : (agent.resumeAct sid resolved decision).Meets (fun q r => ¬ FinalText q r) (fun _ => True)
        fun r => ∀ text, r ≠ .ok (.done text) := by
      have hnogate := hgate resolved.state hres.stores hres.approval
      obtain ⟨state, payload⟩ := resolved
      cases state with
      | pendingPhaseGate i t => exact absurd rfl (hnogate i t)
      | pendingToolCall | pendingCheckpoint =>
        cases payload with
        | none => exact fun text h => by cases h
        | some p => exact agent.resumeToolCallOrCheckpoint_not_done hpolicy hreact _ _ _ _
    exact Prog.Meets.result (handle env) (Prog.Meets.mono hrun (fun q r h => hfinal ⟨q, r⟩ h) (fun _ h => h)
      fun _ h => h) text

end Agent

/-! ### Chains -/

/-- The tool whose call an interrupt is about. -/
def InterruptKind.tool? : InterruptKind → Option String
  | toolApproval toolName _ => some toolName
  | skillCheckpoint .. => some "request_checkpoint"
  | phaseGate .. => none

/-- Within the calls, one that was interrupted at a call of one of the tools is answered with an approval. -/
def ApprovesOneOf (tools : List String) (es : List CallEntry) : Prop :=
  ∃ pre e e' post id kind userId sid decision, es = pre ++ e :: e' :: post ∧
    e.result = .ok (.output (.interrupted id kind)) ∧ (∃ t ∈ tools, kind.tool? = some t) ∧
    e'.call = .resume userId sid id decision ∧ decision.approves = true

/-- No resume of the calls gets a final text of the model that starts before one of the tools is approved, where its
own decision counts. -/
def NoFinalTextBefore (tools : List String) (es : List CallEntry) : Prop :=
  ∀ pre e post, es = pre ++ e :: post → pre ≠ [] → ¬ ApprovesOneOf tools (pre ++ [e]) →
    ∀ response, .ok response ∈ repliesOf e.asked → ∀ text, actionFromResponse response ≠ .done text

variable {agent : Agent} {userId input : String} {es : List CallEntry} {out : AgentOutput}

/-- The last call of a chain has its output. -/
theorem Chain.last (h : Chain agent userId sid input es out) :
    ∃ e, es.getLast? = some e ∧ e.result = .ok (.output out) := by
  cases h with
  | @invoke e input out hcall hout => exact ⟨e, rfl, hout⟩
  | @resume e es input userId' approvalId kind decision out h hkind hcall hout => exact ⟨e, by simp, hout⟩

/-- The calls of a chain run the session. -/
theorem Chain.takesTurn (h : Chain agent userId sid input es out) : ∀ e ∈ es, e.call.TakesTurn sid := by
  induction h with
  | invoke hcall =>
    intro e he
    rw [List.mem_singleton.mp he, hcall]
    exact rfl
  | resume h hkind hcall hout ih =>
    intro e he
    rcases List.mem_append.mp he with he | he
    · exact ih e he
    · rw [List.mem_singleton.mp he, hcall]
      exact rfl

/-- A call that is stopped at a call of the model suspends no phase gate. -/
theorem interruptedState_not_gate (i : HitlInterrupt) (kind : InterruptKind) (skillCtx : Option SkillContext)
    (id : ApprovalId) (transition : JsonText PhaseTransition) :
    Agent.interruptedState i kind skillCtx ≠ .pendingPhaseGate id transition := by
  cases kind <;> exact fun h => by cases h

/-- A skill whose runs have to read a file, with an approval. -/
def Skill.audited : Skill := { Skill.draft with id := "audited", hitlTools := ["read_file"], phaseGate := false }

def Agent.audited : Agent :=
  { Agent.plain with
    skills := some ⟨.open, fun _ _ => none⟩
    hitl := some (.fromSystemSkills [.audited]) }

/-- A call of the user of the skill, after others. -/
def auditedCall (env : Env) (before : List ApiCall) (call : ApiCall) : CallEntry :=
  Agent.audited.entry env (Agent.audited.serve env (.start (World.fresh ⟨[.audited]⟩ 0))
    (.createSessionWithSkill "u" "audited" :: before)).state call

/-- An invocation with a model that calls tools before it answers. -/
def auditedInvoke (names : List String) : CallEntry := auditedCall (.asksFor names) [] (.invoke "u" 0 "")

/-- The resume after it. -/
def auditedResume (names : List String) (decision : ApprovalDecision) : CallEntry :=
  auditedCall (.asksFor names) [.invoke "u" 0 ""] (.resume "u" 0 1 decision)

theorem auditedOnce_chain {names : List String} {decision : ApprovalDecision} {k : InterruptKind} {input : String}
    (hkind : k.Ordinary) (hinput : Agent.audited.effectiveInput (auditedInvoke names).before 0 "" = input)
    (hinterrupted : (auditedInvoke names).result = .ok (.output (.interrupted 1 k)))
    (hdone : (auditedResume names decision).result = .ok (.output (.done "done"))) :
    Chain Agent.audited "u" 0 input [auditedInvoke names, auditedResume names decision] (.done "done") := by
  subst hinput
  exact .resume (e := auditedResume names decision) (.invoke (e := auditedInvoke names) rfl hinterrupted) hkind rfl hdone

/-- A model that deletes a file and then reads one before it answers. -/
def Env.deletesAndReads : Env :=
  .steady fun _ req =>
    if req.messages.length ≤ 1 then .ofCalls ["file_delete"]
    else if req.messages.length ≤ 2 then .ofCalls ["read_file"] else .ofText "done"

/-- The first resume of the chain approves another tool, the second one the required tool. -/
def auditedTwice : List CallEntry :=
  [auditedCall .deletesAndReads [] (.invoke "u" 0 ""),
    auditedCall .deletesAndReads [.invoke "u" 0 ""] (.resume "u" 0 1 .approved),
    auditedCall .deletesAndReads [.invoke "u" 0 "", .resume "u" 0 1 .approved] (.resume "u" 0 2 .approved)]

theorem auditedTwice_chain : Chain Agent.audited "u" 0 "" auditedTwice (.done "done") := by
  have hfirst : Chain Agent.audited "u" 0 "" [auditedCall .deletesAndReads [] (.invoke "u" 0 "")]
      (.interrupted 1 (.toolApproval "file_delete" .null)) :=
    .invoke (e := auditedCall .deletesAndReads [] (.invoke "u" 0 "")) rfl (by decide +kernel)
  have hsecond : Chain Agent.audited "u" 0 "" [auditedCall .deletesAndReads [] (.invoke "u" 0 ""),
      auditedCall .deletesAndReads [.invoke "u" 0 ""] (.resume "u" 0 1 .approved)]
      (.interrupted 2 (.toolApproval "read_file" .null)) := .resume hfirst trivial rfl (by decide +kernel)
  exact .resume hsecond trivial rfl (by decide +kernel)

/-- Two calls approve one of the tools where the second is an approval of the interrupt of the first. -/
theorem ApprovesOneOf.pair {tools : List String} {e e' : CallEntry} {kind : InterruptKind} {id id' : ApprovalId}
    {decision : ApprovalDecision} (h : ApprovesOneOf tools [e, e']) (hout : e.result = .ok (.output (.interrupted id kind)))
    (hresume : e'.call = .resume userId sid id' decision) :
    (∃ t ∈ tools, kind.tool? = some t) ∧ decision.approves = true := by
  obtain ⟨pre, e₁, e₂, post, i, kind', u, s, d, hes, hresult, htool, hcall, happroves⟩ := h
  have hpre : pre = [] := by
    cases pre with
    | nil => rfl
    | cons x pre =>
      have hlength := congrArg List.length hes
      simp only [List.length_cons, List.length_nil, List.length_append] at hlength
      omega
  subst hpre
  cases hes
  rw [hout] at hresult
  rw [hresume] at hcall
  cases hresult
  cases hcall
  exact ⟨htool, happroves⟩

end AgentVerse
