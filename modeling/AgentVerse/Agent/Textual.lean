import AgentVerse.Agent.Blocklist
import AgentVerse.Agent.Filtered
import AgentVerse.Agent.Settlement
import AgentVerse.Model.Gemini
import AgentVerse.Model.Metrics

/-!
# An agent over Gemini

If the managers of an agent are all of Gemini, a model call is answered only if it offers no tool, and with a text
(`Env.OverGemini`). Then nothing is started but the steps of plans, sessions wait for phase gates only, and a fixed ReAct
strategy answers only where it has no tool to offer (`texts_only`).
-/

namespace AgentVerse

open Effects

/-- Every model call is made by a chain of Gemini managers, whatever the network does. -/
def Env.OverGemini (env : Env) : Prop :=
  ∀ n depth req, ∃ (cm : ConnectionManager) (t : List Http.Event), (∀ c ∈ cm.chain, c.Gemini) ∧
    (cm.generate 0 req).Plays t (env.generate n depth req)

/-- Model calls answer with texts, to requests without tools. -/
def SpeaksText (B : (q : Request) → Reply q → Prop) : Prop :=
  ∀ depth req resp, B (.generate depth req) (.ok resp) → req.Textual ∧ resp.Textual

theorem GenerateResponse.Textual.calls {resp : GenerateResponse} (h : resp.Textual) : resp.calls = [] := by
  obtain ⟨text, rfl⟩ := h
  rfl

/-- What an environment over Gemini replies. -/
theorem Env.OverGemini.speaksText {env : Env} (henv : env.OverGemini) :
    SpeaksText fun q r => ∃ w, r = (handle env q w).1 := by
  rintro depth req resp ⟨w, hresp⟩
  obtain ⟨cm, t, hgemini, hplays⟩ := henv w.steps depth req
  have hgenerate : env.generate w.steps depth req = .ok resp := hresp.symm
  rw [hgenerate] at hplays
  exact (cm.generate_served hplays).textual hgemini

/-- A step of a plan, outside of subagents, of an agent that may plan. -/
structure Agent.Planned (agent : Agent) (d : Dispatch) : Prop where
  depth : d.depth = 0
  callId : d.callId = none
  plans : agent.strategyRouter = none → agent.kind ≠ .react

section Replies

variable {B : (q : Request) → Reply q → Prop}

/-- Texts start nothing but the tools of plans. -/
theorem Agent.spares_of_texts (agent : Agent) (hB : SpeaksText B) (skill : Option SkillId) (names : List String) :
    agent.Spares B (fun d => ¬ agent.Planned d) skill names where
  subagents _ _ _ _ req resp hresp c hc := by
    rw [(hB 1 req resp hresp).2.calls] at hc
    cases hc
  calls _ req resp hresp _ c hc := by
    rw [(hB 0 req resp hresp).2.calls] at hc
    cases hc
  plans hplans _ _ _ _ _ _ _ _ _ _ _ _ hplanned := hplanned ⟨rfl, rfl, hplans⟩

/-- No text is stopped by the hook. -/
theorem SpeaksText.not_stopped (hB : SpeaksText B) {ctx : HitlContext} {i : HitlInterrupt} : ¬ Stopped B ctx 0 i := by
  rintro ⟨kind, pre, call, post, req, resp, hs, hreply, hcalls⟩
  have hsplit := hs.stopped.split
  rw [hcalls, (hB 0 req resp hreply).2.calls] at hsplit
  cases pre <;> cases hsplit

/-! ### ReAct -/

variable (sk : CycleSkeleton) (hB : SpeaksText B)

include hB in
/-- A model call that is answered offers nothing. -/
theorem CycleSkeleton.invoke_toolless (messages : List Message) (names : List String) :
    (sk.invoke messages names).Meets B (fun _ => True) fun r =>
      ∀ resp, r = .ok resp → sk.tools.toolDefinitionsFor names = .ok [] := by
  unfold CycleSkeleton.invoke
  cases sk.tools.toolDefinitionsFor names with
  | error e => exact fun resp h => by cases h
  | ok definitions =>
    have hasks : (invokeRunner sk.depth messages (if definitions.isEmpty then none else some definitions)).Meets B
        (fun _ => True) fun r => ∀ resp, r = .ok resp → definitions = [] := by
      refine ⟨trivial, fun r hr => ?_⟩
      cases r with
      | error e => exact fun resp h => by cases h
      | ok resp =>
        intro _ _
        by_contra hne
        have htools := (hB sk.depth _ resp hr).1.toolless
        dsimp only at htools
        rw [if_neg (by simpa using hne)] at htools
        cases htools
    refine Prog.Meets.bind hasks (fun resp hresp => ?_) fun e _ resp h => by cases h
    refine Prog.Meets.bind (meets_any _) (fun _ _ resp' _ => ?_) fun e _ resp h => by cases h
    rw [hresp resp rfl]

include hB in
/-- ReAct answers only without tools to offer. -/
theorem loop_toolless (names : List String) (remaining : Nat) (buf : List Message) :
    (ReActStrategy.loop sk names remaining buf).Meets B (fun _ => True) fun r =>
      ∀ text, r = .ok (.done text) → sk.tools.toolDefinitionsFor names = .ok [] := by
  refine Prog.Meets.mono (loop_answers sk (fun buf => sk.invoke_toolless hB buf names) remaining buf) (fun _ _ h => h)
    (fun _ h => h) fun r hr text h => ?_
  obtain ⟨_, htools, -⟩ := hr text h
  exact htools

include hB in
theorem hitlLoop_toolless (names : List String) (hook : HitlHook) (remaining : Nat) (buf : List Message)
    (called : Bool) : (ReActStrategy.hitlLoop sk names hook remaining buf called).Meets B (fun _ => True) fun r =>
      ∀ text, r = .ok (.done text) → sk.tools.toolDefinitionsFor names = .ok [] := by
  refine Prog.Meets.mono (hitlLoop_answers sk (fun buf => sk.invoke_toolless hB buf names) hook remaining buf called)
    (fun _ _ h => h) (fun _ h => h) fun r hr text h => ?_
  obtain ⟨_, htools, -⟩ := hr text h
  exact htools

/-- The calls that run a strategy. -/
def ApiCall.RunsStrategy : ApiCall → Prop
  | invoke .. | invokeStateless _ | resume .. => True
  | _ => False

namespace Agent

variable (agent : Agent)

include hB in
theorem runStrategy_toolless (hkind : agent.kind = .react) (hrouter : agent.strategyRouter = none) {names : List String}
    {strategy : RunStrategy} (hs : agent.Runs names strategy) (messages : List Message)
    (ctx : HitlPolicy → HitlContext) : (agent.runStrategy strategy messages names ctx).Meets B (fun _ => True) fun r =>
      ∀ text, r = .ok (.done text) → agent.tools.toolDefinitionsFor names = .ok [] := by
  obtain ⟨kind, tools, n, rfl, ⟨-, rfl, rfl⟩ | ⟨hsome, -⟩⟩ := hs
  · unfold runStrategy
    rw [hkind]
    cases agent.hitl with
    | some policy => exact llm_answers (hitlLoop_toolless (agent.skeleton agent.tools n) hB ..)
    | none => exact llm_answers (loop_toolless (agent.skeleton agent.tools n) hB ..)
  · rw [hrouter] at hsome
    cases hsome

include hB in
theorem runPrepared_toolless (hkind : agent.kind = .react) (hrouter : agent.strategyRouter = none) (userId : String)
    (sid : SessionId) (p : Prepared) : (agent.runPrepared userId sid p).Meets B (fun _ => True) fun r =>
      ∀ text, r = .ok (.done text) → agent.tools.toolDefinitionsFor (agent.activeToolNames p.skillCtx) = .ok [] := by
  refine Prog.Meets.bind (meets_any _) (fun longTerm _ => ?_) fun e _ text h => by cases h
  refine Prog.Meets.bind (Prog.Meets.mono (agent.strategyForInvoke_runs (W := fun _ => False) p.input
    (agent.activeToolNames p.skillCtx)) (fun _ _ h => h) (fun _ _ => trivial) fun _ h => h) (fun strategy hs => ?_)
    fun e _ text h => by cases h
  exact agent.runStrategy_toolless hB hkind hrouter (hs strategy rfl) ..

include hB in
/-- A stateless invocation of a ReAct agent offers all of its tools. -/
theorem invokeStateless_toolless (hkind : agent.kind = .react) (input : String) :
    (agent.invokeStateless input).Meets B (fun _ => True) fun r =>
      ∀ text, r = .ok text → agent.tools.toolDefinitionsFor agent.tools.toolNames = .ok [] := by
  have hrun : (llm (agent.strategy.run (assembleMessages (agent.assembleSystem none none) [] input)) :
      M AgentError StrategyOutcome).Meets B (fun _ => True) fun r =>
        ∀ text, r = .ok (.done text) → agent.tools.toolDefinitionsFor agent.tools.toolNames = .ok [] := by
    unfold strategy
    rw [hkind]
    exact llm_answers (loop_toolless (agent.skeleton agent.tools agent.maxIterations) hB ..)
  refine Prog.Meets.bind hrun (fun outcome houtcome => ?_) fun e _ text h => by cases h
  cases outcome with
  | done answer => exact fun text _ => houtcome answer rfl
  | interrupted interrupt => exact fun text h => by cases h

end Agent

end Replies

/-- A registry offers no definitions of its own tools only if it has none. -/
theorem ToolRegistry.eq_nil_of_definitions {reg : ToolRegistry} (h : reg.toolDefinitionsFor reg.toolNames = .ok []) :
    reg.tools = [] := by
  have hnil : reg.toolNames.filterMap reg.get = [] := List.forall₂_nil_right_iff.mp (mapM_eq_ok.mp h)
  by_contra hne
  obtain ⟨t, tools, htools⟩ := List.exists_cons_of_ne_nil hne
  have hmem : t.name ∈ reg.toolNames := List.mem_map.mpr ⟨t, by rw [htools]; exact List.mem_cons_self, rfl⟩
  have hget : reg.get t.name = none := List.filterMap_eq_nil_iff.mp hnil _ hmem
  have hfound := List.find?_eq_none.mp hget t (by rw [htools]; exact List.mem_cons_self)
  simp at hfound

/-! ### Calls -/

namespace Agent

variable (agent : Agent)

theorem advancePhase_starts_nothing (userId : String) (sid : SessionId) (output : String) :
    (agent.advancePhase userId sid output).Only fun q => q.dispatch? = none := by
  refine Prog.Only.bind (sess_only (SessionManager.assertOwner_only rfl)) fun _ => ?_
  split
  · trivial
  · rename_i transition _
    refine Prog.Only.bind (Prog.Only.mono agent.phaseGate_reads fun _ h => h.idle.dispatch) fun gate => ?_
    cases gate with
    | none =>
      exact Prog.Only.bind (Prog.Only.mono (agent.applyTransition_binds (s := sid) _ transition)
        fun _ h => h.ofPhase.dispatch) fun _ => trivial
    | some skillId =>
      refine Prog.Only.bind ⟨rfl, fun r _ => ?_⟩ fun _ => trivial
      cases r with
      | error e => trivial
      | ok id => exact Prog.Only.bind (Prog.Only.mono (twoWrites_only ..) fun _ h => h.dispatch) fun _ => trivial

/-- A call that runs no strategy starts nothing. -/
theorem program_starts_nothing {call : ApiCall} (hcall : ¬ call.RunsStrategy) :
    (agent.program call).Only fun q => q.dispatch? = none := by
  cases call with
  | invoke | invokeStateless | resume => exact absurd trivial hcall
  | createSession u =>
    exact Prog.Only.bind (sess_only (Prog.Only.bind (SessionMemory.createWith_only rfl rfl fun _ _ => rfl)
      fun _ => trivial)) fun _ => trivial
  | createSessionWithSkill u skillId =>
    refine Prog.Only.bind (p := agent.createSessionWithSkill u skillId) ?_ fun _ => trivial
    unfold createSessionWithSkill
    split
    · trivial
    · refine Prog.Only.bind (request_only rfl) fun reg => ?_
      split
      · trivial
      · exact sess_only (Prog.Only.bind (SessionMemory.createWith_only rfl rfl fun _ _ => rfl) fun _ => trivial)
  | advancePhase u s output => exact Prog.Only.bind (agent.advancePhase_starts_nothing u s output) fun _ => trivial
  | endSession u s =>
    refine Prog.Only.bind (Prog.Only.bind (sess_only (SessionManager.assertOwner_only rfl)) fun _ => ?_) fun _ => trivial
    exact Prog.Only.bind (sess_only (SessionMemory.updateStatus_only rfl fun _ => rfl)) fun _ => request_only rfl
  | deleteAllUserData u =>
    refine Prog.Only.bind (Prog.Only.bind (sess_only (query_only rfl)) fun sessions => ?_) fun _ => trivial
    exact deleteAll_only u (fun _ _ => rfl) fun _ _ => rfl
  | resolve id d => exact Prog.Only.bind (request_only rfl) fun _ => trivial
  | sweepExpired => exact Prog.Only.bind (request_only rfl) fun _ => trivial
  | checkTool ctx name args =>
    refine Prog.Only.bind (Prog.Only.mapErr (Prog.Meets.mono (checkTool_meets (B := fun _ _ => True) (W := fun _ => True)
      ctx name args) (fun _ _ h => h) (fun q h => ?_) fun _ _ => trivial)) fun _ => trivial
    cases hd : q.dispatch? with
    | none => rfl
    | some d => exact absurd trivial (h.2 d hd)
  | cleanup cfg =>
    exact Prog.Only.bind (Prog.Only.attempt (CleanupWorker.tick_only rfl (fun _ => rfl) (fun _ => rfl) (fun _ => rfl)
      fun _ _ _ => rfl)) fun _ => trivial

variable {agent} {env : Env} {w : World} {sid : SessionId}

/-- An invocation is answered only if its skill leaves the strategy no tool. -/
theorem invoke_toolless {userId input : String} (hkind : agent.kind = .react) (hrouter : agent.strategyRouter = none)
    (hB : SpeaksText fun q r => (⟨q, r⟩ : Event) ∈ (agent.invoke userId sid input).asked (handle env) w) {text : String}
    (htext : ((agent.invoke userId sid input).run (handle env) ⟨w, []⟩).1 = .ok (.done text)) :
    agent.tools.toolDefinitionsFor (agent.activeToolNames (agent.boundContext w sid input)) = .ok [] := by
  unfold Prog.asked invoke at hB
  unfold invoke at htext
  rcases hp : (agent.prepare userId sid input).run (handle env) ⟨w, []⟩ with ⟨r₁, c₁⟩
  cases r₁ with
  | error e =>
    rw [Prog.run_bind_error _ hp] at htext
    cases htext
  | ok p =>
    rw [Prog.run_bind_ok _ hp] at hB htext
    rw [← (agent.prepare_ok hp).2.2.1]
    rcases hrun : (agent.runPrepared userId sid p).run (handle env) c₁ with ⟨r₂, c₂⟩
    cases r₂ with
    | error e =>
      rw [Prog.run_bind_error _ hrun] at htext
      cases htext
    | ok outcome =>
      rw [Prog.run_bind_ok _ hrun] at hB htext
      cases outcome with
      | done answer =>
        have hsame : SpeaksText fun q r =>
            (⟨q, r⟩ : Event) ∈ ((agent.runPrepared userId sid p).run (handle env) c₁).2.trace := by
          rw [hrun]
          exact fun depth req resp hx => hB depth req resp (trace_mono ((Prog.only_true _).reaches c₂) hx)
        exact Prog.Meets.result (handle env) (agent.runPrepared_toolless hsame hkind hrouter userId sid p) answer
          (by rw [hrun])
      | interrupted i =>
        have hnone : ∀ out, ((handleToolInterrupt sid i p.skillCtx).run (handle env) c₂).1 = .ok out →
            out.text? = none :=
          Prog.Meets.result (handle env) (Prog.Meets.mono (handleToolInterrupt_yields i p.skillCtx)
            (fun _ _ _ => trivial) (fun _ h => h) fun _ h => h)
        cases hnone _ htext

/-! ### Histories -/

/-- Every reply in a call is one of the environment. -/
theorem asked_speaksText {e : CallEntry} (henv : env.OverGemini) (he : e = agent.entry env e.before e.call) :
    SpeaksText fun q r => (⟨q, r⟩ : Event) ∈ e.asked := by
  intro depth req resp hx
  rw [he] at hx
  exact henv.speaksText depth req resp (Prog.answer_of_asked (handle env) hx)

/-- Only phase gates wait for a decision. -/
theorem stores_gate {skills : SkillRegistry} {clock : Nat} (henv : env.OverGemini) {calls : List ApiCall}
    {state : InterruptedState} (h : (agent.serve env (.start (World.fresh skills clock)) calls).state.Stores sid state) :
    ∃ id transition, state = .pendingPhaseGate id transition := by
  obtain ⟨e, he, horigin⟩ := (agent.provenance env skills clock calls).origin sid state h
  cases horigin with
  | gated hstate _ _ => exact ⟨_, _, hstate⟩
  | stopped hstops _ _ =>
    obtain ⟨policy, satisfied, -, hstopped⟩ := hstops.stopped
    have hentry := History.entry_of_past (fun e he => (by cases he)) calls e he
    exact absurd hstopped (asked_speaksText henv hentry).not_stopped

/-- A call starts steps of plans only, as long as only phase gates wait. -/
theorem planned_at (henv : env.OverGemini) (hgates : ∀ sid state, w.Stores sid state →
    ∃ id transition, state = .pendingPhaseGate id transition) {call : ApiCall} {x : Event}
    (hx : x ∈ (agent.entry env w call).asked) {d : Dispatch} (hd : x.1.dispatch? = some d) : agent.Planned d := by
  have hspares : ∀ (agent : Agent) skill names, agent.Spares (fun q r => ∃ w, r = (handle env q w).1)
      (fun d => ¬ agent.Planned d) skill names := fun agent => agent.spares_of_texts henv.speaksText
  by_contra hnot
  cases call with
  | invoke u s input =>
    rw [Agent.entry_eq (p := agent.invoke u s input) rfl] at hx
    exact invoke_spares env u s input w (fun p _ _ => hspares agent _ _)
      (fun x hx => Prog.answer_of_asked (handle env) hx) x hx d hd hnot
  | invokeStateless input =>
    rw [Agent.entry_eq (p := agent.invokeStateless input) rfl] at hx
    have hunguarded : agent.unguarded.Spares (fun q r => ∃ w, r = (handle env q w).1) (fun d => ¬ agent.Planned d) none
        agent.tools.toolNames :=
      (hspares agent.unguarded none agent.tools.toolNames).mono fun d h hp => h ⟨hp.depth, hp.callId, fun _ => hp.plans rfl⟩
    have hrun := invokeStateless_spares input hunguarded
    exact (hrun.run (handle env) w fun x hx => Prog.answer_of_asked (handle env) hx).1 x hx d hd hnot
  | resume u s id decision =>
    rw [Agent.entry_eq (p := agent.resume u s id decision) rfl] at hx
    obtain ⟨-, resolved, hres, c, hc, -⟩ := resume_spares env u s id decision w (fun resolved _ _ _ => hspares agent _ _)
      (fun x hx => Prog.answer_of_asked (handle env) hx) x hx d hd hnot
    -- No calls are pending at a phase gate.
    obtain ⟨approvalId, transition, hstate⟩ := hgates s resolved.state hres.stores
    rw [hstate] at hc
    cases decision <;> simp [InterruptedState.pendingCalls, InterruptedState.payload, decidedCalls] at hc
  | _ =>
    have hnone := ((agent.program_starts_nothing id).run (handle env) w) x hx
    rw [hnone] at hd
    cases hd

variable (agent) in
/-- What a history shows in which models answer with texts only: nothing but steps of plans is started, what waits for a
decision is a phase gate, and a fixed ReAct strategy answers only where it has no tool to offer. -/
structure TextsOnly (H : CallHistory) : Prop where
  planned : ∀ e ∈ H.past, ∀ x ∈ e.asked, ∀ d, x.1.dispatch? = some d → agent.Planned d
  gates : ∀ sid state, H.state.Stores sid state → ∃ id transition, state = .pendingPhaseGate id transition
  stateless : agent.kind = .react → ∀ e ∈ H.past, ∀ input text, e.call = .invokeStateless input →
    e.result = .ok (.text text) → agent.tools.tools = []
  invoked : agent.kind = .react → agent.strategyRouter = none → ∀ e ∈ H.past, ∀ userId sid input text,
    e.call = .invoke userId sid input → e.result = .ok (.output (.done text)) →
      agent.tools.toolDefinitionsFor (agent.activeToolNames (agent.boundContext e.before sid input)) = .ok []

/-- Every history of an agent whose models are Gemini models. -/
theorem texts_only (env : Env) (agent : Agent) (skills : SkillRegistry) (clock : Nat) (calls : List ApiCall)
    (henv : env.OverGemini) : agent.TextsOnly (agent.serve env (.start (World.fresh skills clock)) calls) where
  planned e he x hx d hd := by
    obtain ⟨pre, post, hsplit⟩ := List.append_of_mem he
    obtain ⟨before, call, rfl, rfl⟩ := History.split_calls rfl pre e post hsplit
    exact planned_at henv (fun sid state h => stores_gate henv h) hx hd
  gates sid state h := stores_gate henv h
  stateless hkind e he input text hcall hresult := by
    have hentry : e = agent.entry env e.before e.call := History.entry_of_past (fun e he => (by cases he)) calls e he
    have hB := asked_speaksText henv hentry
    rw [hcall, Agent.entry_eq (p := agent.invokeStateless input) rfl] at hentry
    rw [hentry] at hB hresult
    have htext : ((agent.invokeStateless input).run (handle env) ⟨e.before, []⟩).1 = .ok text := by
      obtain ⟨answer, hr, hanswer⟩ := map_eq_ok.mp hresult
      cases hanswer
      exact hr
    exact ToolRegistry.eq_nil_of_definitions
      (Prog.Meets.result (handle env) (agent.invokeStateless_toolless hB hkind input) text htext)
  invoked hkind hrouter e he userId sid input text hcall hresult := by
    have hentry : e = agent.entry env e.before e.call := History.entry_of_past (fun e he => (by cases he)) calls e he
    have hB := asked_speaksText henv hentry
    rw [hcall, Agent.entry_eq (p := agent.invoke userId sid input) rfl] at hentry
    rw [hentry] at hB hresult
    have htext : ((agent.invoke userId sid input).run (handle env) ⟨e.before, []⟩).1 = .ok (.done text) := by
      obtain ⟨out, hr, hout⟩ := map_eq_ok.mp hresult
      cases hout
      exact hr
    exact invoke_toolless hkind hrouter hB htext

/-- A manager of Gemini, and a fallback of the same. -/
def greeting : ConnectionManager :=
  let conn := { plainConnection with provider := GeminiProvider.provider fun _ => .ok ⟨[⟨"model", [⟨"hello"⟩]⟩]⟩ }
  .mk conn (some (.mk conn none))

/-- Each first request is answered by an error. -/
def greets : Env :=
  { Env.steady fun _ _ => .ofText "" with
    generate := fun _ _ req => ((greeting.generate 0 req).run (Http.handle .firstFails) ⟨⟨fun _ => .new 5 30, 0⟩, []⟩).1 }

theorem greets_overGemini : greets.OverGemini := fun _ _ req =>
  ⟨greeting, _, by simpa [greeting, ConnectionManager.chain] using ⟨_, rfl⟩, Prog.run_plays (Http.handle .firstFails) _ _⟩

/-- An agent with tools gets no answer, and one without gets the text of its model. -/
theorem texts_only_plain :
    (Agent.plain.entry greets (World.fresh ⟨[]⟩ 0) (.invokeStateless "hi")).result.toOption = none ∧
      ({ Agent.plain with tools := ⟨[], by decide⟩ }.entry greets (World.fresh ⟨[]⟩ 0)
        (.invokeStateless "hi")).result = .ok (.text "hello") ∧
      Agent.plain.TextsOnly (Agent.plain.serve greets (.start (World.fresh ⟨[]⟩ 0))
        [.createSession "u", .invoke "u" 0 "hi", .invokeStateless "hi"]) :=
  ⟨by decide +kernel, by decide +kernel, texts_only _ _ _ _ _ greets_overGemini⟩

end Agent

end AgentVerse
