import AgentVerse.Agent.Pending
import AgentVerse.Agent.Provenance
import AgentVerse.Agent.Starts

/-!
# The tools of a skill

A session that is bound to a skill is offered the tools on the list of the skill, and so is a run that was suspended
(`InterruptedState.Offered`). A routed strategy has no other tools, and a plan is checked against the list unless this
is empty. A fixed ReAct strategy, a plan without listed tools, a decision and a subagent execute what they are asked
for: the list is kept as long as they are asked for listed tools only (`list_kept`).
-/

namespace AgentVerse

open Effects

/-! ### What a suspended run was offered -/

/-- The tools that the suspended run goes on with are on the list of its skill. -/
def InterruptedState.Offered (state : InterruptedState) : Prop :=
  ∀ ctx, state.skillContext = some ctx → ∀ t ∈ state.activeToolNames, t ∈ ctx.tools

/-- A request that writes no other pending states than such ones. -/
def Request.Offers (q : Request) : Prop := ∀ sid state, q.Plants sid state → state.Offered

theorem Request.Barren.offers {q : Request} (h : q.Barren) : q.Offers := fun s state hplants =>
  absurd hplants (h s state)

/-- ReAct is interrupted with the names that it runs with. -/
theorem hitlLoop_names {B : (q : Request) → Reply q → Prop} (sk : CycleSkeleton) (names : List String)
    (hook : HitlHook) (remaining : Nat) (buf : List Message) (called : Bool) :
    (ReActStrategy.hitlLoop sk names hook remaining buf called).Meets B (fun _ => True)
      fun r => ∀ i, r = .ok (.interrupted i) → i.activeToolNames = names := by
  induction remaining generalizing buf called with
  | zero => intro i h; cases h
  | succ remaining ih =>
    unfold ReActStrategy.hitlLoop
    refine Prog.Meets.bind (meets_any _) (fun resp _ => ?_) (fun e _ i h => by cases h)
    cases actionFromResponse resp with
    | toolCalls calls =>
      refine Prog.Meets.bind (meets_any _) (fun x _ => ?_) (fun e _ i h => by cases h)
      cases x with
      | ok results => exact ih ..
      | error interrupt =>
        intro i h
        cases h
        rfl
    | done answer =>
      dsimp only
      split
      · intro i h; cases h
      · exact ih ..
    | error message => intro i h; cases h

namespace Agent

variable (agent : Agent)

theorem runStrategy_names {B : (q : Request) → Reply q → Prop} {strategy : RunStrategy} (hs : agent.MayRun strategy)
    (messages : List Message) (names : List String) (ctx : HitlPolicy → HitlContext) :
    (agent.runStrategy strategy messages names ctx).Meets B (fun _ => True)
      fun r => ∀ i, r = .ok (.interrupted i) → i.activeToolNames = names := by
  obtain ⟨kind, tools, n, rfl, -⟩ := hs
  have hhook : (agent.runStrategy (buildStrategy kind (agent.skeleton tools n)) messages names ctx).Meets B _ _ :=
    agent.runStrategy_meets (W := fun _ => False) (fun _ _ _ => callsAvoid_false 1 _ _) (fun _ _ _ _ _ _ h => h.elim)
      (fun _ _ _ _ _ _ _ _ _ _ h => h) tools n messages names
  -- Only ReAct under a policy is ever interrupted.
  have hnever : (∀ policy, agent.hitl = some policy → kind ≠ .react) →
      (agent.runStrategy (buildStrategy kind (agent.skeleton tools n)) messages names ctx).Meets B (fun _ => True)
        fun r => ∀ i, r = .ok (.interrupted i) → i.activeToolNames = names := fun hnot =>
    Prog.Meets.mono hhook (fun _ _ h => h) (fun _ _ => trivial) fun r hr i hi => by
      obtain ⟨policy, hpolicy, hkind, -⟩ := hr i hi
      exact absurd hkind (hnot policy hpolicy)
  cases hh : agent.hitl with
  | none => exact hnever fun policy hpolicy => by rw [hh] at hpolicy; cases hpolicy
  | some policy =>
    cases kind with
    | react =>
      unfold runStrategy
      rw [hh]
      refine Prog.Meets.mapErr (hitlLoop_names (agent.skeleton tools n) names (ctx policy).hook _ _ _)
        fun r hr i h => ?_
      cases r with
      | ok a => cases h; exact hr i rfl
      | error e => cases h
    | plan | hierarchical => exact hnever fun _ _ h => by cases h

theorem runPrepared_names {B : (q : Request) → Reply q → Prop} (userId : String) (sid : SessionId) (p : Prepared) :
    (agent.runPrepared userId sid p).Meets B (fun _ => True)
      fun r => ∀ i, r = .ok (.interrupted i) → i.activeToolNames = agent.activeToolNames p.skillCtx := by
  refine Prog.Meets.bind (meets_any _) (fun longTerm _ => ?_) fun e _ i h => by cases h
  refine Prog.Meets.bind (Prog.Meets.mono (agent.strategyForInvoke_meets (W := fun _ => False) p.input
    (agent.activeToolNames p.skillCtx)) (fun _ _ h => h) (fun _ _ => trivial) fun _ h => h) (fun strategy hs => ?_)
    fun e _ i h => by cases h
  exact agent.runStrategy_names (hs strategy rfl) _ _ _

/-- The state of an interrupt is one of a run in the context, with the names of the interrupt. -/
theorem offered_interruptedState {i : HitlInterrupt} {skillCtx : Option SkillContext} (kind : InterruptKind)
    (h : ∀ ctx, skillCtx = some ctx → ∀ t ∈ i.activeToolNames, t ∈ ctx.tools) :
    (interruptedState i kind skillCtx).Offered := by
  intro ctx hctx t ht
  rw [skillContext_interruptedState] at hctx
  have hnames : (interruptedState i kind skillCtx).activeToolNames = i.activeToolNames := by cases kind <;> rfl
  exact h ctx hctx t (hnames ▸ ht)

theorem handleToolInterrupt_offers (sid : SessionId) {i : HitlInterrupt} {skillCtx : Option SkillContext}
    (h : ∀ ctx, skillCtx = some ctx → ∀ t ∈ i.activeToolNames, t ∈ ctx.tools) :
    (handleToolInterrupt sid i skillCtx).Only Request.Offers := by
  unfold handleToolInterrupt
  split
  · trivial
  · rename_i kind _
    refine Prog.Only.bind (Prog.Only.mono (twoWrites_only ..) fun q hq s state hplants => ?_) fun _ => trivial
    have hstate : state = interruptedState i kind skillCtx := by
      simpa [JsonText.ofValue, eq_comm] using (hq.plants hplants).2
    exact hstate ▸ offered_interruptedState kind h

/-- The tools that a session bound to a skill is offered are on the list. -/
theorem listed_of_activeToolNames {ctx : SkillContext} {t : String} (h : t ∈ agent.activeToolNames (some ctx)) :
    t ∈ ctx.tools := List.mem_of_mem_filter h

theorem invoke_offers (userId : String) (sid : SessionId) (input : String) :
    (agent.invoke userId sid input).Only Request.Offers := by
  refine Prog.Only.bind (Prog.Only.mono (agent.prepare_only (s := sid) userId input) fun _ h => h.barren.offers)
    fun p => ?_
  have hrun : (agent.runPrepared userId sid p).Meets (fun _ _ => True) Request.Offers
      fun r => ∀ i, r = .ok (.interrupted i) → i.activeToolNames = agent.activeToolNames p.skillCtx :=
    Prog.Meets.mono ((agent.runPrepared_only (s := sid) userId p).and (agent.runPrepared_names userId sid p))
      (fun _ _ h => h) (fun _ h => h.1.barren.offers) fun _ h => h.2
  refine Prog.Meets.bind hrun (fun outcome hnames => ?_) fun _ _ => trivial
  cases outcome with
  | done text => exact Prog.Only.mono (agent.keepTurn_only (s := sid) userId p.input text) fun _ h => h.barren.offers
  | interrupted i =>
    refine handleToolInterrupt_offers sid fun ctx hctx t ht => ?_
    rw [hnames i rfl, hctx] at ht
    exact agent.listed_of_activeToolNames ht

theorem continueRun_offers (sid : SessionId) {state : InterruptedState} (h : state.Offered) (messages : List Message) :
    (agent.continueRun sid state messages).Only Request.Offers := by
  have hrun : (agent.runStrategy (agent.strategyForResume state.activeToolNames) messages state.activeToolNames
      (HitlContext.newForResume sid (state.skillContext.map SkillContext.skillId))).Meets (fun _ _ => True)
        Request.Offers fun r => ∀ i, r = .ok (.interrupted i) → i.activeToolNames = state.activeToolNames := by
    have hmay := agent.strategyForResume_mayRun state.activeToolNames
    obtain ⟨kind, tools, n, hs, -⟩ := id hmay
    rw [hs] at hmay ⊢
    exact Prog.Meets.mono ((agent.runStrategy_only kind tools n messages state.activeToolNames _).and
      (agent.runStrategy_names hmay messages state.activeToolNames _)) (fun _ _ h => h)
      (fun _ h => h.1.barren.offers) fun _ h => h.2
  refine Prog.Meets.bind hrun (fun outcome hnames => ?_) fun _ _ => trivial
  cases outcome with
  | done text => trivial
  | interrupted i =>
    refine handleToolInterrupt_offers sid fun ctx hctx t ht => h ctx hctx t ?_
    rw [hnames i rfl] at ht
    exact ht

theorem resumeAct_offers (sid : SessionId) {resolved : Resolved} (h : resolved.state.Offered)
    (decision : ApprovalDecision) : (agent.resumeAct sid resolved decision).Only Request.Offers := by
  obtain ⟨state, payload⟩ := resolved
  have hact : ∀ history pending,
      (agent.resumeToolCallOrCheckpoint sid state decision history pending).Only Request.Offers := by
    intro history pending
    exact Prog.Only.bind (Prog.Only.mono (agent.observation_only ..) fun _ h => h.barren.offers) fun text =>
      agent.continueRun_offers sid h _
  unfold resumeAct
  cases state with
  | pendingPhaseGate id transitionJson =>
    exact Prog.Only.mono (agent.resumePhaseGate_only (s := sid) transitionJson decision) fun _ h =>
      h.ofTurn.barren.offers
  | pendingToolCall | pendingCheckpoint =>
    cases payload with
    | some x => exact hact _ _
    | none => trivial

/-- A resume of an offered run leaves offered ones. -/
theorem resume_offers (env : Env) (userId : String) (sid : SessionId) (id : ApprovalId) (decision : ApprovalDecision)
    {w : World} (h : ∀ sid state, w.Stores sid state → state.Offered) :
    ∀ x ∈ ((agent.resume userId sid id decision).run (handle env) ⟨w, []⟩).2.trace, x.1.Offers := by
  have hclear : ∀ {q : Request}, q.Idle ∨ q.OfWrites sid none .active → q.Offers := by
    rintro q (hq | hq)
    · exact hq.barren.offers
    · intro s state hplants
      cases (hq.plants hplants).2
  have hquiet : ∀ {c' : Config Reply World}, Reaches (handle env) (fun q => q.Idle ∨ q.OfWrites sid none .active)
      ⟨w, []⟩ c' → ∀ x ∈ c'.trace, x.1.Offers := by
    intro c' hr x hx
    obtain ⟨t, ht, hq⟩ := hr.trace
    rw [ht] at hx
    exact hclear (hq x hx)
  have hend := agent.resume_end env userId sid id decision w
  generalize (agent.resume userId sid id decision).run (handle env) ⟨w, []⟩ = x at hend ⊢
  cases hend with
  | kept _ _ hr => exact hquiet hr
  | halfway _ _ _ _ _ hr => exact hquiet hr
  | @acted resolved hres _ _ _ =>
    obtain ⟨t, ht, hq⟩ := ((agent.resumeAct_offers sid (h sid _ hres.stores) decision).reaches (h := handle env)
      ⟨cleared env sid w, clearing env sid w⟩).trace
    intro x hx
    rw [ht] at hx
    rcases List.mem_append.mp hx with hx | hx
    · exact hclear (clearing_asked x hx)
    · exact hq x hx

/-! ### The rule -/

/-- The skill that the session is bound to. -/
def boundTo (w : World) (sid : SessionId) : Option SkillContext :=
  ((w.store.row? sid).bind (·.skillContextJson)).bind fun json => json.fromStr.toOption

/-- The skill that the session of an invocation or a resume is bound to, for an invocation once it has routed. -/
def runContext (e : CallEntry) : Option SkillContext :=
  match e.call with
  | .invoke _ sid input => agent.boundContext e.before sid input
  | .resume _ sid _ _ => boundTo e.before sid
  | _ => none

/-- Every tool that the call executes is on the list of the skill that its session is bound to. -/
def ListKept (e : CallEntry) : Prop :=
  ∀ ctx, agent.runContext e = some ctx → ∀ x ∈ e.asked, ∀ d, x.1.dispatch? = some d → d.tool ∈ ctx.tools

/-- The list is kept in every call of the history. -/
def ListsKept (H : CallHistory) : Prop := ∀ e ∈ H.past, agent.ListKept e

/-- A skill without tools executes none. -/
theorem ListKept.empty {agent : Agent} {e : CallEntry} (h : agent.ListKept e) {ctx : SkillContext}
    (hctx : agent.runContext e = some ctx) (hempty : ctx.tools = []) : ∀ x ∈ e.asked, x.1.dispatch? = none := by
  intro x hx
  refine Option.eq_none_iff_forall_not_mem.mpr fun d hd => ?_
  have hlisted := h ctx hctx x hx d hd
  rw [hempty] at hlisted
  cases hlisted

/-- The tools that are not on the list. -/
def Unlisted (ctx : SkillContext) (d : Dispatch) : Prop := d.tool ∉ ctx.tools

/-- What nothing checks against the list: subagents, the calls of a fixed ReAct strategy, and the plans of a fixed
strategy when no tool of the list is registered. -/
structure AsksListed (t : List Event) (ctx : SkillContext) (names : List String) : Prop where
  subagents : agent.SubagentsSpare (fun q r => ⟨q, r⟩ ∈ t) (Unlisted ctx)
  calls : agent.strategyRouter = none → agent.kind = .react →
    agent.CallsSpare (fun q r => ⟨q, r⟩ ∈ t) (Unlisted ctx) (some ctx.skillId) agent.tools
  plans : agent.strategyRouter = none → agent.kind ≠ .react → names = [] →
    agent.PlansSpare (fun q r => ⟨q, r⟩ ∈ t) (Unlisted ctx) [] agent.tools

/-- A resume goes on under the skill of the session, and a fixed strategy leaves it only listed tools to decide on. -/
structure ResumesListed (e : CallEntry) (ctx : SkillContext) (decision : ApprovalDecision) (state : InterruptedState) :
    Prop where
  context : state.skillContext = some ctx
  replies : agent.AsksListed e.asked ctx state.activeToolNames
  decided : agent.strategyRouter = none → ∀ c ∈ decidedCalls decision state.pendingCalls,
    agent.tools.hasTool c.name = true → c.name ∈ ctx.tools

/-- The call is asked for listed tools wherever nothing checks the list. -/
def WithinList (env : Env) (e : CallEntry) : Prop :=
  ∀ ctx, agent.runContext e = some ctx →
    match e.call with
    | .resume userId sid id decision => Accepts env e.before userId sid id → ∀ resolved,
        Resumable env e.before userId sid id resolved → resolved.payload.isSome →
          agent.ResumesListed e ctx decision resolved.state
    | _ => agent.AsksListed e.asked ctx (agent.activeToolNames (some ctx))

/-! ### Runs -/

variable {agent} {env : Env}

theorem mem_of_hasTool_restricted {reg : ToolRegistry} {names : List String} {name : String}
    (h : (reg.restrictedToNames names).hasTool name = true) : name ∈ names := by
  obtain ⟨t, ht⟩ := Option.isSome_iff_exists.mp h
  obtain ⟨hmem, rfl⟩ := ToolRegistry.get_mem _ ht
  simpa using (List.mem_filter.mp hmem).2

/-- Under a router, only tools with the names of the run are executed. -/
theorem listed_of_routed {ctx : SkillContext} {names : List String} (hnames : ∀ t ∈ names, t ∈ ctx.tools)
    {router : StrategyRouter} (hrouter : agent.strategyRouter = some router) {name : String}
    (h : (agent.executionTools names).hasTool name = true) : name ∈ ctx.tools := by
  rw [executionTools, hrouter] at h
  exact hnames name (mem_of_hasTool_restricted h)

/-- A run is offered listed tools; where it is asked for listed tools, it starts only such. -/
theorem AsksListed.spares {t : List Event} {ctx : SkillContext} {names : List String}
    (h : agent.AsksListed t ctx names) (hnames : ∀ t ∈ names, t ∈ ctx.tools) :
    agent.Spares (fun q r => ⟨q, r⟩ ∈ t) (Unlisted ctx) (some ctx.skillId) names where
  subagents := h.subagents
  calls hkind req resp hresp hpass c hc hhas hunlisted := by
    cases hrouter : agent.strategyRouter with
    | none =>
      rw [executionTools, hrouter] at hhas
      exact h.calls hrouter (hkind hrouter) req resp hresp hpass c hc hhas hunlisted
    | some router => exact hunlisted (listed_of_routed hnames hrouter hhas)
  plans hkind _ req resp hresp plan hplan step hstep t ht hcheck hhas hunlisted := by
    cases hrouter : agent.strategyRouter with
    | none =>
      rw [executionTools, hrouter] at hhas
      rcases hcheck with hempty | hmem
      · exact h.plans hrouter (hkind hrouter) hempty req resp hresp plan hplan step hstep t ht (.inl rfl) hhas hunlisted
      · exact hunlisted (hnames t hmem)
    | some router => exact hunlisted (listed_of_routed hnames hrouter hhas)

theorem invoke_listed {userId input : String} {sid : SessionId} {w : World}
    (hC : agent.WithinList env (agent.entry env w (.invoke userId sid input))) :
    agent.ListKept (agent.entry env w (.invoke userId sid input)) := by
  intro ctx hctx x hx d hd
  have hasks := hC ctx hctx
  rw [Agent.entry_eq (p := agent.invoke userId sid input) rfl] at hx hasks hctx
  have hspares : ∀ p c, (agent.prepare userId sid input).run (handle env) ⟨w, []⟩ = (.ok p, c) →
      agent.Spares (fun q r => ⟨q, r⟩ ∈ ((agent.invoke userId sid input).run (handle env) ⟨w, []⟩).2.trace)
        (Unlisted ctx) (p.skillCtx.map (·.skillId)) (agent.activeToolNames p.skillCtx) := by
    intro p c hp
    rw [(agent.prepare_ok hp).2.2.1.trans hctx]
    exact AsksListed.spares hasks fun t => agent.listed_of_activeToolNames
  by_contra hunlisted
  exact invoke_spares env userId sid input w hspares (fun _ h => h) x hx d hd hunlisted

/-- A pending call is one of a run that has a history. -/
theorem payload_of_decided {userId : String} {sid : SessionId} {id : ApprovalId} {decision : ApprovalDecision}
    {w : World} {resolved : Resolved} (h : Resumable env w userId sid id resolved) {c : ToolCall}
    (hc : c ∈ decidedCalls decision resolved.state.pendingCalls) : resolved.payload.isSome := by
  rw [InterruptedState.pendingCalls, h.payload] at hc
  cases hpay : resolved.payload with
  | some x => rfl
  | none =>
    rw [hpay] at hc
    cases decision <;> cases hc

theorem resume_listed {userId : String} {sid : SessionId} {id : ApprovalId} {decision : ApprovalDecision} {w : World}
    (hoffered : ∀ sid state, w.Stores sid state → state.Offered)
    (hC : agent.WithinList env (agent.entry env w (.resume userId sid id decision))) :
    agent.ListKept (agent.entry env w (.resume userId sid id decision)) := by
  intro ctx hctx x hx d hd
  have hlisted := hC ctx hctx
  rw [Agent.entry_eq (p := agent.resume userId sid id decision) rfl] at hx hlisted
  have hnames : ∀ resolved, Resumable env w userId sid id resolved → resolved.state.skillContext = some ctx →
      ∀ t ∈ resolved.state.activeToolNames, t ∈ ctx.tools := fun resolved hres => hoffered sid _ hres.stores ctx
  have hspares : ∀ resolved, Accepts env w userId sid id → Resumable env w userId sid id resolved →
      resolved.payload.isSome →
        agent.Spares (fun q r => ⟨q, r⟩ ∈ ((agent.resume userId sid id decision).run (handle env) ⟨w, []⟩).2.trace)
          (Unlisted ctx) (resolved.state.skillContext.map (·.skillId)) resolved.state.activeToolNames := by
    intro resolved hacc hres hpay
    have h := hlisted hacc resolved hres hpay
    rw [h.context]
    exact AsksListed.spares h.replies (hnames resolved hres h.context)
  by_contra hunlisted
  obtain ⟨hacc, resolved, hres, c, hc, hhas, rfl⟩ := resume_spares env userId sid id decision w hspares (fun _ h => h) x
    hx d hd hunlisted
  have h := hlisted hacc resolved hres (payload_of_decided hres hc)
  cases hrouter : agent.strategyRouter with
  | none =>
    rw [executionTools, hrouter] at hhas
    exact hunlisted (h.decided hrouter c hc hhas)
  | some router => exact hunlisted (listed_of_routed (hnames resolved hres h.context) hrouter hhas)

/-- Every call leaves offered runs only. -/
theorem offered_next {w : World} (h : ∀ sid state, w.Stores sid state → state.Offered) (call : ApiCall) :
    ∀ sid state, (agent.entry env w call).after.Stores sid state → state.Offered := by
  intro sid state hstores
  rcases stores_of_reaches (agent.entry_reaches env w call) hstores with hstores | ⟨x, hx, hplants⟩
  · exact h sid state hstores
  · cases call with
    | invoke u s input =>
      rw [Agent.entry_eq (p := agent.invoke u s input) rfl] at hx
      exact (agent.invoke_offers u s input).run (handle env) w x hx sid state hplants
    | resume u s id decision =>
      rw [Agent.entry_eq (p := agent.resume u s id decision) rfl] at hx
      exact agent.resume_offers env u s id decision h x hx sid state hplants
    | advancePhase u s output =>
      -- A gate suspends a session without a run, so without a context.
      rw [Agent.entry_eq (p := agent.advancePhase u s output) (f := .phase) rfl] at hx
      obtain ⟨hasked, -⟩ := Prog.Meets.run (handle env) (agent.advancePhase_plants u output fun _ _ => True) w
        fun _ _ => trivial
      obtain ⟨-, id, transition, kind, rfl, -⟩ := hasked x hx sid state hplants
      exact fun ctx hctx => by cases hctx
    | _ => exact absurd hplants ((agent.program_barren (by simp) (by simp) (by simp)).run (handle env) w x hx sid state)

/-- In every history in which the agent is asked for listed tools wherever nothing checks the list, every tool that it
executes is on the list of the skill that the session is bound to. -/
theorem list_kept (env : Env) (agent : Agent) (skills : SkillRegistry) (clock : Nat) (calls : List ApiCall)
    (hC : (CallHistory.start (World.fresh skills clock)).Conforms (handle env) agent.program
      (fun _ e => agent.WithinList env e) calls) :
    agent.ListsKept (agent.serve env (.start (World.fresh skills clock)) calls) := by
  refine History.entries (I := fun H => ∀ sid state, H.state.Stores sid state → state.Offered)
    (fun H call hH hC => ⟨offered_next hH call, ?_⟩) (fun sid state h => ?_) (fun e he => by cases he) hC
  · cases call with
    | invoke u s input => exact invoke_listed hC
    | resume u s id decision => exact resume_listed hH hC
    | _ => exact fun ctx hctx => by cases hctx
  · obtain ⟨row, hrow, -⟩ := h
    cases hrow

/-- A listed tool is executed. -/
theorem list_kept_draft : Agent.gated.ListsKept (Agent.gated.serve (.asksFor ["read_file"])
    (.start (World.fresh ⟨[.draft]⟩ 0)) [.createSessionWithSkill "u" "draft", .invoke "u" 0 ""]) := by
  refine list_kept _ .gated ⟨[.draft]⟩ 0 _ ⟨fun ctx hctx => (by cases hctx), fun ctx hctx => ?_, trivial⟩
  have hbound : Agent.gated.runContext (Agent.gated.entry (.asksFor ["read_file"]) (Agent.gated.serve
      (.asksFor ["read_file"]) (.start (World.fresh ⟨[.draft]⟩ 0)) [.createSessionWithSkill "u" "draft"]).state
      (.invoke "u" 0 "")) = some ⟨"draft", "", [], ["read_file", "file_delete", "exec_command"], none⟩ := by
    decide +kernel
  obtain rfl := Option.some.inj (hbound.symm.trans hctx)
  have hasked : ∀ x ∈ (Agent.gated.entry (.asksFor ["read_file"]) (Agent.gated.serve (.asksFor ["read_file"])
      (.start (World.fresh ⟨[.draft]⟩ 0)) [.createSessionWithSkill "u" "draft"]).state (.invoke "u" 0 "")).asked,
      ∀ c ∈ modelCalls x, c.name ∈ ["read_file", "file_delete", "exec_command"] := by
    decide +kernel
  exact ⟨fun _ _ _ h => (by cases h), fun _ _ req resp hresp _ c hc _ h => h (hasked _ hresp c hc),
    fun _ h => absurd rfl h⟩

/-- A skill without tools. -/
def toolless : Skill := { Skill.draft with id := "toolless", tools := [] }

/-- A fixed ReAct strategy executes a tool that it was not offered, under a skill without any. -/
theorem unlisted_executed : ¬ Agent.gated.ListsKept (Agent.gated.serve (.asksFor ["read_file"])
    (.start (World.fresh ⟨[toolless]⟩ 0)) [.createSessionWithSkill "u" "toolless", .invoke "u" 0 ""]) := by
  intro h
  have hbound : Agent.gated.runContext (Agent.gated.entry (.asksFor ["read_file"]) (Agent.gated.serve
      (.asksFor ["read_file"]) (.start (World.fresh ⟨[toolless]⟩ 0)) [.createSessionWithSkill "u" "toolless"]).state
      (.invoke "u" 0 "")) = some ⟨"toolless", "", [], [], none⟩ := by decide +kernel
  have hran : ∃ x ∈ (Agent.gated.entry (.asksFor ["read_file"]) (Agent.gated.serve (.asksFor ["read_file"])
      (.start (World.fresh ⟨[toolless]⟩ 0)) [.createSessionWithSkill "u" "toolless"]).state (.invoke "u" 0 "")).asked,
      x.1.dispatch? = some ⟨0, some "read_file", "read_file", .null⟩ := by decide +kernel
  obtain ⟨x, hx, hd⟩ := hran
  cases h _ (List.mem_append_right _ (List.mem_singleton_self _)) _ hbound x hx _ hd

end Agent

end AgentVerse
