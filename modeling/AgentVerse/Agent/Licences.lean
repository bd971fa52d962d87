import AgentVerse.Agent.Mandatory
import AgentVerse.Agent.Starts

/-!
# Executions and their approvals

A resume that is let act consumes the pending state, and approval ids are not drawn twice: no two calls act under one
approval (`acts_once`). Of the calls that the hook would stop, a turn executes what the decision of such a resume is
about, the call that was shown and those of its batch behind it (`stopped_tasks`). So each execution has an approval
of its own, except for the rest of a batch (`approvedEach_of_acts`).
-/

namespace AgentVerse

open Effects

variable {env : Env} {w : World} {sid : SessionId}

/-! ### Approvals of single executions -/

/-- The session and the approval that a resume names. -/
def ApiCall.approval? : ApiCall → Option (SessionId × ApprovalId)
  | resume _ sid id _ => some (sid, id)
  | _ => none

/-- The call is a resume under the approval, and is let act. -/
def ActsUnder (env : Env) (e : CallEntry) (a : SessionId × ApprovalId) : Prop :=
  ∃ userId decision, e.call = .resume userId a.1 a.2 decision ∧ Agent.Accepts env e.before userId a.1 a.2

/-- Within the calls, an approval was asked for a call of this tool, and a resume that was let act under this approval
allowed these arguments. -/
def Allows (env : Env) (Asks : CallEntry → SessionId → InterruptKind → ApprovalId → Prop) (es : List CallEntry)
    (d : Dispatch) (a : SessionId × ApprovalId) : Prop :=
  ∃ e ∈ es, ∃ e' ∈ es, ∃ args userId decision, Asks e a.1 (.toolApproval d.tool args) a.2 ∧
    e'.call = .resume userId a.1 a.2 decision ∧ Agent.Accepts env e'.before userId a.1 a.2 ∧
      (decision = .approved ∧ args = d.args ∨ decision = .modified d.args)

/-- The executions `tasks` of the calls of a history have approvals that were given by then in the session, each its
own, apart from those in `rest`. -/
def ApprovedEach (Approves : List CallEntry → Dispatch → SessionId × ApprovalId → Prop)
    (tasks rest : CallEntry → List Dispatch) (H : CallHistory) : Prop :=
  ∃ approvals : CallEntry → List (SessionId × ApprovalId), (H.past.flatMap approvals).Nodup ∧
    ∀ pre e post, H.past = pre ++ e :: post → ∃ own, (tasks e).Subperm (own ++ rest e) ∧
      List.Forall₂ (fun d a => e.call.TakesTurn a.1 ∧ Approves (pre ++ [e]) d a) own (approvals e)

/-- Within the calls the hook asked for the approval, whether or not the queue took the request. -/
def Consulted (e : CallEntry) : SessionId → InterruptKind → ApprovalId → Prop :=
  Submitted fun q r => (⟨q, r⟩ : Event) ∈ e.asked

theorem ActsUnder.approval? {e : CallEntry} {a : SessionId × ApprovalId} (h : ActsUnder env e a) :
    e.call.approval? = some a := by
  obtain ⟨userId, decision, hcall, -⟩ := h
  rw [hcall]
  rfl

theorem ActsUnder.stores {e : CallEntry} {a : SessionId × ApprovalId} (h : ActsUnder env e a) :
    ∃ state, e.before.Stores a.1 state ∧ state.approvalId = a.2 := by
  obtain ⟨userId, decision, -, ⟨resolved, hres⟩, -⟩ := h
  exact ⟨resolved.state, hres.stores, hres.approval⟩

/-- Where nothing is left out, every execution is approved. -/
theorem ApprovedEach.approved {Approves : List CallEntry → Dispatch → SessionId × ApprovalId → Prop}
    {tasks : CallEntry → List Dispatch} {H : CallHistory} (h : ApprovedEach Approves tasks (fun _ => []) H)
    {pre post : List CallEntry} {e : CallEntry} (hpast : H.past = pre ++ e :: post) {d : Dispatch} (hd : d ∈ tasks e) :
    ∃ a, Approves (pre ++ [e]) d a := by
  obtain ⟨approvals, -, h⟩ := h
  obtain ⟨own, hsub, hown⟩ := h pre e post hpast
  rw [List.append_nil] at hsub
  obtain ⟨i, hi, rfl⟩ := List.mem_iff_getElem.mp (hsub.subset hd)
  exact ⟨_, (hown.get hi (hown.length_eq ▸ hi)).2⟩

/-- A history whose calls act under an approval once, each starting one task that it allows and the rest. -/
theorem approvedEach_of_acts {Approves : List CallEntry → Dispatch → SessionId × ApprovalId → Prop}
    {tasks rest : CallEntry → List Dispatch} {H : CallHistory}
    (honce : H.past.Pairwise fun e e' => ∀ a, ActsUnder env e a → ¬ ActsUnder env e' a)
    (hacts : ∀ pre e post, H.past = pre ++ e :: post → tasks e = [] ∨ ∃ d a, (tasks e).Subperm (d :: rest e) ∧
      ActsUnder env e a ∧ e.call.TakesTurn a.1 ∧ Approves (pre ++ [e]) d a) :
    ApprovedEach Approves tasks rest H := by
  have hsplit : ∀ e ∈ H.past, tasks e ≠ [] → ∃ a, ActsUnder env e a := fun e he hne => by
    obtain ⟨pre, post, hpast⟩ := List.append_of_mem he
    obtain ⟨d, a, -, ha, -⟩ := (hacts pre e post hpast).resolve_left hne
    exact ⟨a, ha⟩
  refine ⟨fun e => if tasks e = [] then [] else e.call.approval?.toList, List.nodup_flatMap.mpr ⟨fun e he => ?_, ?_⟩,
    fun pre e post hpast => ?_⟩
  · split
    · exact List.nodup_nil
    · cases e.call.approval? <;> simp
  · refine List.Pairwise.imp_of_mem (fun {e e'} he he' hone => ?_) honce
    dsimp only [Function.onFun]
    by_cases hne : tasks e = []
    · simp [hne]
    by_cases hne' : tasks e' = []
    · simp [hne']
    obtain ⟨a, ha⟩ := hsplit e he hne
    obtain ⟨a', ha'⟩ := hsplit e' he' hne'
    have hdiffer : a ≠ a' := fun h => hone a ha (h ▸ ha')
    rw [if_neg hne, if_neg hne', ha.approval?, ha'.approval?]
    simpa [eq_comm] using hdiffer
  · rcases hacts pre e post hpast with hnone | ⟨d, a, hsub, ha, hturn, happroves⟩
    · exact ⟨[], by rw [hnone]; exact List.nil_subperm, by simp [hnone]⟩
    · by_cases hnone : tasks e = []
      · exact ⟨[], by rw [hnone]; exact List.nil_subperm, by simp [hnone]⟩
      · exact ⟨[d], hsub, by simpa [hnone, ha.approval?] using ⟨hturn, happroves⟩⟩

namespace Agent

/-! ### Approvals act once -/

/-- Nothing is pending in the session when a decision takes effect. -/
theorem cleared_unstored (h : env.storeError (w.steps + 2) = none) (state : InterruptedState) :
    ¬ (cleared env sid w).Stores sid state := by
  intro hstores
  have hsteps : (afterChecks env sid ⟨w, []⟩).state.steps = w.steps + 2 := by simp [afterChecks]
  have hr : Reaches (handle env) (fun q => q.Idle ∨ q.OfWrites sid none .active)
      ((afterChecks env sid ⟨w, []⟩).after (handle env) (.sql (.updateInterruptedState sid none)))
      (afterWrites env sid none .active (afterChecks env sid ⟨w, []⟩)) :=
    .step (.inr ⟨rfl, rfl⟩) (.step (.inl trivial) .refl)
  rcases stores_of_reaches hr hstores with hstores | ⟨x, hx, hplants⟩
  · obtain ⟨n, hok⟩ : ∃ n, (handle env (.sql (.updateInterruptedState sid none))
        (afterChecks env sid ⟨w, []⟩).state).1 = .ok n := by
      rw [handle_sql_ok _ (hsteps ▸ h)]
      exact ⟨_, rfl⟩
    exact cleared_stores hok state hstores
  · have hasked : x.1.Idle ∨ x.1.OfWrites sid none .active := clearing_asked x hx
    rcases hasked with hq | hq
    · exact hq.barren sid state hplants
    · cases (hq.plants hplants).2

/-- The history so far, as far as it concerns approvals that are used up. -/
structure Spent (agent : Agent) (env : Env) (H : CallHistory) : Prop where
  provenance : agent.Provenance H
  entries : ∀ e ∈ H.past, e = agent.entry env e.before e.call
  below : ∀ e ∈ H.past, ∀ a, ActsUnder env e a → a.2 < H.state.nextUuid
  gone : ∀ e ∈ H.past, ∀ a, ActsUnder env e a → ∀ state, H.state.Stores a.1 state → state.approvalId ≠ a.2
  once : H.past.Pairwise fun e e' => ∀ a, ActsUnder env e a → ¬ ActsUnder env e' a

variable {agent : Agent}

/-- The ids of pending states are drawn. -/
theorem Spent.drawn {H : CallHistory} (h : agent.Spent env H) {state : InterruptedState}
    (hstores : H.state.Stores sid state) : state.approvalId < H.state.nextUuid := by
  obtain ⟨e, he, horigin⟩ := h.provenance.origin sid state hstores
  obtain ⟨x, hx, hdraws⟩ := horigin.draws
  have hr := agent.entry_reaches env e.before e.call
  rw [← h.entries e he] at hr
  exact Nat.lt_of_lt_of_le (draws_of_reaches hr hx hdraws).2 (h.provenance.bounded e he)

/-- A state that a call writes is pending under an id that was not drawn before. -/
theorem planted_fresh {call : ApiCall} {x : Event} (hx : x ∈ (agent.entry env w call).asked) {state : InterruptedState}
    (hplants : x.1.Plants sid state) : w.nextUuid ≤ state.approvalId := by
  have horigin : agent.Origin sid state (agent.entry env w call) := origin_of_plants rfl hx hplants
  obtain ⟨y, hy, hdraws⟩ := horigin.draws
  exact (draws_of_reaches (agent.entry_reaches env w call) hy hdraws).1

/-- After a resume under the approval, nothing is pending under it. -/
theorem gone_after {call : ApiCall} {a : SessionId × ApprovalId} (hacts : ActsUnder env (agent.entry env w call) a)
    (hdrawn : a.2 < w.nextUuid) {state : InterruptedState} (hstores : (agent.entry env w call).after.Stores a.1 state) :
    state.approvalId ≠ a.2 := by
  obtain ⟨userId, decision, hcall, ⟨resolved, hres⟩, h₂, h₄⟩ := hacts
  obtain rfl : call = .resume userId a.1 a.2 decision := hcall
  have hfresh : ∀ x ∈ (agent.entry env w (.resume userId a.1 a.2 decision)).asked, x.1.Plants a.1 state →
      w.nextUuid ≤ state.approvalId := fun x hx hplants => planted_fresh hx hplants
  rw [Agent.entry_eq (p := agent.resume userId a.1 a.2 decision) rfl] at hstores hfresh
  have hrun := agent.resume_acts (w := w) hres h₂ h₄ decision
  rw [hrun] at hstores hfresh
  rcases stores_of_reaches ((Prog.only_true _).reaches _) hstores with hstores | ⟨x, hx, hplants⟩
  · exact absurd hstores (cleared_unstored h₂ state)
  · exact fun heq => absurd (heq ▸ hfresh x hx hplants) (Nat.not_le_of_lt hdrawn)

theorem Spent.next {H : CallHistory} (h : agent.Spent env H) (call : ApiCall) :
    agent.Spent env (H.next (handle env) agent.program call) := by
  have hr := agent.entry_reaches env H.state call
  have hle : H.state.nextUuid ≤ (agent.entry env H.state call).after.nextUuid := nextUuid_le hr
  have hdrawn : ∀ a, ActsUnder env (agent.entry env H.state call) a → a.2 < H.state.nextUuid := fun a ha => by
    obtain ⟨state, hstores, hid⟩ := ha.stores
    exact hid ▸ h.drawn hstores
  refine {
    provenance := h.provenance.next env call
    entries := History.forall_next h.entries rfl
    below := History.forall_next (fun e he a ha => Nat.lt_of_lt_of_le (h.below e he a ha) hle)
      fun a ha => Nat.lt_of_lt_of_le (hdrawn a ha) hle
    gone := History.forall_next (fun e he a ha state hstores => ?_) fun a ha state => gone_after ha (hdrawn a ha)
    once := List.pairwise_append.mpr ⟨h.once, List.pairwise_singleton _ _, fun e he e' he' a ha ha' => ?_⟩ }
  · rcases stores_of_reaches hr hstores with hstores | ⟨x, hx, hplants⟩
    · exact h.gone e he a ha state hstores
    · exact Nat.ne_of_gt (Nat.lt_of_lt_of_le (h.below e he a ha) (planted_fresh hx hplants))
  · rw [List.mem_singleton.mp he'] at ha'
    obtain ⟨state, hstores, hid⟩ := ha'.stores
    exact h.gone e he a ha state hstores hid

theorem spent (agent : Agent) (env : Env) (skills : SkillRegistry) (clock : Nat) (calls : List ApiCall) :
    agent.Spent env (agent.serve env (.start (World.fresh skills clock)) calls) := by
  refine History.always (I := agent.Spent env) (fun H call h => h.next call) ?_ calls
  exact ⟨agent.provenance env skills clock [], fun e he => (by cases he), fun e he => (by cases he),
    fun e he => (by cases he), List.Pairwise.nil⟩

/-- No two calls of a history act under one approval. -/
theorem acts_once (agent : Agent) (env : Env) (skills : SkillRegistry) (clock : Nat) (calls : List ApiCall) :
    (agent.serve env (.start (World.fresh skills clock)) calls).past.Pairwise
      fun e e' => ∀ a, ActsUnder env e a → ¬ ActsUnder env e' a :=
  (agent.spent env skills clock calls).once

/-! ### What a turn starts of the calls that the hook stops -/

variable (agent) in
/-- A step of a plan, which a fixed strategy executes without the hook. -/
def fixedStep (d : Dispatch) : Bool :=
  agent.strategyRouter.isNone && decide (agent.kind ≠ .react) && d.callId.isNone

/-- The calls of a pending batch behind the one where the hook stopped it. -/
def behindShown (policy : HitlPolicy) (state : InterruptedState) : List ToolCall :=
  (state.pendingCalls.dropWhile fun c => !policy.intercepts (state.skillContext.map (·.skillId)) c.name).tail

variable (agent) in
/-- The calls behind the shown one in the batch that the call approves. -/
def restOfBatch (policy : HitlPolicy) (e : CallEntry) : List Dispatch :=
  match e.call with
  | .resume _ sid _ .approved =>
    match (e.before.life sid).bind (·.pending) with
    | some (.printed state) =>
      ((agent.executionTools state.activeToolNames).registered (behindShown policy state)).map (·.task 0)
    | _ => []
  | _ => []

variable {policy : HitlPolicy} {W : Dispatch → Bool}

/-- The tasks in `W` are intercepted under the skill, and those of a strategy go through the hook. -/
def HookedBy (agent : Agent) (policy : HitlPolicy) (skill : Option SkillId) (W : Dispatch → Bool) : Prop :=
  ∀ d, W d = true → d.depth = 0 ∧ agent.fixedStep d = false ∧ policy.intercepts skill d.tool = true

/-- With a policy, no strategy starts an intercepted tool by itself, whatever the model replies, but a fixed one with
its plans. -/
theorem spares_hooked (hpolicy : agent.hitl = some policy) {skill : Option SkillId} (hW : agent.HookedBy policy skill W)
    (names : List String) : agent.Spares (fun _ _ => True) (fun d => W d = true) skill names where
  subagents _ _ _ _ _ _ _ _ _ _ h := Nat.one_ne_zero (hW _ h).1
  calls _ _ _ _ hpass c hc _ h := by
    have hguard := hpass c hc
    rw [stops, hpolicy] at hguard
    have hstop : policy.intercepts skill c.name = true := (hW _ h).2.2
    rw [show policy.intercepts skill c.name = false from hguard] at hstop
    cases hstop
  plans hkind hhitl _ _ _ _ _ _ _ _ _ _ _ h := by
    cases hrouter : agent.strategyRouter with
    | none => simpa [fixedStep, hrouter, hkind hrouter] using (hW _ h).2.1
    | some router =>
      have hnone := hhitl (by rw [hrouter]; rfl)
      rw [hpolicy] at hnone
      cases hnone

theorem ownTask_eq_some {x : Event} {d : Dispatch} : ownTask x = some d ↔ x.1.dispatch? = some d ∧ d.depth = 0 := by
  rw [ownTask, Request.ownTask?, Option.filter_eq_some_iff]
  simp

/-- The act of a resume starts tasks in `W` only from its decision. -/
theorem resumeAct_starts (hpolicy : agent.hitl = some policy) {resolved : Resolved}
    (hpay : resolved.state.payload = .ok resolved.payload)
    (hW : agent.HookedBy policy (resolved.state.skillContext.map (·.skillId)) W) (decision : ApprovalDecision) :
    (agent.resumeAct sid resolved decision).Spends (fun q => q.ownTask?.filter W) (fun _ => false)
      (((decidedCalls decision resolved.state.pendingCalls).map (·.task 0)).filter W) := by
  obtain ⟨state, payload⟩ := resolved
  have hact : ∀ history pending, payload = some (history, pending) →
      (agent.resumeToolCallOrCheckpoint sid state decision history pending).Spends (fun q => q.ownTask?.filter W)
        (fun _ => false) (((decidedCalls decision state.pendingCalls).map (·.task 0)).filter W) := by
    rintro history pending rfl
    have hpending : state.pendingCalls = pending := by rw [InterruptedState.pendingCalls, hpay]
    rw [hpending]
    refine (((agent.observation_spends state.activeToolNames decision pending).filter W).unstopped
      (agent.observation_quiet state.activeToolNames decision pending)).bind_free fun text => Prog.Only.spends ?_ []
    -- What goes on is a run behind the hook, which starts no task in `W`.
    refine Prog.Meets.mono (continueRun_spares sid (spares_hooked hpolicy hW state.activeToolNames) _)
      (fun _ _ h => h) (fun q hq => ?_) fun _ h => h
    cases hd : q.dispatch? with
    | none => rw [Request.ownTask?, hd]; rfl
    | some d =>
      have hnot : W d = false := Bool.eq_false_iff.mpr (hq d hd)
      rw [Request.ownTask?, hd, Option.filter_filter]
      simp [hnot]
  unfold resumeAct
  cases state with
  | pendingPhaseGate id transitionJson =>
    refine Prog.Only.spends (Prog.Only.mono (agent.resumePhaseGate_only (s := sid) transitionJson decision)
      fun q hq => ?_) _
    rw [Request.ownTask?, hq.dispatch]
    rfl
  | pendingToolCall | pendingCheckpoint =>
    cases payload with
    | some x => exact hact _ _ rfl
    | none => trivial

/-- A resume that is let act starts tasks in `W` only from the registered calls of its decision. -/
theorem resume_starts (hpolicy : agent.hitl = some policy) {userId : String} {id : ApprovalId} {resolved : Resolved}
    (hres : Resumable env w userId sid id resolved) (hacc : Accepts env w userId sid id)
    (hW : agent.HookedBy policy (resolved.state.skillContext.map (·.skillId)) W) (decision : ApprovalDecision) :
    ((((agent.resume userId sid id decision).run (handle env) ⟨w, []⟩).2.trace.filterMap ownTask).filter W).Subperm
      ((((agent.executionTools resolved.state.activeToolNames).registered
        (decidedCalls decision resolved.state.pendingCalls)).map (·.task 0)).filter W) := by
  have hregistered : ∀ d ∈ (((agent.resume userId sid id decision).run (handle env) ⟨w, []⟩).2.trace.filterMap
      ownTask).filter W, (agent.executionTools resolved.state.activeToolNames).hasTool d.tool = true := by
    intro d hd
    obtain ⟨hd, hw⟩ := List.mem_filter.mp hd
    obtain ⟨x, hx, hd⟩ := List.mem_filterMap.mp hd
    obtain ⟨-, resolved', hres', c, -, hhas, rfl⟩ := resume_spares env userId sid id decision w
      (fun resolved' _ hres' _ => spares_hooked hpolicy (hres.unique hres' ▸ hW) _) (fun _ _ => trivial) x hx d
      (ownTask_eq_some.mp hd).1 hw
    rwa [hres.unique hres']
  have hacts : (agent.resumeAct sid resolved decision).Spends (fun q => q.ownTask?.filter W) (fun _ => false) _ :=
    resumeAct_starts hpolicy hres.payload hW decision
  have hspends := hacts.asked (h := handle env) (cleared env sid w)
  have htrace : (((agent.resume userId sid id decision).run (handle env) ⟨w, []⟩).2.trace.filterMap ownTask).filter W =
      ((agent.resumeAct sid resolved decision).asked (handle env) (cleared env sid w)).filterMap
        fun x => x.1.ownTask?.filter W := by
    have hnone : (clearing env sid w).filterMap ownTask = [] := List.filterMap_eq_nil_iff.mpr fun x hx => by
      have hd : x.1.dispatch? = none := (clearing_asked x hx).elim (·.dispatch) (·.dispatch)
      rw [ownTask, Request.ownTask?, hd]
      rfl
    rw [agent.resume_acts hres hacc.2.1 hacc.2.2, Prog.run_trace, List.filterMap_append, hnone, List.nil_append,
      List.filter_filterMap]
    rfl
  rw [← htrace] at hspends
  rw [← List.filter_eq_self.mpr hregistered]
  refine (hspends.filter _).trans (List.Sublist.subperm ?_)
  rw [ToolRegistry.registered, List.filter_filter, List.filter_map, List.filter_map, List.filter_filter]
  refine List.Sublist.map _ ?_
  simp [Function.comp_def, ToolCall.task, Bool.and_comm]

/-! ### The call that was shown -/

/-- What is pending is what was persisted. -/
theorem pendingCalls_interruptedState {i : HitlInterrupt} {kind : InterruptKind} {skillCtx : Option SkillContext}
    {payload : Option (List Message × List ToolCall)} (h : (interruptedState i kind skillCtx).payload = .ok payload) :
    (interruptedState i kind skillCtx).pendingCalls = persistedCalls i kind := by
  rw [InterruptedState.pendingCalls, h, (payload_eq_ok h).2]

theorem restOfBatch_eq {userId : String} {id : ApprovalId} {resolved : Resolved}
    (hres : Resumable env w userId sid id resolved) :
    agent.restOfBatch policy (agent.entry env w (.resume userId sid id .approved)) =
      ((agent.executionTools resolved.state.activeToolNames).registered (behindShown policy resolved.state)).map
        (·.task 0) := by
  obtain ⟨l, hl, hp⟩ := hres.pending
  have hpending : (w.life sid).bind (·.pending) = some (.printed resolved.state) := by rw [hl, Option.bind_some, hp]; rfl
  simp only [restOfBatch, Agent.entry, History.entry, hpending]

/-- Of a batch that was stopped at `call`, the calls before it are not in `W`. -/
theorem subperm_of_stopped (tools : ToolRegistry) {pre post : List ToolCall} {call : ToolCall}
    (hpre : ∀ c ∈ pre, W (c.task 0) = false) :
    (((tools.registered (pre ++ call :: post)).map (·.task 0)).filter W).Subperm
      (call.task 0 :: (tools.registered post).map (·.task 0)) := by
  have hnone : ((tools.registered pre).map (·.task 0)).filter W = [] := by
    refine List.filter_eq_nil_iff.mpr fun d hd => ?_
    obtain ⟨c, hc, rfl⟩ := List.mem_map.mp hd
    simp [hpre c (List.mem_filter.mp hc).1]
  have happend : tools.registered (pre ++ call :: post) = tools.registered pre ++ tools.registered (call :: post) :=
    List.filter_append ..
  rw [happend, List.map_append, List.filter_append, hnone, List.nil_append]
  refine (List.filter_sublist.trans ?_).subperm
  rw [← List.map_cons]
  refine List.Sublist.map _ ?_
  rw [ToolRegistry.registered, List.filter_cons]
  split
  · exact List.Sublist.refl _
  · exact List.sublist_cons_self ..

/-- The pending calls are those of a batch that was stopped at the call that was shown under the approval. -/
theorem shown_of_pending {H : CallHistory} (hprov : agent.Provenance H) (hpolicy : agent.hitl = some policy)
    {userId : String} {id : ApprovalId} {resolved : Resolved} (hres : Resumable env H.state userId sid id resolved) :
    resolved.state.pendingCalls = [] ∨ ∃ pre call post, resolved.state.pendingCalls = pre ++ call :: post ∧
      (∀ c ∈ pre, policy.intercepts (resolved.state.skillContext.map (·.skillId)) c.name = false) ∧
      policy.intercepts (resolved.state.skillContext.map (·.skillId)) call.name = true ∧
      ∃ e ∈ H.past, Consulted e sid (.toolApproval call.name call.args) id := by
  obtain ⟨e, he, horigin⟩ := hprov.origin sid resolved.state hres.stores
  have hpay := hres.payload
  have hid := hres.approval
  cases horigin with
  | gated hstate _ _ => exact .inl (by rw [hstate]; rfl)
  | @stopped i kind skillCtx hstops hstate _ =>
    rw [hstate] at hpay hid ⊢
    rw [pendingCalls_interruptedState hpay, skillContext_interruptedState, hstops.skill_eq]
    rw [approvalId_interruptedState] at hid
    obtain ⟨policy', satisfied, hpolicy', kind', pre, call, post, req, resp, hs, -, -⟩ := hstops.stopped
    obtain rfl : policy = policy' := Option.some.inj (hpolicy.symm.trans hpolicy')
    obtain rfl : kind = kind' := by simpa [JsonText.ofValue] using hstops.kind_eq.symm.trans hs.kind_eq
    cases kind with
    | phaseGate f t d => exact absurd rfl (HitlContext.interruptKind_ne_phaseGate _ hs.stopped.shown f t d)
    | skillCheckpoint name payload => exact .inl rfl
    | toolApproval name args =>
      obtain ⟨rfl, rfl, -⟩ := HitlContext.interruptKind_toolApproval _ hs.stopped.shown
      exact .inr ⟨pre, call, post, hs.stopped.split, hs.stopped.before, hs.stopped.intercepted, e, he,
        hid ▸ hs.submitted⟩

/-- Of the tasks in `W`, a resume that is let act starts one that it allows itself, and the rest of its batch. -/
theorem stopped_resume {H : CallHistory} (hprov : agent.Provenance H) (hpolicy : agent.hitl = some policy)
    {userId : String} {id : ApprovalId} {decision : ApprovalDecision} (hacc : Accepts env H.state userId sid id)
    (hW : agent.HookedBy policy (agent.runSkill (agent.entry env H.state (.resume userId sid id decision))) W) :
    ((agent.entry env H.state (.resume userId sid id decision)).asked.filterMap ownTask).filter W = [] ∨
      ∃ d, (((agent.entry env H.state (.resume userId sid id decision)).asked.filterMap ownTask).filter W).Subperm
          (d :: agent.restOfBatch policy (agent.entry env H.state (.resume userId sid id decision))) ∧
        Allows env Consulted (H.past ++ [agent.entry env H.state (.resume userId sid id decision)]) d (sid, id) := by
  obtain ⟨resolved, hres⟩ := hacc.1
  rw [show agent.runSkill (agent.entry env H.state (.resume userId sid id decision)) =
    resolved.state.skillContext.map (·.skillId) from suspendedSkill_eq hres] at hW
  have hasked : (agent.entry env H.state (.resume userId sid id decision)).asked =
      ((agent.resume userId sid id decision).run (handle env) ⟨H.state, []⟩).2.trace := by
    rw [Agent.entry_eq (p := agent.resume userId sid id decision) rfl]
  have hstarts := resume_starts hpolicy hres hacc hW decision
  rw [← hasked] at hstarts
  have hidle : decidedCalls decision resolved.state.pendingCalls = [] →
      ((agent.entry env H.state (.resume userId sid id decision)).asked.filterMap ownTask).filter W = [] := fun h =>
    List.subperm_nil.mp (by rw [h] at hstarts; exact hstarts)
  rcases shown_of_pending hprov hpolicy hres with hpending | ⟨pre, call, post, hpending, hbefore, hstop, e, he, hshown⟩
  · exact .inl (hidle (by rw [hpending]; cases decision <;> rfl))
  have hpre : ∀ c ∈ pre, ∀ args, W (({ c with args := args } : ToolCall).task 0) = false := fun c hc args => by
    refine Bool.eq_false_iff.mpr fun hw => ?_
    have hintercepted : policy.intercepts _ c.name = true := (hW _ hw).2.2
    rw [hbefore c hc] at hintercepted
    cases hintercepted
  have hallows : ∀ args, (decision = .approved ∧ call.args = args ∨ decision = .modified args) →
      Allows env Consulted (H.past ++ [agent.entry env H.state (.resume userId sid id decision)])
        (({ call with args := args } : ToolCall).task 0) (sid, id) := fun args hdecision =>
    ⟨e, List.mem_append_left _ he, _, List.mem_append_right _ (List.mem_singleton_self _), call.args, userId, decision,
      hshown, rfl, hacc, hdecision⟩
  cases decision with
  | rejected reason => exact .inl (hidle rfl)
  | approved =>
    refine .inr ⟨call.task 0, ?_, hallows call.args (.inl ⟨rfl, rfl⟩)⟩
    have hbehind : behindShown policy resolved.state = post := by
      rw [behindShown, hpending, List.dropWhile_append_of_pos fun c hc => by simp [hbefore c hc],
        List.dropWhile_cons_of_neg (by simp [hstop]), List.tail_cons]
    rw [restOfBatch_eq hres, hbehind]
    rw [decidedCalls, hpending] at hstarts
    exact hstarts.trans (subperm_of_stopped _ fun c hc => hpre c hc c.args)
  | modified newArgs =>
    rw [hpending] at hstarts
    cases pre with
    | cons first pre =>
      -- The first call was let pass.
      refine .inl (List.subperm_nil.mp (hstarts.trans (List.Sublist.subperm ?_)))
      rw [List.sublist_nil, List.filter_eq_nil_iff]
      intro d hd
      obtain ⟨c, hc, rfl⟩ := List.mem_map.mp hd
      obtain rfl := List.mem_singleton.mp (List.mem_filter.mp hc).1
      simp [hpre first List.mem_cons_self newArgs]
    | nil =>
      refine .inr ⟨({ call with args := newArgs } : ToolCall).task 0, ?_, hallows newArgs (.inr rfl)⟩
      have hfirst : ∀ c ∈ ([] : List ToolCall), W (c.task 0) = false := fun c hc => by cases hc
      refine hstarts.trans ((subperm_of_stopped _ hfirst).trans ?_)
      exact ((List.nil_sublist _).cons_cons _).subperm

/-- A turn starts tasks in `W` only if it is such a resume. -/
theorem stopped_tasks {H : CallHistory} (hprov : agent.Provenance H) (hpolicy : agent.hitl = some policy)
    {call : ApiCall} (hturn : call.TakesTurn sid)
    (hW : agent.HookedBy policy (agent.runSkill (agent.entry env H.state call)) W) :
    ((agent.entry env H.state call).asked.filterMap ownTask).filter W = [] ∨
      ∃ d a, (((agent.entry env H.state call).asked.filterMap ownTask).filter W).Subperm
          (d :: agent.restOfBatch policy (agent.entry env H.state call)) ∧
        ActsUnder env (agent.entry env H.state call) a ∧ call.TakesTurn a.1 ∧
        Allows env Consulted (H.past ++ [agent.entry env H.state call]) d a := by
  have hquiet : (∀ x ∈ (agent.entry env H.state call).asked, ∀ d, x.1.dispatch? = some d → W d = false) →
      ((agent.entry env H.state call).asked.filterMap ownTask).filter W = [] := fun h => by
    refine List.filter_eq_nil_iff.mpr fun d hd => ?_
    obtain ⟨x, hx, hd⟩ := List.mem_filterMap.mp hd
    simp [h x hx d (ownTask_eq_some.mp hd).1]
  cases call with
  | invoke userId s input =>
    refine .inl (hquiet fun x hx d hd => Bool.eq_false_iff.mpr fun hw => ?_)
    rw [Agent.entry_eq (p := agent.invoke userId s input) rfl] at hx
    exact invoke_spares env userId s input H.state (fun p c hp => spares_hooked hpolicy
      ((agent.prepare_ok hp).2.1 ▸ hW) _) (fun _ _ => trivial) x hx d hd hw
  | resume userId s id decision =>
    obtain rfl : s = sid := hturn
    by_cases hacc : Accepts env H.state userId s id
    · rcases stopped_resume hprov hpolicy hacc hW with hnone | ⟨d, hsub, hallows⟩
      · exact .inl hnone
      · exact .inr ⟨d, (s, id), hsub, ⟨userId, decision, rfl, hacc⟩, rfl, hallows⟩
    · refine .inl (hquiet fun x hx d hd => ?_)
      rw [Agent.entry_eq (p := agent.resume userId s id decision) rfl] at hx
      rw [(agent.resume_not_accepted decision hacc).2 x hx] at hd
      cases hd
  | _ => exact hturn.elim

end Agent

end AgentVerse
