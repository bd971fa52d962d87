import AgentVerse.Agent.Resumption
import AgentVerse.Agent.RunReplies

/-!
# When the continuation of a suspended run fails

Whether the second half of a resume fails without having started a tool, in terms of the request and of what the
environment answers: the decision executes no tool, and the run breaks off on the replies of the model
(`resumeToolCallOrCheckpoint_fails_iff`).
-/

namespace AgentVerse

open Effects

variable {t : List Event} {sid : SessionId}

/-! ### Interrupts that are lost -/

/-- A write of an interrupt that the database refuses. -/
def interruptRefused : Event → Bool
  | ⟨.sql (.updateInterruptedState ..), .ok n⟩ => n = 0
  | ⟨.sql (.updateStatus ..), .ok n⟩ => n = 0
  | ⟨.sql _, .error _⟩ => true
  | _ => false

theorem Request.OfStrategy.not_refused {q : Request} (hq : q.OfStrategy) (r : Reply q) :
    interruptRefused ⟨q, r⟩ = false := by
  cases q with
  | sql st => exact hq.elim
  | _ => rfl

/-- The writes fail exactly when the database refuses them. -/
def FailsRefused {ε α : Type} (t : List Event) (x : Except ε α) : Prop :=
  ¬ Started t ∧ repliesOf t = [] ∧ ((∃ e, x = .error e) ↔ ∃ y ∈ t, interruptRefused y = true)

theorem setInterruptedState_plays {state : Option (JsonText InterruptedState)} {x : Except SessionMemoryError Unit}
    (h : (SessionMemory.setInterruptedState sid state).Plays t x) : FailsRefused t x := by
  obtain ⟨r, rfl, hfails⟩ := update_plays h
  refine ⟨by simp [Started, Request.dispatch?], rfl, hfails.trans ?_⟩
  cases r <;> simp [interruptRefused]

theorem updateStatus_plays {status : SessionStatus} {x : Except SessionMemoryError Unit}
    (h : (SessionMemory.updateStatus sid status).Plays t x) : FailsRefused t x := by
  obtain ⟨now, t', rfl, h⟩ := h
  obtain ⟨r, rfl, hfails⟩ := update_plays h
  refine ⟨by simp [Started, Request.dispatch?], rfl, hfails.trans ?_⟩
  cases r <;> simp [interruptRefused]

namespace Agent

theorem persistInterrupt_plays {state : InterruptedState} {x : Except AgentError Unit}
    (h : (persistInterrupt sid state).Plays t x) : FailsRefused t x := by
  have herror : ∀ {y : Except SessionMemoryError Unit}, (∃ e, y.mapError AgentError.session = .error e) ↔ ∃ e, y = .error e := by
    intro y
    cases y <;> simp [Except.mapError]
  obtain ⟨e, h₁, rfl⟩ | ⟨u, t₁, t₂, rfl, h₁, h₂⟩ := Prog.plays_bind.mp h
  · obtain ⟨y, h₁, hy⟩ := Prog.plays_mapErr.mp h₁
    obtain ⟨hstarted, hreplies, hrefused⟩ := setInterruptedState_plays h₁
    exact ⟨hstarted, hreplies, by rw [hy, herror, hrefused]⟩
  · obtain ⟨y, h₁, hy⟩ := Prog.plays_mapErr.mp h₁
    obtain ⟨z, h₃, rfl⟩ := Prog.plays_mapErr.mp h₂
    obtain ⟨hstarted, hreplies, hrefused⟩ := setInterruptedState_plays h₁
    obtain ⟨hstarted', hreplies', hrefused'⟩ := updateStatus_plays h₃
    have hnone : ¬ ∃ y ∈ t₁, interruptRefused y = true := fun hsome => by
      obtain ⟨e, rfl⟩ := hrefused.mpr hsome
      cases hy
    refine ⟨fun h => (started_append.mp h).elim hstarted hstarted', by rw [repliesOf_append, hreplies, hreplies']; rfl, ?_⟩
    rw [herror, hrefused']
    simp only [List.mem_append, or_and_right, exists_or]
    exact ⟨.inr, fun h => h.resolve_left hnone⟩

/-- An interrupt is lost when its kind nests too deep to be read back, or the database refuses to store it. -/
theorem handleToolInterrupt_plays {i : HitlInterrupt} {kind : InterruptKind} (hkind : i.kindJson = .ofValue kind)
    {skillCtx : Option SkillContext} {x : Except AgentError AgentOutput}
    (h : (handleToolInterrupt sid i skillCtx).Plays t x) :
    ¬ Started t ∧ repliesOf t = [] ∧ ((∃ e, x = .error e) ↔
      ¬ Nested.depth kind < nestingLimit ∨ ∃ y ∈ t, interruptRefused y = true) := by
  by_cases hdepth : Nested.depth kind < nestingLimit
  · rw [handleToolInterrupt_read (hkind ▸ JsonText.fromStr_ofValue hdepth)] at h
    obtain ⟨e, h₁, rfl⟩ | ⟨u, t₁, t₂, rfl, h₁, rfl, rfl⟩ := Prog.plays_bind.mp h
    · obtain ⟨hstarted, hreplies, hrefused⟩ := persistInterrupt_plays h₁
      exact ⟨hstarted, hreplies, iff_of_true ⟨e, rfl⟩ (.inr (hrefused.mp ⟨e, rfl⟩))⟩
    · obtain ⟨hstarted, hreplies, hrefused⟩ := persistInterrupt_plays h₁
      rw [List.append_nil]
      refine ⟨hstarted, hreplies, iff_of_false (fun ⟨e, he⟩ => (by cases he)) fun h => ?_⟩
      obtain ⟨e, he⟩ := hrefused.mpr (h.resolve_left fun hnot => hnot hdepth)
      cases he
  · rw [handleToolInterrupt_unread (hkind ▸ JsonText.fromStr_ofValue_error hdepth)] at h
    obtain ⟨rfl, rfl⟩ := h
    exact ⟨not_started_nil, rfl, iff_of_true ⟨_, rfl⟩ (.inl hdepth)⟩

/-! ### The run that goes on -/

variable (agent : Agent)

/-- The kind of strategy that goes on with a suspended run. -/
def resumeKind : StrategyKind :=
  match agent.strategyRouter with
  | some _ => .react
  | none => agent.kind

theorem strategyForResume_eq (names : List String) :
    agent.strategyForResume names = buildStrategy agent.resumeKind (agent.resumeSkeleton names) := by
  unfold strategyForResume resumeKind resumeSkeleton
  cases agent.strategyRouter <;> rfl

/-- The approval context of a run that goes on. -/
def resumedContext (sid : SessionId) (state : InterruptedState) : HitlPolicy → HitlContext :=
  HitlContext.newForResume sid (state.skillContext.map (·.skillId))

/-- The run that goes on with the messages breaks off on the replies, and starts no tool. -/
def BreaksOff (sid : SessionId) (state : InterruptedState) (messages : List Message) (t : List Event) : Prop :=
  let sk := agent.resumeSkeleton state.activeToolNames
  match agent.resumeKind with
  | .react =>
    ReActBreaks sk state.activeToolNames (readReply sk.ext (agent.askedAbout (resumedContext sid state)))
      (fun kind => ¬ Nested.depth kind < nestingLimit ∨ ∃ y ∈ t, interruptRefused y = true) (repliesOf t)
  | .plan => PlanBreaks sk state.activeToolNames messages (repliesOf t)
  | .hierarchical => HierarchicalBreaks sk state.activeToolNames messages 3 (repliesOf t)

variable {agent}

/-- A run that goes on does not have to call a tool any more. -/
theorem mustCall_resumed {state : InterruptedState} : agent.mustCall (resumedContext sid state) = [] := by
  unfold mustCall
  cases agent.hitl <;> rfl

theorem resumeSkeleton_atRoot (names : List String) : (agent.resumeSkeleton names).AtRoot := by
  obtain ⟨tools, n, hsk⟩ := agent.resumeSkeleton_eq names
  rw [hsk]
  exact agent.skeleton_atRoot tools n

/-- How the run goes on after its strategy: an error and an answer end it, an interrupt is stored. -/
inductive GoesOn (sid : SessionId) (skillCtx : Option SkillContext) :
    Except AgentError StrategyOutcome → List Event → Except AgentError AgentOutput → Prop
  | failed {e : AgentError} : GoesOn sid skillCtx (.error e) [] (.error e)
  | answered {text : String} : GoesOn sid skillCtx (.ok (.done text)) [] (.ok (.done text))
  | stopped {i : HitlInterrupt} {t : List Event} {x : Except AgentError AgentOutput}
      (h : (handleToolInterrupt sid i skillCtx).Plays t x) : GoesOn sid skillCtx (.ok (.interrupted i)) t x

/-- A run that is not stopped ends as its strategy does. -/
theorem GoesOn.unstopped {skillCtx : Option SkillContext} {y : Except Core.AgentError StrategyOutcome} {t : List Event}
    {x : Except AgentError AgentOutput} (h : GoesOn sid skillCtx (y.mapError .llm) t x)
    (hnot : ∀ i, y ≠ .ok (.interrupted i)) : t = [] ∧ ((∃ e, x = .error e) ↔ ∃ e, y = .error e) := by
  cases y with
  | error e =>
    cases h
    exact ⟨rfl, iff_of_true ⟨_, rfl⟩ ⟨_, rfl⟩⟩
  | ok outcome =>
    cases outcome with
    | done text =>
      cases h
      exact ⟨rfl, iff_of_false (fun ⟨e, he⟩ => (by cases he)) fun ⟨e, he⟩ => by cases he⟩
    | interrupted i => exact absurd rfl (hnot i)

theorem continueRun_plays {state : InterruptedState} {messages : List Message} {x : Except AgentError AgentOutput}
    (h : (agent.continueRun sid state messages).Plays t x) :
    ∃ y t₁ t₂, t = t₁ ++ t₂ ∧ (agent.runStrategy (buildStrategy agent.resumeKind
      (agent.resumeSkeleton state.activeToolNames)) messages state.activeToolNames (resumedContext sid state)).Plays t₁ y ∧
      GoesOn sid state.skillContext y t₂ x := by
  unfold continueRun at h
  rw [strategyForResume_eq] at h
  obtain ⟨e, h₁, rfl⟩ | ⟨outcome, t₁, t₂, rfl, h₁, h₂⟩ := Prog.plays_bind.mp h
  · exact ⟨_, t, [], by simp, h₁, .failed⟩
  · refine ⟨_, t₁, t₂, rfl, h₁, ?_⟩
    cases outcome with
    | done text =>
      obtain ⟨rfl, rfl⟩ := h₂
      exact .answered
    | interrupted i => exact .stopped h₂

/-- What a ReAct run and what follows it come to. -/
theorem react_fails_iff {state : InterruptedState} {messages : List Message} {t₁ t₂ : List Event}
    {y : Except AgentError StrategyOutcome} {x : Except AgentError AgentOutput}
    (h : (agent.runStrategy (buildStrategy .react (agent.resumeSkeleton state.activeToolNames)) messages
      state.activeToolNames (resumedContext sid state)).Plays t₁ y)
    (hrest : GoesOn sid state.skillContext y t₂ x) :
    (∃ e, x = .error e) ∧ ¬ Started (t₁ ++ t₂) ↔
      ReActBreaks (agent.resumeSkeleton state.activeToolNames) state.activeToolNames
        (readReply (agent.resumeSkeleton state.activeToolNames).ext (agent.askedAbout (resumedContext sid state)))
        (fun kind => ¬ Nested.depth kind < nestingLimit ∨ ∃ y ∈ t₁ ++ t₂, interruptRefused y = true)
        (repliesOf (t₁ ++ t₂)) := by
  obtain ⟨hook, z, hstops, hrequired, hplays, rfl⟩ := runStrategy_react_plays h mustCall_resumed
  obtain ⟨hdefs, rfl, e, rfl⟩ | ⟨hdefs, hunfolds⟩ := runHitl_plays (resumeSkeleton_atRoot _) hstops hrequired hplays
  · cases hrest
    exact iff_of_true ⟨⟨_, rfl⟩, not_started_nil⟩ ⟨fun r hr => (by cases hr), .inl hdefs⟩
  · obtain ⟨⟨v, hv, hyields⟩, hstarted⟩ := hunfolds
    obtain ⟨hquiet, hreplies, hend⟩ : ¬ Started t₂ ∧ repliesOf t₂ = [] ∧ ((∃ e, x = .error e) ↔
        v = none ∨ v = some .useless ∨ ∃ kind, v = some (.shown kind) ∧
          (¬ Nested.depth kind < nestingLimit ∨ ∃ y ∈ t₁ ++ t₂, interruptRefused y = true)) := by
      cases hyields with
      | exhausted | useless | answer =>
        cases hrest
        exact ⟨not_started_nil, rfl, by simp⟩
      | @shown kind i hkind =>
        cases hrest with
        | stopped hstored =>
          obtain ⟨hquiet, hreplies, hlost⟩ := handleToolInterrupt_plays hkind hstored
          have hnone : ∀ y ∈ t₁, interruptRefused y = false := by
            obtain ⟨tools, n, hsk⟩ := agent.resumeSkeleton_eq state.activeToolNames
            rw [hsk] at h
            exact fun y hy => ((agent.runStrategy_only ..).plays h y hy).not_refused y.2
          refine ⟨hquiet, hreplies, hlost.trans ?_⟩
          simp only [List.mem_append, or_and_right, exists_or]
          have hnot : ¬ ∃ y ∈ t₁, interruptRefused y = true := fun ⟨y, hy, hrefused⟩ => by
            rw [hnone y hy] at hrefused
            cases hrefused
          simp [hnot]
    rw [hend, ReActBreaks, reActStops_iff _ hdefs (by rwa [repliesOf_append, hreplies, List.append_nil]), started_append,
      or_iff_left hquiet, hstarted, repliesOf_append, hreplies, List.append_nil, and_comm]
    simp only [not_exists, not_and, not_not]

/-- Whether the continuation fails without having started a tool. -/
theorem continueRun_fails_iff {state : InterruptedState} {messages : List Message} {x : Except AgentError AgentOutput}
    (h : (agent.continueRun sid state messages).Plays t x) :
    (∃ e, x = .error e) ∧ ¬ Started t ↔ agent.BreaksOff sid state messages t := by
  obtain ⟨y, t₁, t₂, rfl, hrun, hrest⟩ := continueRun_plays h
  unfold BreaksOff
  cases hkind : agent.resumeKind with
  | react =>
    rw [hkind] at hrun
    exact react_fails_iff hrun hrest
  | plan =>
    rw [hkind] at hrun
    obtain ⟨z, hz, rfl⟩ := runStrategy_other_plays (by simp) hrun
    obtain ⟨hnot, hbreaks⟩ := plan_breaks_iff (resumeSkeleton_atRoot _) hz
    obtain ⟨rfl, herror⟩ := hrest.unstopped hnot
    rw [List.append_nil, herror]
    exact hbreaks
  | hierarchical =>
    rw [hkind] at hrun
    obtain ⟨z, hz, rfl⟩ := runStrategy_other_plays (by simp) hrun
    obtain ⟨hnot, hbreaks⟩ := hierarchical_breaks_iff (resumeSkeleton_atRoot _) hz
    obtain ⟨rfl, herror⟩ := hrest.unstopped hnot
    rw [List.append_nil, herror]
    exact hbreaks

/-! ### The decision -/

/-- The order in which the calls of a decision complete, which are the first to be asked for. -/
def completionOrder : List Event → List ToolCall
  | ⟨.joinSet _ _, schedule⟩ :: _ => schedule.order
  | _ => []

/-- The text that the run goes on with, where none of the calls of the decision has a tool. -/
def observed (agent : Agent) (names : List String) (decision : ApprovalDecision) (pending : List ToolCall)
    (order : List ToolCall) : String :=
  match agent.observation names decision pending with
  | .ret text => text
  | _ => agent.renderResults (order.map ToolCall.missing)

theorem executeDirectly_plays {names : List String} {calls : List ToolCall} {x : Except AgentError String}
    (h : (agent.executeDirectly names calls).Plays t x) :
    ((agent.executionTools names).Lacks calls ∧ ∃ schedule : Schedule calls, t = [⟨.joinSet 0 calls, schedule⟩] ∧
        x = .ok (agent.renderResults (schedule.order.map ToolCall.missing))) ∨
      (¬ (agent.executionTools names).Lacks calls ∧ Started t) := by
  obtain ⟨e, h₁, -⟩ | ⟨results, t₁, t₂, rfl, h₁, rfl, rfl⟩ := Prog.plays_bind.mp h
  · obtain ⟨y, -, hy⟩ := Prog.plays_mapErr.mp h₁
    cases y with
    | ok results => cases hy
    | error e => exact e.elim
  · obtain ⟨y, h₂, hy⟩ := Prog.plays_mapErr.mp h₁
    rw [List.append_nil]
    obtain ⟨hlacks, schedule, rfl, rfl⟩ | hstarted := ToolRegistry.executeMany_plays agent.executor.runTool_starting h₂
    · cases hy
      exact .inl ⟨hlacks, schedule, rfl, rfl⟩
    · exact .inr hstarted

/-- None of the calls of the decision has a tool, and its text is made of what the environment answers. -/
structure Observes (agent : Agent) (names : List String) (decision : ApprovalDecision) (pending : List ToolCall)
    (t : List Event) (x : Except AgentError String) : Prop where
  lacks : (agent.executionTools names).Lacks (decidedCalls decision pending)
  started : ¬ Started t
  replies : repliesOf t = []
  refused : ∀ y ∈ t, interruptRefused y = false
  text : ∀ t', x = .ok (agent.observed names decision pending (completionOrder (t ++ t')))

theorem observation_plays {names : List String} {decision : ApprovalDecision} {pending : List ToolCall}
    {x : Except AgentError String} (h : (agent.observation names decision pending).Plays t x) :
    agent.Observes names decision pending t x ∨
      (¬ (agent.executionTools names).Lacks (decidedCalls decision pending) ∧ Started t) := by
  have hret : ∀ {text}, agent.observation names decision pending = .ret text → decidedCalls decision pending = [] →
      agent.Observes names decision pending t x := by
    intro text htext hcalls
    rw [htext] at h
    obtain ⟨rfl, rfl⟩ := h
    exact {
      lacks := by rw [hcalls]; exact fun c hc => by cases hc
      started := not_started_nil
      replies := rfl
      refused := fun y hy => by cases hy
      text := fun t' => by rw [observed, htext] }
  have hexecute : ∀ calls, agent.observation names decision pending = agent.executeDirectly names calls →
      decidedCalls decision pending = calls → agent.Observes names decision pending t x ∨
        (¬ (agent.executionTools names).Lacks (decidedCalls decision pending) ∧ Started t) := by
    intro calls hcalls hdecided
    rw [hcalls] at h
    have hobserved : ∀ order, agent.observed names decision pending order =
        agent.renderResults (order.map ToolCall.missing) := fun order => by rw [observed, hcalls]; rfl
    rw [hdecided]
    refine (executeDirectly_plays h).imp_left fun ⟨hlacks, schedule, ht, hx⟩ => ?_
    subst ht
    exact {
      lacks := by rw [hdecided]; exact hlacks
      started := by simp [Started, Request.dispatch?]
      replies := rfl
      refused := fun y hy => by rw [List.mem_singleton.mp hy]; rfl
      text := fun t' => by rw [hobserved]; exact hx }
  cases decision with
  | approved =>
    cases pending with
    | nil => exact .inl (hret rfl rfl)
    | cons c cs => exact hexecute (c :: cs) rfl rfl
  | modified newArgs =>
    cases pending with
    | nil => exact .inl (hret rfl rfl)
    | cons c cs => exact hexecute [_] rfl rfl
  | rejected reason =>
    cases pending with
    | nil => exact .inl (hret rfl rfl)
    | cons c cs => exact .inl (hret rfl rfl)

theorem breaksOff_append {state : InterruptedState} {messages : List Message} {t₁ t₂ : List Event}
    (hreplies : repliesOf t₁ = []) (hrefused : ∀ y ∈ t₁, interruptRefused y = false) :
    agent.BreaksOff sid state messages (t₁ ++ t₂) ↔ agent.BreaksOff sid state messages t₂ := by
  have hsome : (∃ y ∈ t₁ ++ t₂, interruptRefused y = true) ↔ ∃ y ∈ t₂, interruptRefused y = true := by
    refine ⟨fun ⟨y, hy, h⟩ => ?_, fun ⟨y, hy, h⟩ => ⟨y, List.mem_append_right _ hy, h⟩⟩
    rcases List.mem_append.mp hy with hy | hy
    · rw [hrefused y hy] at h
      cases h
    · exact ⟨y, hy, h⟩
  unfold BreaksOff
  rw [repliesOf_append, hreplies, List.nil_append]
  simp only [hsome]

/-- When the second half of a resume fails without having started a tool: the decision executes no tool, and the run
that goes on breaks off. -/
theorem resumeToolCallOrCheckpoint_fails_iff {state : InterruptedState} {decision : ApprovalDecision}
    {history : List Message} {pending : List ToolCall} {x : Except AgentError AgentOutput}
    (h : (agent.resumeToolCallOrCheckpoint sid state decision history pending).Plays t x) :
    (∃ e, x = .error e) ∧ ¬ Started t ↔
      (agent.executionTools state.activeToolNames).Lacks (decidedCalls decision pending) ∧
        agent.BreaksOff sid state (history ++ [.ofText .user
          (agent.observed state.activeToolNames decision pending (completionOrder t))]) t := by
  obtain ⟨e, h₁, rfl⟩ | ⟨text, t₁, t₂, rfl, h₁, h₂⟩ := Prog.plays_bind.mp h
  · obtain hobserves | ⟨hlacks, hstarted⟩ := observation_plays h₁
    · cases hobserves.text []
    · exact iff_of_false (fun h => h.2 hstarted) fun h => hlacks h.1
  · obtain hobserves | ⟨hlacks, hstarted⟩ := observation_plays h₁
    · rw [← Except.ok.inj (hobserves.text t₂), breaksOff_append hobserves.replies hobserves.refused, started_append,
        or_iff_right hobserves.started, continueRun_fails_iff h₂]
      exact ⟨fun h => ⟨hobserves.lacks, h⟩, (·.2)⟩
    · exact iff_of_false (fun h => h.2 (started_append.mpr (.inl hstarted))) fun h => hlacks h.1

end Agent

end AgentVerse
