import AgentVerse.Agent.Calls
import AgentVerse.Agent.Continuation
import AgentVerse.Agent.Suspend

/-!
# Retrying a resume

A resume that fails before its decision had any effect should leave the interrupt as it was, so that it can be
repeated. `resume_retryable_iff` says exactly when it does: the pending state is consumed before the decision takes
effect, so every failure after the first write loses it. Whether there is one is a matter of the request and of what the
environment answers: of the transition and the configured skills for a phase gate, of the replies of the model and of
the refused writes for a run that goes on.
-/

namespace AgentVerse

open Effects

variable {env : Env} {w : World} {sid : SessionId}

/-- A phase transition that the database applied. -/
def applied : Event → Bool
  | ⟨.sql (.updatePhaseTransition ..), .ok n⟩ => n ≠ 0
  | _ => false

/-- No tool was started and no phase transition applied. -/
def NoEffect (t : List Event) : Prop := ∀ x ∈ t, x.1.dispatch? = none ∧ applied x = false

theorem noEffect_append {t t' : List Event} : NoEffect (t ++ t') ↔ NoEffect t ∧ NoEffect t' :=
  List.forall_mem_append

theorem noEffect_of_clear {x : Event} (h : x.1.Idle ∨ x.1.OfWrites sid none .active) :
    x.1.dispatch? = none ∧ applied x = false := by
  obtain ⟨q, r⟩ := x
  cases q with
  | sql st => cases st <;> first | exact ⟨rfl, rfl⟩ | exact h.elim False.elim False.elim
  | _ => first | exact ⟨rfl, rfl⟩ | exact h.elim False.elim False.elim

/-- A run that fails without an effect. -/
def FailsIdly {α : Type} (x : Except AgentError α × Config Reply World) : Prop :=
  (∃ e, x.1 = .error e) ∧ NoEffect x.2.trace

namespace Agent

variable (agent : Agent)

/-- A failing resume that had no effect leaves status and pending interrupt as they were. -/
def Retryable (env : Env) (w : World) (userId : String) (sid : SessionId) (approvalId : ApprovalId)
    (decision : ApprovalDecision) : Prop :=
  let end_ := (agent.resume userId sid approvalId decision).run (handle env) ⟨w, []⟩
  FailsIdly end_ → end_.2.state.life sid = w.life sid

/-- A transition that cannot be applied: it is unreadable, no skills are configured, the next skill does not exist,
or the database refuses the write. -/
def Inapplicable (env : Env) (w : World) (transitionJson : JsonText PhaseTransition) : Prop :=
  match transitionJson.fromStr with
  | .error _ => True
  | .ok transition =>
    agent.skills = none ∨ (∃ e, w.skills.compileContext transition.nextSkill = .error e) ∨
      env.storeError (w.steps + 6) ≠ none

/-- What is asked of the environment once the pending state is consumed, and what it answers. -/
def answered (env : Env) (w : World) (sid : SessionId) (state : InterruptedState) (decision : ApprovalDecision)
    (history : List Message) (pending : List ToolCall) : List Event :=
  (agent.resumeToolCallOrCheckpoint sid state decision history pending).asked (handle env) (cleared env sid w)

/-- A decision on the pending state that fails without an effect: a transition that cannot be applied, or a decision
that executes no tool, followed by a run that breaks off on the answers of the environment. -/
def Fruitless (env : Env) (w : World) (sid : SessionId) (resolved : Resolved) (decision : ApprovalDecision) : Prop :=
  match resolved.state, resolved.payload with
  | .pendingPhaseGate _ transitionJson, _ => decision.approves = true ∧ agent.Inapplicable env w transitionJson
  | state, some (history, pending) =>
    let t := agent.answered env w sid state decision history pending
    (agent.executionTools state.activeToolNames).Lacks (decidedCalls decision pending) ∧
      agent.BreaksOff sid state (history ++ [.ofText .user
        (agent.observed state.activeToolNames decision pending (completionOrder t))]) t
  | _, none => True

/-- The request fits the pending state, which is consumed, and then the status cannot be written or the decision
fails without an effect. -/
def Lost (env : Env) (w : World) (userId : String) (sid : SessionId) (approvalId : ApprovalId)
    (decision : ApprovalDecision) : Prop :=
  ∃ resolved, Resumable env w userId sid approvalId resolved ∧ env.storeError (w.steps + 2) = none ∧
    (env.storeError (w.steps + 4) ≠ none ∨ agent.Fruitless env w sid resolved decision)

/-! ### What a decision does -/

theorem noEffect_clearing : NoEffect (clearing env sid w) := fun x hx => noEffect_of_clear (clearing_asked x hx)

/-- Applying a transition fails exactly when it cannot be applied, and then nothing is applied. -/
theorem applyTransition_fails_iff {l : Life} (hl : (cleared env sid w).life sid = some l)
    (notConfigured : String) (transition : PhaseTransition) :
    FailsIdly ((agent.applyTransition notConfigured sid transition).run (handle env) ⟨cleared env sid w, []⟩) ↔
      (agent.skills = none ∨ (∃ e, w.skills.compileContext transition.nextSkill = .error e) ∨
        env.storeError (w.steps + 6) ≠ none) := by
  unfold applyTransition FailsIdly
  cases agent.skills with
  | none => simp [NoEffect]
  | some cfg =>
    simp only [request, Prog.perform_bind, Prog.run_ask]
    have hskills : (handle env .readSkills (cleared env sid w)).1 = w.skills := cleared_skills sid w
    rw [hskills]
    cases hctx : w.skills.compileContext transition.nextSkill with
    | error e => simp [NoEffect, Request.dispatch?, applied]
    | ok ctx =>
      set c₁ : Config Reply World := Config.after (handle env) ⟨cleared env sid w, []⟩ .readSkills with hc₁
      have hsteps : c₁.state.steps = w.steps + 6 := by simp [hc₁, cleared_steps]
      have hrow : c₁.state.store.row? sid ≠ none := fun h => by
        rw [World.life, show (cleared env sid w).store = c₁.state.store from rfl, h] at hl
        cases hl
      obtain ⟨hend, hspec⟩ := SessionMemory.applyPhaseTransition_spec env sid (.ofValue ctx)
        ("Context from previous phase: " ++ transition.summary) c₁
      simp only [sess, Prog.run_mapErr]
      rw [hsteps] at hspec
      rcases hspec with ⟨hr, hs, -⟩ | ⟨e, hr, hs, -⟩
      · simp [hr, hs, Except.mapError]
      · have hs : env.storeError (w.steps + 6) ≠ none := hs.elim (·.1) fun h => absurd h hrow
        obtain ⟨msg, hmsg⟩ := Option.ne_none_iff_exists'.mp hs
        rw [hr, hend, Config.after_trace, handle_sql_error _ (hsteps ▸ hmsg), noEffect_append]
        simp [hs, Except.mapError, NoEffect, hc₁, Request.dispatch?, applied]

theorem resumePhaseGate_fails_iff {l : Life} (hl : (cleared env sid w).life sid = some l)
    (transitionJson : JsonText PhaseTransition) (decision : ApprovalDecision) :
    FailsIdly ((agent.resumePhaseGate sid transitionJson decision).run (handle env) ⟨cleared env sid w, []⟩) ↔
      decision.approves = true ∧ agent.Inapplicable env w transitionJson := by
  have happly : decision.approves = true → agent.resumePhaseGate sid transitionJson decision =
      (orJson transitionJson >>= fun t => agent.applyTransition "no skills configured" sid t >>= fun _ =>
        .ret (.done ("Phase transition to " ++ t.nextSkill ++ " approved."))) := by
    cases decision with
    | rejected reason => intro h; cases h
    | approved | modified => intro _; rfl
  cases hd : decision.approves with
  | false =>
    cases decision with
    | rejected reason => simp [resumePhaseGate, FailsIdly]
    | approved | modified => cases hd
  | true =>
    rw [happly hd]
    unfold Inapplicable
    cases transitionJson with
    | unreadable e => simp [orJson, JsonText.fromStr, FailsIdly, NoEffect]
    | printed t =>
      simp only [orJson, PhaseTransition.fromStr_printed, Prog.ret_bind, Prog.run_bind_ret, true_and]
      rw [← agent.applyTransition_fails_iff hl "no skills configured" t]
      rcases (agent.applyTransition "no skills configured" sid t).run (handle env) ⟨cleared env sid w, []⟩ with ⟨r, c'⟩
      cases r <;> simp [Except.map, FailsIdly]

/-- A run that goes on applies no transition. -/
theorem noEffect_iff {state : InterruptedState} {decision : ApprovalDecision} {history : List Message}
    {pending : List ToolCall} {t : List Event} {x : Except AgentError AgentOutput}
    (h : (agent.resumeToolCallOrCheckpoint sid state decision history pending).Plays t x) :
    NoEffect t ↔ ¬ Started t := by
  have hnone : ∀ y ∈ t, applied y = false := by
    rintro ⟨q, r⟩ hy
    have hq := (agent.resumeToolCallOrCheckpoint_only state decision history pending).plays h _ hy
    cases q with
    | sql st =>
      rcases hq with hq | ⟨_, _, hq⟩
      · exact hq.elim
      · cases st <;> first | rfl | exact hq.elim
    | _ => rfl
  simp only [NoEffect, Started, not_exists, not_and, not_not]
  exact ⟨fun h y hy => (h y hy).1, fun h y hy => ⟨h y hy, hnone y hy⟩⟩

theorem resumeToolCallOrCheckpoint_failsIdly_iff (state : InterruptedState) (decision : ApprovalDecision)
    (history : List Message) (pending : List ToolCall) :
    FailsIdly ((agent.resumeToolCallOrCheckpoint sid state decision history pending).run (handle env)
        ⟨cleared env sid w, []⟩) ↔
      (agent.executionTools state.activeToolNames).Lacks (decidedCalls decision pending) ∧
        agent.BreaksOff sid state (history ++ [.ofText .user (agent.observed state.activeToolNames decision pending
          (completionOrder (agent.answered env w sid state decision history pending)))])
          (agent.answered env w sid state decision history pending) := by
  have hplays := Prog.run_plays (handle env) (agent.resumeToolCallOrCheckpoint sid state decision history pending)
    (cleared env sid w)
  exact (and_congr_right' (agent.noEffect_iff hplays)).trans (resumeToolCallOrCheckpoint_fails_iff hplays)

/-- A decision fails without an effect exactly when it is fruitless. -/
theorem resumeAct_fails_iff {l : Life} (hl : (cleared env sid w).life sid = some l) (resolved : Resolved)
    (decision : ApprovalDecision) :
    FailsIdly ((agent.resumeAct sid resolved decision).run (handle env) ⟨cleared env sid w, []⟩) ↔
      agent.Fruitless env w sid resolved decision := by
  obtain ⟨state, payload⟩ := resolved
  unfold resumeAct Fruitless
  cases state with
  | pendingPhaseGate id transitionJson => exact agent.resumePhaseGate_fails_iff hl transitionJson decision
  | pendingToolCall =>
    cases payload with
    | some p => exact agent.resumeToolCallOrCheckpoint_failsIdly_iff ..
    | none => simp [FailsIdly, NoEffect]
  | pendingCheckpoint =>
    cases payload with
    | some p => exact agent.resumeToolCallOrCheckpoint_failsIdly_iff ..
    | none => simp [FailsIdly, NoEffect]

/-- A resume of an interrupted session is retryable exactly when the interrupt is not lost. -/
theorem resume_retryable_iff (env : Env) (w : World) (userId : String) (sid : SessionId)
    (approvalId : ApprovalId) (decision : ApprovalDecision) (stateJson : JsonText InterruptedState)
    (hw : w.life sid = some ⟨.interrupted, some stateJson⟩) :
    agent.Retryable env w userId sid approvalId decision ↔ ¬ agent.Lost env w userId sid approvalId decision := by
  have hend := agent.resume_end env userId sid approvalId decision w
  unfold Retryable
  generalize (agent.resume userId sid approvalId decision).run (handle env) ⟨w, []⟩ = x at hend ⊢
  cases hend with
  | kept hnot hl _ => exact ⟨fun _ ⟨resolved, h, h₂, _⟩ => hnot resolved h h₂, fun _ _ => hl⟩
  | @halfway resolved e c' l h h₂ h₄ hl ha hr =>
    have hlost : agent.Lost env w userId sid approvalId decision := ⟨resolved, h, h₂, .inl h₄⟩
    refine ⟨fun hret => ?_, fun hn => absurd hlost hn⟩
    obtain ⟨t, ht, hq⟩ := hr.trace
    have hsame := hret ⟨⟨e, rfl⟩, by rw [ht]; exact fun x hx => noEffect_of_clear (hq x (by simpa using hx))⟩
    rw [ha, hw] at hsame
    simp at hsame
  | @acted resolved h h₂ h₄ ha =>
    have hlost : agent.Lost env w userId sid approvalId decision ↔ agent.Fruitless env w sid resolved decision := by
      constructor
      · rintro ⟨resolved', h', -, hf⟩
        obtain rfl := h.unique h'
        exact hf.resolve_left fun hn => hn h₄
      · exact fun hf => ⟨resolved, h, h₂, .inr hf⟩
    rw [hlost, ← agent.resumeAct_fails_iff ha, Prog.run_trace]
    have hs := agent.resumeAct_suspends env sid resolved decision ⟨cleared env sid w, []⟩
    generalize (agent.resumeAct sid resolved decision).run (handle env) ⟨cleared env sid w, []⟩ = y at hs ⊢
    have hidle : FailsIdly (y.1, ⟨y.2.state, clearing env sid w ++ y.2.trace⟩) ↔ FailsIdly y := by
      simp only [FailsIdly, noEffect_append, noEffect_clearing, true_and]
    dsimp only
    rw [hidle]
    refine ⟨fun hret hf => ?_, fun hn hf => absurd hf hn⟩
    -- However the decision ends in an error, the session is not as it was: the interrupt is gone or the status is.
    have hsame : y.2.state.life sid = some ⟨.interrupted, some stateJson⟩ := (hret hf).trans hw
    cases hs with
    | quiet hl => rw [hl] at hsame; exact absurd (ha.symm.trans hsame) (by simp)
    | suspended _ _ hr =>
      obtain ⟨a, ha⟩ := hr
      obtain ⟨e, he⟩ := hf.1
      rw [ha] at he
      cases he
    | halfway _ hb hl _ =>
      obtain rfl := Option.some.inj (ha.symm.trans hb)
      exact absurd (hl.symm.trans hsame) (by simp)

/-- A session that is suspended at the gate before a skill that does not exist. -/
def atGate : World :=
  (gated.serve (.asksFor []) (.start (World.fresh ⟨[.draft]⟩ 0))
    [.createSessionWithSkill "u" "draft", .advancePhase "u" 0 "text\nNEXT_SKILL: review\nSUMMARY: done"]).state

theorem atGate_life :
    atGate.life 0 = some ⟨.interrupted, some (.ofValue (.pendingPhaseGate 1 (.ofValue ⟨"review", "done", "text"⟩)))⟩ := by
  decide +kernel

/-- The resume is refused with another approval, and can be repeated. -/
theorem resume_retryable_wrong_id : Retryable gated (.asksFor []) atGate "u" 0 7 .approved ↔
    ¬ Lost gated (.asksFor []) atGate "u" 0 7 .approved :=
  gated.resume_retryable_iff _ _ _ _ _ _ _ atGate_life

/-- Approving a transition to a skill that does not exist fails and loses the interrupt. -/
theorem resume_unknown_skill :
    (∃ stateJson, atGate.life 0 = some ⟨.interrupted, some stateJson⟩) ∧
      ¬ Retryable gated (.asksFor []) atGate "u" 0 1 .approved := by
  refine ⟨⟨_, atGate_life⟩, fun h => ?_⟩
  have hfails : FailsIdly ((gated.resume "u" 0 1 .approved).run (handle (.asksFor [])) ⟨atGate, []⟩) :=
    ⟨⟨.skill (.notFound "review"), by decide +kernel⟩, by unfold NoEffect; decide +kernel⟩
  have hlife : ((gated.resume "u" 0 1 .approved).run (handle (.asksFor [])) ⟨atGate, []⟩).2.state.life 0 =
      some ⟨.active, none⟩ := by decide +kernel
  have := (h hfails).symm.trans hlife
  rw [atGate_life] at this
  simp at this

end Agent

end AgentVerse
