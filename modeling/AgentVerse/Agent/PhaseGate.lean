import AgentVerse.Agent.Resumption
import AgentVerse.Agent.Suspend
import AgentVerse.Agent.Calls

/-!
# Phase gates

A phase transition is applied in two places: by `advance_phase` where no gate stops it, and by `resume` after an
approval. Run to their ends on the same session, the two ways leave the same columns if the session was active with no
interrupt pending, or if the next skill is not registered (`gated_alike_iff`). On other sessions the approval also
activates the session (`gated_reactivates`).
-/

namespace AgentVerse

open Effects

variable {env : Env} {w : World} {c : Config Reply World} {sid : SessionId} {row : SessionRow}

/-- The database executes every statement and the queue takes every request. -/
structure Env.Serves (env : Env) : Prop where
  store : ∀ n, env.storeError n = none
  queue : ∀ n, env.queueError n = none

/-- The columns of a session that a phase transition writes. -/
def SessionRow.binding (row : SessionRow) : Option (JsonText SkillContext) × Option String :=
  (row.skillContextJson, row.phaseOpeningContext)

def World.binding (w : World) (sid : SessionId) : Option (Option (JsonText SkillContext) × Option String) :=
  (w.store.row? sid).map SessionRow.binding

/-- The columns of a session that a gated phase transition writes. -/
def World.phase (w : World) (sid : SessionId) : Option (Life × Option (JsonText SkillContext) × Option String) :=
  (w.store.row? sid).map fun row => (row.life, row.binding)

/-! ### Rows after the writes -/

/-- The two writes of an interrupt, on a session that exists. -/
theorem twoWrites_row (henv : env.Serves) (x : Option (JsonText InterruptedState)) (status : SessionStatus)
    (hrow : c.state.store.row? sid = some row) :
    ∃ t c', (twoWrites sid x status).run (handle env) c = (.ok (), c') ∧ c'.state.skills = c.state.skills ∧
      c'.state.store.row? sid = some { row with interruptedState := x, status := status, updatedAt := t } := by
  obtain ⟨hc₁, h₁⟩ := SessionMemory.setInterruptedState_spec env sid x c
  rcases hrun₁ : (SessionMemory.setInterruptedState sid x).run (handle env) c with ⟨r₁, c₁⟩
  rw [hrun₁] at h₁ hc₁
  rcases h₁ with ⟨rfl, -, row₁, hb₁, ha₁⟩ | ⟨e, -, hf, -⟩
  · obtain rfl := Option.some.inj (hrow.symm.trans hb₁)
    obtain ⟨hc₂, h₂⟩ := SessionMemory.updateStatus_spec env sid status c₁
    rcases hrun₂ : (SessionMemory.updateStatus sid status).run (handle env) c₁ with ⟨r₂, c₂⟩
    rw [hrun₂] at h₂ hc₂
    rcases h₂ with ⟨rfl, -, row₂, hb₂, ha₂⟩ | ⟨e, -, hf, -⟩
    · obtain rfl := Option.some.inj (ha₁.symm.trans hb₂)
      refine ⟨_, c₂, ?_, ?_, ha₂⟩
      · unfold twoWrites sess
        rw [Prog.run_bind_ok _ ((Prog.run_mapErr_eq_ok _).mpr hrun₁)]
        exact (Prog.run_mapErr_eq_ok _).mpr hrun₂
      · have hskills := ((twoWrites_only sid x status).reaches (h := handle env) c).frame (·.skills)
          fun q w _ => handle_skills q w
        have hrun : ((twoWrites sid x status).run (handle env) c).2 = c₂ := by
          unfold twoWrites sess
          rw [Prog.run_bind_ok _ ((Prog.run_mapErr_eq_ok _).mpr hrun₁), (Prog.run_mapErr_eq_ok _).mpr hrun₂]
        rwa [hrun] at hskills
    · rcases hf with ⟨hs, -⟩ | hnone
      · exact absurd (henv.store _) hs
      · rw [show c₁.state.store.row? sid = some _ from ha₁] at hnone
        cases hnone
  · rcases hf with ⟨hs, -⟩ | hnone
    · exact absurd (henv.store _) hs
    · rw [hrow] at hnone
      cases hnone

namespace Agent

variable (agent : Agent)

/-- The context that a session is bound to by a transition to a skill, if the skill is registered. -/
def nextContext (w : World) (skillId : SkillId) : Option SkillContext :=
  agent.skills.bind fun _ => (w.skills.compileContext skillId).toOption

/-- A transition to a registered skill writes its two columns. -/
theorem applyTransition_registered (henv : env.Serves) (notConfigured : String) {transition : PhaseTransition}
    {ctx : SkillContext} (hctx : agent.nextContext c.state transition.nextSkill = some ctx)
    (hrow : c.state.store.row? sid = some row) :
    ∃ c', (agent.applyTransition notConfigured sid transition).run (handle env) c = (.ok (), c') ∧
      c'.state.store.row? sid = some { row with
        skillContextJson := some (.ofValue ctx)
        phaseOpeningContext := some ("Context from previous phase: " ++ transition.summary) } := by
  unfold nextContext at hctx
  unfold applyTransition
  cases hskills : agent.skills with
  | none => rw [hskills] at hctx; cases hctx
  | some cfg =>
    rw [hskills, Option.bind_some] at hctx
    have hcompile : c.state.skills.compileContext transition.nextSkill = .ok ctx := by
      cases h : c.state.skills.compileContext transition.nextSkill with
      | error e => rw [h] at hctx; cases hctx
      | ok ctx' => rw [h] at hctx; exact congrArg Except.ok (Option.some.inj hctx)
    have hread : (handle env .readSkills c.state).1 = c.state.skills := rfl
    simp only [request, Prog.perform_bind, Prog.run_ask, hread, hcompile]
    obtain ⟨-, hend⟩ := SessionMemory.applyPhaseTransition_spec env sid (.ofValue ctx)
      ("Context from previous phase: " ++ transition.summary) (c.after (handle env) .readSkills)
    rcases hend with ⟨hr, -, row', hb, ha⟩ | ⟨e, -, hf, -⟩
    · obtain rfl : row = row' := Option.some.inj (hrow.symm.trans hb)
      refine ⟨_, ?_, ha⟩
      rw [sess, Prog.run_mapErr, hr]
      rfl
    · rcases hf with ⟨hs, -⟩ | hnone
      · exact absurd (henv.store _) hs
      · rw [show (c.after (handle env) .readSkills).state.store.row? sid = some row from hrow] at hnone
        cases hnone

/-- A transition to a skill that is not registered fails and writes nothing. -/
theorem applyTransition_unregistered (notConfigured : String) {transition : PhaseTransition}
    (hctx : agent.nextContext c.state transition.nextSkill = none) :
    ∃ e c', (agent.applyTransition notConfigured sid transition).run (handle env) c = (.error e, c') ∧
      c'.state.store = c.state.store := by
  unfold nextContext at hctx
  unfold applyTransition
  cases hskills : agent.skills with
  | none => exact ⟨_, _, rfl, rfl⟩
  | some cfg =>
    rw [hskills, Option.bind_some] at hctx
    obtain ⟨e, he⟩ : ∃ e, c.state.skills.compileContext transition.nextSkill = .error e := by
      cases h : c.state.skills.compileContext transition.nextSkill with
      | error e => exact ⟨e, rfl⟩
      | ok ctx => rw [h] at hctx; cases hctx
    have hread : (handle env .readSkills c.state).1 = c.state.skills := rfl
    simp only [request, Prog.perform_bind, Prog.run_ask, hread, he]
    exact ⟨_, _, rfl, rfl⟩

/-! ### The two routes -/

/-- The look at the session before a transition: the owner and the gate. -/
private theorem phaseGate_runs (henv : env.Serves) (hrow : c.state.store.row? sid = some row) :
    ∃ c', (agent.phaseGate sid).run (handle env) c = (.ok (agent.gateAt c.state sid), c') ∧
      c'.state.store = c.state.store ∧ c'.state.skills = c.state.skills := by
  have hreach := (agent.phaseGate_only (s := sid)).reaches (h := handle env) c
  rcases hrun : (agent.phaseGate sid).run (handle env) c with ⟨r, c'⟩
  rw [hrun] at hreach
  have hstore : c'.state.store = c.state.store := hreach.frame (·.store) fun q w hq => hq.store w
  have hskills : c'.state.skills = c.state.skills := hreach.frame (·.skills) fun q w _ => handle_skills q w
  cases r with
  | ok gate => exact ⟨c', by rw [agent.phaseGate_spec hrun], hstore, hskills⟩
  | error e =>
    exfalso
    unfold phaseGate at hrun
    cases hh : agent.hitl with
    | none => rw [hh] at hrun; cases hrun
    | some policy =>
      have hget : (SessionMemory.getSkillContext sid).run (handle env) c = (.ok row.skillContextJson,
          c.after (handle env) (.sql (.selectSkillContext sid))) :=
        SessionMemory.getSkillContext_ok.mpr ⟨henv.store _, by rw [hrow]; rfl, rfl⟩
      rw [hh] at hrun
      dsimp only at hrun
      rw [sess, Prog.run_bind_ok _ ((Prog.run_mapErr_eq_ok _).mpr hget)] at hrun
      cases hrun

/-- What `advance_phase` does once it has looked at the session. -/
private def afterLook (sid : SessionId) (transition : PhaseTransition) :
    Option SkillId → M AgentError (Option PhaseAdvanceResult)
  | some skillId => suspendAtGate sid skillId transition >>= fun r => .ret (some r)
  | none =>
    agent.applyTransition "no skill registry configured on this agent" sid transition >>= fun _ =>
      .ret (some (.advanced transition))

private theorem advancePhase_looks (henv : env.Serves) {userId output : String} {transition : PhaseTransition}
    (howns : c.state.owns userId sid) (hparse : parsePhaseTransition output = some transition) :
    ∃ c', c'.state.store = c.state.store ∧ c'.state.skills = c.state.skills ∧
      (agent.advancePhase userId sid output).run (handle env) c =
        (agent.afterLook sid transition (agent.gateAt c.state sid)).run (handle env) c' := by
  obtain ⟨row, hrow, -⟩ := Option.map_eq_some_iff.mp howns
  have hidle : Request.Idle (.sql (.selectSession sid)) := trivial
  have hstore₁ : (c.after (handle env) (.sql (.selectSession sid))).state.store = c.state.store := hidle.store _
  have hown : (sess (SessionManager.assertOwner userId sid)).run (handle env) c =
      (.ok (), c.after (handle env) (.sql (.selectSession sid))) :=
    assertOwner_ok.mpr ⟨henv.store _, howns, rfl⟩
  obtain ⟨c', hrun, hstore, hskills⟩ := agent.phaseGate_runs henv (hstore₁ ▸ hrow)
  have hgate : agent.gateAt (c.after (handle env) (.sql (.selectSession sid))).state sid = agent.gateAt c.state sid := by
    rw [gateAt, gateAt, hstore₁]
  refine ⟨c', hstore.trans hstore₁, hskills.trans (handle_skills _ _), ?_⟩
  unfold advancePhase
  rw [Prog.run_bind_ok _ hown, hparse]
  dsimp only
  rw [Prog.run_bind_ok _ hrun, hgate]
  cases agent.gateAt c.state sid <;> rfl

/-- At its gate a transition suspends the session under the next id. -/
private theorem suspendAtGate_row (henv : env.Serves) (skillId : SkillId) (transition : PhaseTransition)
    (hrow : c.state.store.row? sid = some row) :
    ∃ id t c', (suspendAtGate sid skillId transition).run (handle env) c = (.ok (.pending id), c') ∧
      c'.state.skills = c.state.skills ∧
      c'.state.store.row? sid = some { row with
        interruptedState := some (.ofValue (.pendingPhaseGate id (.ofValue transition)))
        status := .interrupted
        updatedAt := t } := by
  have hreply : ∀ kind, (handle env (.submit sid kind) c.state).1 = .ok c.state.nextUuid := by
    intro kind
    simp [handle, answer, queueOp, henv.queue, InMemoryQueue.submit]
  obtain ⟨t, c', hrun, hskills, hrow'⟩ := twoWrites_row henv
    (some (.ofValue (.pendingPhaseGate c.state.nextUuid (.ofValue transition)))) .interrupted
    (c := c.after (handle env) (.submit sid (.phaseGate skillId transition.nextSkill transition.deliverable)))
    (by rw [Config.after_state, handle_store fun st h => by cases h]; exact hrow)
  refine ⟨c.state.nextUuid, t, c', ?_, hskills.trans (handle_skills _ _), hrow'⟩
  unfold suspendAtGate
  rw [Prog.run_ask, hreply]
  dsimp only
  rw [persistInterrupt_eq, Prog.run_bind_ok _ hrun]
  rfl

/-- An approval of a gated transition leads to the transition being applied, on an active session. -/
private theorem resume_atGate (henv : env.Serves) {userId : String} {id : ApprovalId} {transition : PhaseTransition}
    (howns : w.owns userId sid) (hrow : w.store.row? sid = some row)
    (hpending : row.interruptedState = some (.ofValue (.pendingPhaseGate id (.ofValue transition)))) :
    ∃ t c', c'.state.skills = w.skills ∧
      c'.state.store.row? sid = some { row with interruptedState := none, status := .active, updatedAt := t } ∧
      (agent.resume userId sid id .approved).run (handle env) ⟨w, []⟩ =
        (agent.applyTransition "no skills configured" sid transition >>= fun _ =>
          .ret (.done ("Phase transition to " ++ transition.nextSkill ++ " approved."))).run (handle env) c' := by
  have hres : Resumable env w userId sid id ⟨.pendingPhaseGate id (.ofValue transition), none⟩ :=
    ⟨henv.store _, henv.store _, howns, ⟨row.life, by rw [World.life, hrow]; rfl, hpending⟩, rfl, rfl⟩
  have hlook : Reaches (handle env) Request.Idle ⟨w, []⟩ (afterChecks env sid ⟨w, []⟩) :=
    .step trivial (.step trivial .refl)
  have hstore : (afterChecks env sid ⟨w, []⟩).state.store = w.store := hlook.frame (·.store) fun q w hq => hq.store w
  have hskills : (afterChecks env sid ⟨w, []⟩).state.skills = w.skills :=
    hlook.frame (·.skills) fun q w _ => handle_skills q w
  obtain ⟨t, c', hrun, hskills', hrow'⟩ := twoWrites_row henv none .active
    (c := afterChecks env sid ⟨w, []⟩) (hstore ▸ hrow)
  refine ⟨t, c', hskills'.trans hskills, hrow', ?_⟩
  unfold resume
  rw [Prog.run_bind_ok _ (resumeChecks_ok.mpr ⟨hres, rfl⟩), resumeClear_eq, Prog.run_bind_ok _ hrun]
  rfl

/-! ### Gated and ungated -/

/-- A transition that is stopped by the gate of `agent` and then approved ends like the same transition under an
agent without the gate: in the same columns if the next skill is registered, otherwise in an error with the skill
binding and the opening context as they were. -/
def TransitionsAlike (agent agent' : Agent) (env env' : Env) (w : World) (userId : String) (sid : SessionId)
    (output : String) (transition : PhaseTransition) : Prop :=
  let gated := agent.entry env w (.advancePhase userId sid output)
  let ungated := agent'.entry env' w (.advancePhase userId sid output)
  ∃ id, gated.result = .ok (.phase (some (.pending id))) ∧
    let resumed := agent.entry env gated.after (.resume userId sid id .approved)
    if (agent.nextContext w transition.nextSkill).isSome then
      resumed.after.phase sid = ungated.after.phase sid
    else
      (∃ e, resumed.result = .error e) ∧ (∃ e, ungated.result = .error e) ∧
        resumed.after.binding sid = w.binding sid ∧ ungated.after.binding sid = w.binding sid

/-- Gated and then approved is the same as ungated exactly when the next skill is not registered, or the session is
active with no interrupt pending. -/
theorem gated_alike_iff {agent agent' : Agent} {env env' : Env} {userId output : String} {skillId : SkillId}
    {transition : PhaseTransition} (henv : env.Serves) (henv' : env'.Serves) (howns : w.owns userId sid)
    (hparse : parsePhaseTransition output = some transition) (hgate : agent.gateAt w sid = some skillId)
    (hskills : agent'.skills = agent.skills) (hopen : agent'.gateAt w sid = none) :
    TransitionsAlike agent agent' env env' w userId sid output transition ↔
      ((agent.nextContext w transition.nextSkill).isSome → w.life sid = some ⟨.active, none⟩) := by
  obtain ⟨row, hrow, huser⟩ := Option.map_eq_some_iff.mp howns
  have hlife : w.life sid = some row.life := by rw [World.life, hrow]; rfl
  -- The gated call suspends the session.
  obtain ⟨c₁, hstore₁, hskills₁, hlook⟩ := agent.advancePhase_looks (c := ⟨w, []⟩) henv howns hparse
  obtain ⟨id, t₁, c₂, hsuspend, hskills₂, hrow₂⟩ := suspendAtGate_row henv skillId transition
    (show c₁.state.store.row? sid = some row from hstore₁ ▸ hrow)
  have hgated : (agent.advancePhase userId sid output).run (handle env) ⟨w, []⟩ =
      (.ok (some (.pending id)), c₂) := by
    rw [hlook, hgate, afterLook, Prog.run_bind_ok _ hsuspend]
    rfl
  -- The approval applies the transition.
  have howns₂ : c₂.state.owns userId sid := by
    rw [World.owns, hrow₂, ← huser]
    rfl
  obtain ⟨t₂, c₃, hskills₃, hrow₃, hresume⟩ := agent.resume_atGate henv howns₂ hrow₂ rfl
  -- The ungated call applies it at once.
  obtain ⟨c₄, hstore₄, hskills₄, hlook'⟩ := agent'.advancePhase_looks (c := ⟨w, []⟩) henv' howns hparse
  rw [hopen, afterLook] at hlook'
  have hrow₄ : c₄.state.store.row? sid = some row := hstore₄ ▸ hrow
  have hnext₃ : agent.nextContext c₃.state transition.nextSkill = agent.nextContext w transition.nextSkill := by
    rw [nextContext, nextContext, hskills₃, hskills₂, hskills₁]
  have hnext₄ : agent'.nextContext c₄.state transition.nextSkill = agent.nextContext w transition.nextSkill := by
    rw [nextContext, nextContext, hskills₄, hskills]
  unfold TransitionsAlike
  rw [agent.entry_eq (p := agent.advancePhase userId sid output) (f := .phase) rfl,
    agent'.entry_eq (p := agent'.advancePhase userId sid output) (f := .phase) rfl]
  simp only [hgated, hlook', Except.map, Except.ok.injEq, ApiResult.phase.injEq, Option.some.injEq,
    PhaseAdvanceResult.pending.injEq, exists_eq_left']
  rw [agent.entry_eq (p := agent.resume userId sid id .approved) (f := .output) rfl, hresume]
  cases hctx : agent.nextContext w transition.nextSkill with
  | none =>
    obtain ⟨e₅, c₅, hrun₅, hstore₅⟩ : ∃ e c', (agent.applyTransition "no skills configured" sid transition).run
        (handle env) c₃ = (.error e, c') ∧ c'.state.store = c₃.state.store :=
      agent.applyTransition_unregistered _ (hnext₃.trans hctx)
    obtain ⟨e₆, c₆, hrun₆, hstore₆⟩ : ∃ e c', (agent'.applyTransition "no skill registry configured on this agent" sid
        transition).run (handle env') c₄ = (.error e, c') ∧ c'.state.store = c₄.state.store :=
      agent'.applyTransition_unregistered _ (hnext₄.trans hctx)
    have h₅ : c₅.state.binding sid = some row.binding := by
      rw [World.binding, hstore₅, hrow₃]
      rfl
    have h₆ : c₆.state.binding sid = some row.binding := by
      rw [World.binding, hstore₆, hrow₄]
      rfl
    have hbefore : w.binding sid = some row.binding := by rw [World.binding, hrow]; rfl
    rw [Prog.run_bind_error _ hrun₅, Prog.run_bind_error _ hrun₆]
    constructor
    · intro _ h
      cases h
    · intro _
      exact ⟨⟨_, rfl⟩, ⟨_, rfl⟩, h₅.trans hbefore.symm, h₆.trans hbefore.symm⟩
  | some ctx =>
    obtain ⟨c₅, hrun₅, hrow₅⟩ := agent.applyTransition_registered henv "no skills configured" (hnext₃.trans hctx)
      hrow₃
    obtain ⟨c₆, hrun₆, hrow₆⟩ := agent'.applyTransition_registered henv'
      "no skill registry configured on this agent" (hnext₄.trans hctx) hrow₄
    have h₅ : c₅.state.phase sid = some (⟨.active, none⟩, some (.ofValue ctx),
        some ("Context from previous phase: " ++ transition.summary)) := by
      rw [World.phase, hrow₅]
      rfl
    have h₆ : c₆.state.phase sid = some (row.life, some (.ofValue ctx),
        some ("Context from previous phase: " ++ transition.summary)) := by
      rw [World.phase, hrow₆]
      rfl
    rw [Prog.run_bind_ok _ hrun₅, Prog.run_bind_ok _ hrun₆]
    simp only [Prog.run_ret, Option.isSome_some, if_true, h₅, h₆, hlife, Option.some.injEq, Prod.mk.injEq, and_true,
      true_implies]
    exact eq_comm

end Agent

/-! ### A transition of a session that ended -/

/-- A skill that follows the gated one. -/
def Skill.review : Skill := { Skill.draft with id := "review", phaseGate := false }

/-- The plain agent with skills and no gate. -/
def Agent.ungated : Agent := { Agent.gated with hitl := some .new }

namespace Agent

/-- A session of the gated skill. -/
def atDraft : World :=
  (gated.serve (.asksFor []) (.start (World.fresh ⟨[.draft, .review]⟩ 0)) [.createSessionWithSkill "u" "draft"]).state

/-- The same session, ended. -/
def endedAtDraft : World := (gated.serve (.asksFor []) (.start atDraft) [.endSession "u" 0]).state

private theorem steady_serves (names : List String) : (Env.asksFor names).Serves := ⟨fun _ => rfl, fun _ => rfl⟩

/-- An active session with a gated transition. -/
theorem gated_alike_atDraft :
    TransitionsAlike gated ungated (.asksFor []) (.asksFor []) atDraft "u" 0
        "text\nNEXT_SKILL: review\nSUMMARY: done" ⟨"review", "done", "text"⟩ ↔
      ((gated.nextContext atDraft "review").isSome → atDraft.life 0 = some ⟨.active, none⟩) :=
  gated_alike_iff (steady_serves []) (steady_serves []) (by decide +kernel) (by decide +kernel)
    (show gated.gateAt atDraft 0 = some "draft" by decide +kernel) rfl (by decide +kernel)

/-- The approval of a gated transition reactivates an ended session, which an ungated transition leaves ended. -/
theorem gated_reactivates :
    ¬ TransitionsAlike gated ungated (.asksFor []) (.asksFor []) endedAtDraft "u" 0
      "text\nNEXT_SKILL: review\nSUMMARY: done" ⟨"review", "done", "text"⟩ := by
  rintro ⟨id, hid, h⟩
  have hpending : (gated.entry (.asksFor []) endedAtDraft
      (.advancePhase "u" 0 "text\nNEXT_SKILL: review\nSUMMARY: done")).result = .ok (.phase (some (.pending 1))) := by
    decide +kernel
  obtain rfl : id = 1 := by simpa [hpending, eq_comm] using hid
  rw [if_pos (by decide +kernel)] at h
  revert h
  decide +kernel

end Agent

end AgentVerse
