import AgentVerse.Agent.Turn

/-!
# The course of an invocation

An invocation first reads its session, which binds it to a skill (`boundSkill`), then runs a strategy, and keeps the
turn or suspends the session (`InvokeRun`).
-/

namespace AgentVerse

open Effects

variable {env : Env} {c c' : Config Reply World} {sid : SessionId}

namespace Agent

variable (agent : Agent)

/-- The skill that an invocation of a session runs under: the one of the session, or the one that routing finds for
the input. -/
def boundSkill (w : World) (sid : SessionId) (input : String) : Option SkillId :=
  match (w.store.row? sid).bind (·.skillContextJson) with
  | some json => json.fromStr.toOption.map (·.skillId)
  | none => agent.skills.bind fun cfg => cfg.route input (w.skills.eligible cfg.mode)

/-- The context that an invocation of a session runs in: the one of the session, or that of the skill that routing
finds for the input. -/
def boundContext (w : World) (sid : SessionId) (input : String) : Option SkillContext :=
  match (w.store.row? sid).bind (·.skillContextJson) with
  | some json => json.fromStr.toOption
  | none =>
    agent.skills.bind fun cfg => (cfg.route input (w.skills.eligible cfg.mode)).bind fun skillId =>
      (w.skills.compileContext skillId).toOption

theorem resolveSkill_bound {input : String} {x : Option SkillContext × Option String}
    (h : (agent.resolveSkill sid input).run (handle env) c = (.ok x, c')) :
    x.1.map (·.skillId) = agent.boundSkill c.state sid input ∧ x.1 = agent.boundContext c.state sid input := by
  unfold resolveSkill at h
  obtain ⟨json, c₁, hget, h⟩ := (Prog.run_bind_eq_ok _).mp h
  rw [sess, Prog.run_mapErr_eq_ok, SessionMemory.getSkillContext_ok] at hget
  obtain ⟨-, hcol, rfl⟩ := hget
  have hcol : (c.state.store.row? sid).bind (·.skillContextJson) = json := by
    obtain ⟨row, hrow, rfl⟩ := Option.map_eq_some_iff.mp hcol
    rw [hrow, Option.bind_some]
  unfold boundSkill boundContext
  rw [hcol]
  cases json with
  | some json =>
    cases json with
    | unreadable e => cases h
    | printed ctx => cases h; exact ⟨rfl, rfl⟩
  | none =>
    dsimp only at h
    cases hcfg : agent.skills with
    | none => rw [hcfg] at h; cases h; exact ⟨rfl, rfl⟩
    | some cfg =>
      rw [hcfg] at h
      simp only [request, Prog.perform_bind, Prog.run_ask] at h
      have hskills : (handle env .readSkills (c.after (handle env) (.sql (.selectSkillContext sid))).state).1 =
          c.state.skills := handle_skills _ _
      rw [hskills] at h
      rw [Option.bind_some, Option.bind_some]
      cases hroute : cfg.route input (c.state.skills.eligible cfg.mode) with
      | none => rw [hroute] at h; cases h; exact ⟨rfl, rfl⟩
      | some skillId =>
        rw [hroute] at h
        simp only [Prog.run_ask] at h
        cases hctx : (handle env .readSkills ((c.after (handle env) (.sql (.selectSkillContext sid))).after
            (handle env) .readSkills).state).1.compileContext skillId with
        | error e => rw [hctx] at h; cases h
        | ok ctx =>
          rw [hctx] at h
          obtain ⟨u, c₁, -, h⟩ := (Prog.run_bind_eq_ok _).mp h
          cases h
          have hagain : (handle env .readSkills ((c.after (handle env) (.sql (.selectSkillContext sid))).after
              (handle env) .readSkills).state).1 = c.state.skills := hskills
          rw [hagain] at hctx
          refine ⟨congrArg some (SkillRegistry.compileContext_skillId hctx), ?_⟩
          rw [Option.bind_some, hctx]
          rfl

/-- What a prepared invocation is bound to. -/
theorem prepare_ok {userId input : String} {p : Prepared}
    (h : (agent.prepare userId sid input).run (handle env) c = (.ok p, c')) :
    c.state.owns userId sid ∧ p.skillCtx.map (·.skillId) = agent.boundSkill c.state sid input ∧
      p.skillCtx = agent.boundContext c.state sid input ∧ Reaches (handle env) (Request.OfTurn sid) c c' := by
  have hr := (agent.prepare_only (s := sid) userId input).reaches (h := handle env) c
  rw [h] at hr
  unfold prepare at h
  obtain ⟨u, c₁, hown, h⟩ := (Prog.run_bind_eq_ok _).mp h
  obtain ⟨x, c₂, hopen, h⟩ := (Prog.run_bind_eq_ok _).mp h
  obtain ⟨y, c₃, hskill, h⟩ := (Prog.run_bind_eq_ok _).mp h
  cases h
  obtain ⟨-, howns, hc₁⟩ := assertOwner_ok.mp hown
  obtain ⟨hbound, hcontext⟩ := agent.resolveSkill_bound hskill
  have h₁₂ : Reaches (handle env) (fun q => q.Idle ∨ ∃ x, q = .sql (.updatePhaseOpening sid x)) c c₂ := by
    have := (agent.openingContext_only (s := sid) userId input).reaches (h := handle env) c₁
    rw [hopen] at this
    exact Reaches.trans (hc₁ ▸ .step (.inl trivial) .refl) this
  have hcol : (c₂.state.store.row? sid).map (·.skillContextJson) =
      (c.state.store.row? sid).map (·.skillContextJson) := keeps_of_reaches h₁₂ fun q hq => by
    rcases hq with hq | ⟨x, rfl⟩
    · exact hq.keeps
    · intro s f hf _ row
      simp only [Statement.update?, Option.some.injEq, Prod.mk.injEq] at hf
      obtain ⟨-, rfl⟩ := hf
      rfl
  have hcol : (c₂.state.store.row? sid).bind (·.skillContextJson) =
      (c.state.store.row? sid).bind (·.skillContextJson) := column_bind hcol
  have hskills := h₁₂.frame (·.skills) fun q w _ => handle_skills q w
  refine ⟨howns, hbound.trans ?_, hcontext.trans ?_, hr⟩
  · simp only [boundSkill, hcol, hskills]
  · simp only [boundContext, hcol, hskills]

/-- The two ways an invocation goes. -/
inductive InvokeRun (env : Env) (userId : String) (sid : SessionId) (input : String) (c : Config Reply World) :
    Except AgentError AgentOutput × Config Reply World → Prop where
  /-- It answers or fails. -/
  | ended {r : Except AgentError AgentOutput} {c' : Config Reply World}
      (hr : Reaches (handle env) (Request.OfTurn sid) c c') : InvokeRun env userId sid input c (r, c')
  /-- Its strategy run is stopped by the approval hook. -/
  | interrupted {p : Prepared} {c₁ c₂ : Config Reply World} {interrupt : HitlInterrupt}
      (hp : (agent.prepare userId sid input).run (handle env) c = (.ok p, c₁))
      (hrun : (agent.runPrepared userId sid p).run (handle env) c₁ = (.ok (.interrupted interrupt), c₂)) :
      InvokeRun env userId sid input c ((handleToolInterrupt sid interrupt p.skillCtx).run (handle env) c₂)

theorem invoke_run (env : Env) (userId : String) (sid : SessionId) (input : String) (c : Config Reply World) :
    agent.InvokeRun env userId sid input c ((agent.invoke userId sid input).run (handle env) c) := by
  unfold invoke
  have hprep := (agent.prepare_only (s := sid) userId input).reaches (h := handle env) c
  rcases hp : (agent.prepare userId sid input).run (handle env) c with ⟨r₁, c₁⟩
  rw [hp] at hprep
  cases r₁ with
  | error e => rw [Prog.run_bind_error _ hp]; exact .ended hprep
  | ok p =>
    rw [Prog.run_bind_ok _ hp]
    have hstrategy := (agent.runPrepared_only (s := sid) userId p).reaches (h := handle env) c₁
    rcases hrun : (agent.runPrepared userId sid p).run (handle env) c₁ with ⟨r₂, c₂⟩
    rw [hrun] at hstrategy
    cases r₂ with
    | error e => rw [Prog.run_bind_error _ hrun]; exact .ended (hprep.trans hstrategy)
    | ok outcome =>
      rw [Prog.run_bind_ok _ hrun]
      cases outcome with
      | done text =>
        exact .ended ((hprep.trans hstrategy).trans ((agent.keepTurn_only userId p.input text).reaches c₂))
      | interrupted interrupt => exact .interrupted hp hrun

/-- A strategy run of an invocation is stopped at an intercepted call of a model reply. -/
theorem runPrepared_stopped {B : (q : Request) → Reply q → Prop} (sid : SessionId) (userId : String) (p : Prepared) :
    (agent.runPrepared userId sid p).Meets B (fun _ => True) fun r => ∀ i, r = .ok (.interrupted i) →
      ∃ policy, agent.hitl = some policy ∧ Stopped B (p.hitlContext sid policy) 0 i := by
  refine Prog.Meets.bind (P := AnyResult) (Prog.Meets.mono (agent.longTermText_only (A := fun _ => True)
    (fun _ _ => trivial) userId p.input) (fun _ _ _ => trivial) (fun _ h => h) fun _ h => h) (fun longTerm _ => ?_)
    fun e _ i h => by cases h
  refine Prog.Meets.bind (Prog.Meets.mono (agent.strategyForInvoke_meets (W := fun _ => False) p.input
    (agent.activeToolNames p.skillCtx)) (fun _ _ h => h) (fun _ _ => trivial) fun _ h => h) (fun strategy hs => ?_)
    fun e _ i h => by cases h
  obtain ⟨kind, tools, n, rfl, -⟩ := hs strategy rfl
  refine Prog.Meets.mono (agent.runStrategy_meets (W := fun _ => False) (fun _ _ _ => callsAvoid_false 1 _ _)
    (fun _ _ _ _ _ _ h => h.elim) (fun _ _ _ _ _ _ _ _ _ _ h => h) tools n _ _) (fun _ _ h => h)
    (fun _ _ => trivial) fun r hr i hi => ?_
  obtain ⟨policy, hpolicy, -, hstopped⟩ := hr i hi
  exact ⟨policy, hpolicy, hstopped⟩

end Agent

end AgentVerse
