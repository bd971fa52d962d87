import AgentVerse.Agent.PhaseGate
import AgentVerse.Effects.Sum

/-!
# The skill that a session is bound to

Invocations, resumptions, phase transitions and reloads of the skills, in any interleaving of their requests. An
invocation reads the skill context of its session, routes, and writes without looking again. As long as nothing
was written in between, a context that is stored changes by phase transitions only (`bound_once`); two first
invocations that overlap bind one skill over the other (`bound_twice`).
-/

namespace AgentVerse

open Effects

/-! ### Calls and their requests -/

/-- A request of an agent, or a registry that replaces the current one. -/
abbrev SkillRequest : Type := Request ⊕ SkillRegistry

abbrev SkillReply : SkillRequest → Type := SumReply Reply fun _ => Unit

def handleSkills (env : Env) : Handler SkillReply World :=
  Handler.sum (handle env) fun reg w => ((), { w.tick env with skills := reg })

inductive SkillCall where
  | invoke (userId : String) (sid : SessionId) (input : String)
  | resume (userId : String) (sid : SessionId) (approvalId : ApprovalId) (decision : ApprovalDecision)
  | advancePhase (userId : String) (sid : SessionId) (output : String)
  /-- `loaded` is what the directory of the skills holds. -/
  | reloadSkills (loaded : Except SkillError SkillRegistry)

namespace Agent

variable (agent : Agent)

/-- Replace the skill registry. The summaries are rebuilt with it. -/
def reloadSkills (loaded : Except SkillError SkillRegistry) : Prog SkillRequest SkillReply AgentError Unit :=
  match agent.skills with
  | none => .fail (.skill (.notConfigured "no skills configured on this agent"))
  | some _ =>
    match loaded with
    | .error e => .fail (.skill e)
    | .ok reg => .ask (.inr reg) fun _ => .ret ()

def skillProgram : SkillCall → Prog SkillRequest SkillReply AgentError Unit
  | .invoke userId sid input => (agent.invoke userId sid input).inl >>= fun _ => .ret ()
  | .resume userId sid approvalId decision => (agent.resume userId sid approvalId decision).inl >>= fun _ => .ret ()
  | .advancePhase userId sid output => (agent.advancePhase userId sid output).inl >>= fun _ => .ret ()
  | .reloadSkills loaded => agent.reloadSkills loaded

end Agent

/-! ### Who writes a skill context -/

/-- The skill context of a session, if there is one. -/
def World.skillContext (w : World) (sid : SessionId) : Option (JsonText SkillContext) :=
  (w.store.row? sid).bind (·.skillContextJson)

/-- An invocation looks whether the session is bound. -/
def readsContext (sid : SessionId) : Step SkillReply → Bool
  | ⟨.inl (.sql (.selectSkillContext s)), _⟩ => s = sid
  | _ => false

/-- A skill context of the session is written. -/
def writesContext (sid : SessionId) : Step SkillReply → Bool
  | ⟨.inl (.sql (.updateSkillContext s _)), .ok _⟩ => s = sid
  | ⟨.inl (.sql (.updatePhaseTransition s _ _)), .ok _⟩ => s = sid
  | _ => false

/-- What routing binds the session to. -/
def SkillRequest.binds? (sid : SessionId) : SkillRequest → Option (Option (JsonText SkillContext))
  | .inl (.sql (.updateSkillContext s x)) => if s = sid then some x else none
  | _ => none

/-- `apply_phase_transition`. -/
def SkillRequest.isTransition (sid : SessionId) : SkillRequest → Bool
  | .inl (.sql (.updatePhaseTransition s _ _)) => s = sid
  | _ => false

abbrev SkillView (ι : Type) : Type := View ι SkillReply World

variable {ι : Type}

/-- No skill context of the session was written since the thread that is about to write one looked, unless it is the
same one. -/
def Unraced [DecidableEq ι] (sid : SessionId) (v : SkillView ι) (i : ι) (q : SkillRequest) : Prop :=
  ∀ x ∈ q.binds? sid,
    (∀ e ∈ v.since i (readsContext sid), writesContext sid e.2 = false) ∨ v.state.skillContext sid = x

/-- A skill context that is stored changes by a phase transition only. -/
def WriteOnce (env : Env) (sid : SessionId) (v : SkillView ι) (i : ι) (q : SkillRequest) : Prop :=
  (v.state.skillContext sid).isSome →
    (v.after (handleSkills env) i q).state.skillContext sid = v.state.skillContext sid ∨ q.isTransition sid = true

instance [DecidableEq ι] (sid : SessionId) (v : SkillView ι) (i : ι) (q : SkillRequest) :
    Decidable (Unraced sid v i q) := by
  unfold Unraced
  infer_instance

instance (env : Env) (sid : SessionId) (v : SkillView ι) (i : ι) (q : SkillRequest) :
    Decidable (WriteOnce env sid v i q) := by
  unfold WriteOnce
  infer_instance

variable {env : Env} {sid : SessionId} {v : SkillView ι} {i j : ι} {q : SkillRequest}

/-- What the calls ask. -/
inductive OfSkillCalls (sid : SessionId) (v : SkillView ι) : SkillRequest → Prop where
  | steady {q : Request} (hq : q.Keeps (·.skillContextJson) sid) : OfSkillCalls sid v (.inl q)
  | reload (reg : SkillRegistry) : OfSkillCalls sid v (.inr reg)
  | transition (ctx : JsonText SkillContext) (phaseCtx : String) :
    OfSkillCalls sid v (.inl (.sql (.updatePhaseTransition sid ctx phaseCtx)))
  | binds {x : Option (JsonText SkillContext)} (hx : (v.state.skillContext sid).isSome → v.state.skillContext sid = x) :
    OfSkillCalls sid v (.inl (.sql (.updateSkillContext sid x)))

theorem skillContext_keeps {q : Request} (hq : q.Keeps (·.skillContextJson) sid) (w : World) :
    (handle env q w).2.skillContext sid = w.skillContext sid :=
  column_bind (hq.row w)

/-- A statement that fails leaves the skill context. -/
theorem skillContext_failed {st : Statement} {w : World} {e : String} (h : (handle env (.sql st) w).1 = .error e)
    (hst : st.update?.isSome) : (handle env (.sql st) w).2.skillContext sid = w.skillContext sid := by
  cases hs : env.storeError w.steps with
  | some e' => rw [handle_sql_error _ hs]; rfl
  | none =>
    rw [handle_sql_ok _ hs] at h
    cases st <;> first | cases h | cases hst

/-- The skill context is what it was until it is written. -/
theorem OfSkillCalls.unwritten (hq : OfSkillCalls sid v q)
    (hw : writesContext sid ⟨q, (handleSkills env q v.state).1⟩ = false) :
    (v.after (handleSkills env) i q).state.skillContext sid = v.state.skillContext sid := by
  cases hq with
  | steady hq => exact skillContext_keeps hq v.state
  | reload reg => rfl
  | transition ctx phaseCtx =>
    cases hr : (handle env (.sql (.updatePhaseTransition sid ctx phaseCtx)) v.state).1 with
    | error e => exact skillContext_failed hr rfl
    | ok n => simp [writesContext, handleSkills, Handler.sum, hr] at hw
  | @binds x hx =>
    cases hr : (handle env (.sql (.updateSkillContext sid x)) v.state).1 with
    | error e => exact skillContext_failed hr rfl
    | ok n => simp [writesContext, handleSkills, Handler.sum, hr] at hw

theorem OfSkillCalls.writeOnce (hq : OfSkillCalls sid v q) : WriteOnce env sid v i q := by
  intro hbound
  by_cases hw : writesContext sid ⟨q, (handleSkills env q v.state).1⟩ = true
  · cases hq with
    | steady hq => exact .inl (skillContext_keeps hq v.state)
    | reload reg => exact .inl rfl
    | transition ctx phaseCtx => exact .inr (by simp [SkillRequest.isTransition])
    | @binds x hx =>
      refine .inl ?_
      cases hs : env.storeError v.state.steps with
      | some e =>
        exact skillContext_failed (e := e) (by rw [handle_sql_error _ hs]) rfl
      | none =>
        rw [hx hbound]
        cases hrow : v.state.store.row? sid with
        | none => rw [World.skillContext, hrow] at hbound; cases hbound
        | some row =>
          have hafter : (v.state.store.updateSession sid fun row => { row with skillContextJson := x }).2.row? sid =
              (v.state.store.row? sid).map fun row => { row with skillContextJson := x } :=
            Store.row?_updateSession_same fun _ => rfl
          rw [hrow] at hafter
          simp only [View.after_state, handleSkills, Handler.sum, handle_sql_ok _ hs, Statement.exec,
            World.skillContext, hafter]
          rfl
  · exact .inl (hq.unwritten (by simpa using hw))

/-- What `resume` and `advance_phase` ask. -/
theorem Request.OfResume.ofSkillCalls {s : SessionId} {q : Request} (hq : q.OfResume s) :
    OfSkillCalls sid v (.inl q) := by
  rcases hq with hq | hq | ⟨x, status, hq⟩
  · exact .steady hq.keeps
  · rcases hq with hq | ⟨ctx, phaseCtx, rfl⟩
    · exact .steady hq.idle.keeps
    · by_cases hs : s = sid
      · subst hs
        exact .transition ctx phaseCtx
      · refine .steady fun s' f hf hs' => ?_
        simp only [Statement.update?, Option.some.injEq, Prod.mk.injEq] at hf
        exact absurd (hf.1.trans hs') hs
  · exact .steady (hq.keeps fun _ => ⟨fun _ => rfl, fun _ _ => rfl⟩)

/-! ### The threads -/

section Threads

variable [DecidableEq ι]

/-- Thread `i` found session `s` unbound. -/
def FoundUnbound (sid s : SessionId) (i : ι) (v : SkillView ι) : Prop :=
  s = sid → (∀ e ∈ v.since i (readsContext sid), writesContext sid e.2 = false) → v.state.skillContext sid = none

/-- The terms of the calls. -/
def bindingOnce (sid : SessionId) : Discipline ι SkillReply World :=
  ⟨fun _ => True, Unraced sid, fun v _ q => OfSkillCalls sid v q⟩

theorem FoundUnbound.after {s : SessionId} (hK : FoundUnbound sid s i v) (hq : OfSkillCalls sid v q)
    (hlook : j ≠ i ∨ readsContext sid ⟨q, (handleSkills env q v.state).1⟩ = false) :
    FoundUnbound sid s i (v.after (handleSkills env) j q) := by
  intro hs hfree
  have hsince : ¬ (j = i ∧ readsContext sid ⟨q, (handleSkills env q v.state).1⟩ = true) := by
    rintro ⟨hj, hr⟩
    rcases hlook with h | h
    · exact h hj
    · rw [hr] at h
      cases h
  rw [View.since_after, if_neg hsince] at hfree
  rw [hq.unwritten (hfree _ (List.mem_cons_self ..))]
  exact hK hs fun e he => hfree e (List.mem_cons_of_mem _ he)

theorem foundUnbound_stable (s : SessionId) (i : ι) :
    (bindingOnce sid).Stable (handleSkills env) i (FoundUnbound sid s i) :=
  fun _ _ _ hj _ _ hG hK => hK.after hG (.inl hj)

/-- A program that leaves the skill context alone. -/
theorem steady_safe {ε α : Type} {p : M ε α} (hp : p.Only (Request.Keeps (·.skillContextJson) sid)) :
    (bindingOnce sid).Safe (handleSkills env) i (fun _ _ => True) p.inl v :=
  Discipline.Safe.of_only hp.inl Discipline.stable_true trivial (by
    rintro v _ - - - ⟨q, rfl, hq⟩
    exact ⟨.steady hq, trivial, trivial⟩)

theorem skillContext_none {w : World} (h : (handle env (.sql (.selectSkillContext sid)) w).1 = .ok (some none)) :
    w.skillContext sid = none := by
  cases hs : env.storeError w.steps with
  | some e => rw [handle_sql_error _ hs] at h; cases h
  | none =>
    rw [handle_sql_ok _ hs] at h
    obtain ⟨row, hrow, hctx⟩ := Option.map_eq_some_iff.mp (Except.ok.inj h)
    rw [World.skillContext, hrow]
    exact hctx

/-- An invocation that finds its session unbound. -/
theorem readContext_safe (s : SessionId) :
    (bindingOnce sid).Safe (handleSkills env) i (fun r v => r = .ok none → FoundUnbound sid s i v)
      (sess (SessionMemory.getSkillContext s)).inl v := by
  have hread : ∀ v : SkillView ι, OfSkillCalls sid v (.inl (.sql (.selectSkillContext s))) :=
    fun v => .steady (Request.Idle.keeps trivial)
  refine Discipline.Safe.ask fun v' _ _ => ⟨hread v', trivial, ?_⟩
  have hstable : ∀ r : Except AgentError (Option (JsonText SkillContext)), (bindingOnce sid).Stable (handleSkills env) i
      fun v => r = .ok none → FoundUnbound sid s i v :=
    fun r v j q hj hI hC hG hK h => foundUnbound_stable s i v j q hj hI hC hG (hK h)
  cases hr : (handleSkills env (.inl (.sql (.selectSkillContext s))) v'.state).1 with
  | error e => exact Discipline.Safe.fail (hstable (.error (.session (.database e)))) fun h => nomatch h
  | ok row =>
    cases row with
    | none => exact Discipline.Safe.fail (hstable (.error (.session (.notFound s)))) fun h => nomatch h
    | some ctx =>
      cases ctx with
      | some json => exact Discipline.Safe.ret (hstable (.ok (some json))) fun h => nomatch h
      | none =>
        refine Discipline.Safe.ret (hstable (.ok none)) fun _ hs _ => ?_
        subst hs
        rw [(hread v').unwritten rfl]
        exact skillContext_none hr

/-- An invocation that binds the session it found unbound. -/
theorem writeContext_safe {s : SessionId} {x : Option (JsonText SkillContext)} (hv : FoundUnbound sid s i v) :
    (bindingOnce sid).Safe (handleSkills env) i (fun _ _ => True) (sess (SessionMemory.setSkillContext s x)).inl v := by
  refine ⟨FoundUnbound sid s i, foundUnbound_stable s i, hv, fun v' _ hK hC => ⟨?_, trivial, ?_⟩⟩
  · by_cases hs : s = sid
    · subst hs
      refine .binds fun hbound => ?_
      rcases hC x (if_pos rfl) with hfree | hsame
      · rw [hK rfl hfree] at hbound
        cases hbound
      · exact hsame
    · refine .steady fun s' f hf hs' => ?_
      simp only [Statement.update?, Option.some.injEq, Prod.mk.injEq] at hf
      exact absurd (hf.1.trans hs') hs
  · cases hr : (handleSkills env (.inl (.sql (.updateSkillContext s x))) v'.state).1 with
    | error e => exact Discipline.Safe.fail Discipline.stable_true trivial
    | ok n =>
      exact steady_safe (p := sess (SessionMemory.mustAffect s n)) (Agent.sess_only (SessionMemory.mustAffect_only s n))

/-- Routing and binding. -/
theorem resolveSkill_safe (agent : Agent) (s : SessionId) (input : String) :
    (bindingOnce sid).Safe (handleSkills env) i (fun _ _ => True) (agent.resolveSkill s input).inl v := by
  unfold Agent.resolveSkill
  rw [Prog.inl_bind]
  refine Discipline.Safe.bind trivial (readContext_safe s) ?_ ?_
  · intro existing v' _ hfound
    cases existing with
    | some json => exact steady_safe (Prog.Only.bind (Agent.orJson_only json) fun _ => trivial)
    | none =>
      have hunbound : FoundUnbound sid s i v' := hfound rfl
      have hread : ∀ v, FoundUnbound sid s i v → (bindingOnce sid).Safe (handleSkills env) i
          (fun _ v => FoundUnbound sid s i v) (request .readSkills : M AgentError SkillRegistry).inl v := by
        intro v hv
        refine Discipline.Safe.of_only (request_only (A := (· = .readSkills)) rfl).inl
          (foundUnbound_stable s i) hv ?_
        rintro v _ - hK - ⟨q, rfl, rfl⟩
        exact ⟨.steady trivial, trivial, hK.after (.steady trivial) (.inr rfl)⟩
      cases hskills : agent.skills with
      | none => exact Discipline.Safe.ret Discipline.stable_true trivial
      | some cfg =>
        simp only [Prog.inl_bind]
        refine Discipline.Safe.bind trivial (hread v' hunbound) ?_ fun _ _ _ _ =>
          Discipline.Safe.fail Discipline.stable_true trivial
        intro reg v'' _ hunbound
        cases hroute : cfg.route input (reg.eligible cfg.mode) with
        | none => exact steady_safe (Prog.Only.bind (request_only trivial) fun _ => trivial)
        | some skillId =>
          simp only [Prog.inl_bind]
          refine Discipline.Safe.bind trivial (hread v'' hunbound) ?_ fun _ _ _ _ =>
            Discipline.Safe.fail Discipline.stable_true trivial
          intro reg v₃ _ hunbound
          cases hctx : reg.compileContext skillId with
          | error e => exact Discipline.Safe.fail Discipline.stable_true trivial
          | ok ctx =>
            simp only [Prog.inl_bind]
            exact Discipline.Safe.bind trivial (writeContext_safe hunbound)
              (fun _ _ _ _ => Discipline.Safe.ret Discipline.stable_true trivial)
              (fun _ _ _ _ => Discipline.Safe.fail Discipline.stable_true trivial)
  · intro e v' _ _
    exact Discipline.Safe.fail Discipline.stable_true trivial

theorem seq_safe {ε α β : Type} {p : Prog SkillRequest SkillReply ε α} {f : α → Prog SkillRequest SkillReply ε β}
    (hp : (bindingOnce sid).Safe (handleSkills env) i (fun _ _ => True) p v)
    (hf : ∀ a v, (bindingOnce sid).Safe (handleSkills env) i (fun _ _ => True) (f a) v) :
    (bindingOnce sid).Safe (handleSkills env) i (fun _ _ => True) (p >>= f) v :=
  Discipline.Safe.bind trivial hp (fun a v' _ _ => hf a v') fun _ _ _ _ =>
    Discipline.Safe.fail Discipline.stable_true trivial

theorem invoke_safe (agent : Agent) (userId : String) (s : SessionId) (input : String) :
    (bindingOnce sid).Safe (handleSkills env) i (fun _ _ => True) (agent.invoke userId s input).inl v := by
  have hprepare : ∀ v, (bindingOnce sid).Safe (handleSkills env) i (fun _ _ => True)
      (agent.prepare userId s input).inl v := by
    intro v
    unfold Agent.prepare
    simp only [Prog.inl_bind]
    refine seq_safe (steady_safe (Agent.sess_only (SessionManager.assertOwner_only (Request.Idle.keeps trivial))))
      fun _ v => seq_safe (steady_safe (Prog.Only.mono (agent.openingContext_only userId input) fun q hq => ?_))
        fun x v => seq_safe (resolveSkill_safe agent s input) fun _ _ =>
          Discipline.Safe.ret Discipline.stable_true trivial
    rcases hq with hq | ⟨x, rfl⟩
    · exact hq.keeps
    · intro s' f hf _ row
      simp only [Statement.update?, Option.some.injEq, Prod.mk.injEq] at hf
      obtain ⟨-, rfl⟩ := hf
      rfl
  unfold Agent.invoke
  simp only [Prog.inl_bind]
  refine seq_safe (hprepare v) fun p v => ?_
  refine seq_safe (steady_safe (Prog.Only.mono (agent.runPrepared_works userId p) fun q hq =>
    hq.elim (fun hq => hq.idle.keeps) fun hq => hq.keeps)) fun outcome v => ?_
  cases outcome with
  | done text =>
    refine steady_safe (Prog.Only.mono (agent.keepTurn_appends userId p.input text) fun q hq => ?_)
    rcases hq with hq | ⟨ms, now, rfl⟩
    · exact hq.keeps
    · intro s' f hf
      cases hf
  | interrupted interrupt =>
    refine steady_safe (Prog.Only.mono (Agent.handleToolInterrupt_only interrupt p.skillCtx) fun q hq => ?_)
    obtain ⟨x, status, hq⟩ := hq
    exact hq.keeps fun _ => ⟨fun _ => rfl, fun _ _ => rfl⟩

theorem skillProgram_safe (agent : Agent) (call : SkillCall) :
    (bindingOnce sid).Safe (handleSkills env) i (fun _ _ => True) (agent.skillProgram call) v := by
  have hdrop : ∀ {α : Type} {p : Prog SkillRequest SkillReply AgentError α},
      (bindingOnce sid).Safe (handleSkills env) i (fun _ _ => True) p v →
        (bindingOnce sid).Safe (handleSkills env) i (fun _ _ => True) (p >>= fun _ => .ret ()) v :=
    fun hp => Discipline.Safe.bind trivial hp (fun _ _ _ _ => Discipline.Safe.ret Discipline.stable_true trivial)
      fun _ _ _ _ => Discipline.Safe.fail Discipline.stable_true trivial
  have hresume : ∀ {s : SessionId} {α : Type} {p : M AgentError α}, p.Only (Request.OfResume s) →
      (bindingOnce sid).Safe (handleSkills env) i (fun _ _ => True) p.inl v := fun hp =>
    Discipline.Safe.of_only hp.inl Discipline.stable_true trivial (by
      rintro v _ - - - ⟨q, rfl, hq⟩
      exact ⟨hq.ofSkillCalls, trivial, trivial⟩)
  cases call with
  | invoke userId s input => exact hdrop (invoke_safe agent userId s input)
  | resume userId s approvalId decision => exact hdrop (hresume (agent.resume_resumes ..))
  | advancePhase userId s output => exact hdrop (hresume (agent.advancePhase_advances ..))
  | reloadSkills loaded =>
    unfold Agent.skillProgram Agent.reloadSkills
    cases agent.skills with
    | none => exact Discipline.Safe.fail Discipline.stable_true trivial
    | some _ =>
      cases loaded with
      | error e => exact Discipline.Safe.fail Discipline.stable_true trivial
      | ok reg =>
        exact Discipline.Safe.ask fun v' _ _ =>
          ⟨.reload reg, trivial, Discipline.Safe.ret Discipline.stable_true trivial⟩

end Threads

/-! ### Runs -/

variable [DecidableEq ι]

def Agent.skillPool (agent : Agent) (calls : ι → SkillCall) (w : World) : Pool ι SkillReply World AgentError Unit :=
  ⟨fun i => agent.skillProgram (calls i), ⟨w, []⟩⟩

/-- In every interleaving of calls in which no skill context is written between the look of an invocation and its
write, a skill context that is stored changes by phase transitions only. -/
theorem bound_once (env : Env) (agent : Agent) (sid : SessionId) (calls : ι → SkillCall) (w : World)
    (schedule : List ι) (hC : (agent.skillPool calls w).Conforms (handleSkills env) (Unraced sid) schedule) :
    (agent.skillPool calls w).Conforms (handleSkills env) (WriteOnce env sid) schedule := by
  have hguar := Pool.run_guar (P := agent.skillPool calls w) (D := bindingOnce sid) (E := fun _ _ _ => True) trivial
    (fun i => skillProgram_safe agent (calls i)) hC
  exact hguar.mono _ fun v i q hq => OfSkillCalls.writeOnce hq

/-- The router when the input is the name of a skill. -/
def SkillConfig.byName : SkillConfig := ⟨.open, fun input skills => (skills.find? fun s => s.id = input).map (·.id)⟩

/-- The plain agent with skills that are routed by name. -/
def Agent.routing : Agent := { Agent.plain with skills := some .byName }

/-- A session that is not bound yet. -/
def World.unbound : World :=
  { World.fresh ⟨[.draft, .review]⟩ 0 with store := ⟨[SessionMemory.newRow 0 "u" 0 none], [], 0⟩, nextUuid := 1 }

/-- Two first invocations of a session. -/
def firstInvocations : Bool → SkillCall
  | false => .invoke "u" 0 "draft"
  | true => .invoke "u" 0 "review"

/-- A model that answers at once. -/
def Env.answering : Env := .steady fun _ _ => .ofText "done"

theorem bound_once_in_turn : (Agent.routing.skillPool firstInvocations .unbound).Conforms (handleSkills .answering)
    (WriteOnce .answering 0) (List.replicate 20 false ++ List.replicate 20 true) :=
  bound_once .answering .routing 0 firstInvocations .unbound _ (by decide +kernel)

/-- Two first invocations look before either of them writes. -/
theorem bound_twice : ¬ (Agent.routing.skillPool firstInvocations .unbound).Conforms (handleSkills .answering)
    (WriteOnce .answering 0) (List.replicate 6 false ++ List.replicate 9 true ++ List.replicate 3 false) := by
  decide +kernel

end AgentVerse
