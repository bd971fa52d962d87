import AgentVerse.Agent.Calls
import AgentVerse.Agent.Suspend

/-!
# The lifecycle of a session

A session is suspended exactly while an interrupt is pending, and a completed session stays completed and runs no
more tools: both hold as long as nobody ends a suspended session, and nobody invokes a completed one or advances it
through a phase gate (`lifecycle`). None of the operations looks at the status first, so without the condition both
fail (`ended_while_suspended`).
-/

namespace AgentVerse

open Effects

variable {env : Env} {w : World} {c c' : Config Reply World} {sid : SessionId}

/-- Status and pending interrupt agree. -/
def Life.Legal (l : Life) : Prop := l.status = .interrupted ↔ l.pending.isSome

namespace World

def completed (w : World) (sid : SessionId) : Prop := (w.life sid).map (·.status) = some .completed

/-- An interrupt of the session is pending. -/
def suspended (w : World) (sid : SessionId) : Prop := ((w.life sid).bind (·.pending)).isSome

instance (w : World) (sid : SessionId) : Decidable (w.completed sid) := inferInstanceAs (Decidable (_ = _))

instance (w : World) (sid : SessionId) : Decidable (w.suspended sid) := inferInstanceAs (Decidable (_ = true))

instance (w : World) (userId : String) (sid : SessionId) : Decidable (w.owns userId sid) :=
  inferInstanceAs (Decidable (_ = _))

/-- No session has an id that is still to be drawn. -/
def Numbered (w : World) : Prop := ∀ sid, w.nextUuid ≤ sid → w.store.row? sid = none

/-- The invariant of the lifecycle. -/
structure Lawful (w : World) : Prop where
  numbered : w.Numbered
  legal : ∀ sid l, w.life sid = some l → l.Legal

end World

/-! ### The calls of the lifecycle -/

/-- The database refused no write of a call. -/
def WritesSucceed (e : CallEntry) : Prop := ∀ x ∈ e.asked, refusedWrite x = false

instance : DecidablePred WritesSucceed := fun e => inferInstanceAs (Decidable (∀ x ∈ e.asked, _))

/-- The operations of the lifecycle. -/
def ApiCall.ofLifecycle : ApiCall → Bool
  | createSession _ | createSessionWithSkill .. | invoke .. | advancePhase .. | resume .. | endSession .. => true
  | _ => false

/-- The owner does not end a suspended session, invoke a completed one, or advance a completed one through a gate. -/
def Agent.Orderly (agent : Agent) (w : World) : ApiCall → Prop
  | .invoke userId sid _ => ¬ (w.owns userId sid ∧ w.completed sid)
  | .advancePhase userId sid output =>
    ¬ (w.owns userId sid ∧ w.completed sid ∧ (parsePhaseTransition output).isSome ∧ (agent.gateAt w sid).isSome)
  | .endSession userId sid => ¬ (w.owns userId sid ∧ w.suspended sid)
  | _ => True

instance (agent : Agent) (w : World) : DecidablePred (agent.Orderly w)
  | .invoke .. => inferInstanceAs (Decidable (¬ _))
  | .advancePhase .. => inferInstanceAs (Decidable (¬ _))
  | .endSession .. => inferInstanceAs (Decidable (¬ _))
  | .createSession .. | .createSessionWithSkill .. | .invokeStateless .. | .resume .. | .deleteAllUserData ..
  | .resolve .. | .sweepExpired | .checkTool .. | .cleanup .. => inferInstanceAs (Decidable True)

/-- A call on a completed session leaves it completed and starts no tool. -/
def CompletedStays (sid : SessionId) (e : CallEntry) : Prop :=
  e.before.completed sid → e.after.completed sid ∧
    (e.call.session? = some sid → ∀ x ∈ e.asked, x.1.dispatch? = none)

/-! ### What a call does to its own session -/

/-- What a call on session `sid` preserves. -/
structure OwnStep (sid : SessionId) (c c' : Config Reply World) : Prop where
  legal : ∀ l, c'.state.life sid = some l → l.Legal
  completed : c.state.completed sid → c'.state.completed sid
  idle : c.state.completed sid → ∃ t, c'.trace = c.trace ++ t ∧ ∀ x ∈ t, x.1.dispatch? = none

/-- A call that starts no tool and leaves status and pending interrupt alone. -/
theorem OwnStep.of_quiet {A : Request → Prop} (hlegal : ∀ l, c.state.life sid = some l → l.Legal)
    (hr : Reaches (handle env) A c c') (hA : ∀ q, A q → q.dispatch? = none)
    (hl : c'.state.life sid = c.state.life sid) : OwnStep sid c c' where
  legal l h := hlegal l (hl ▸ h)
  completed h := by rw [World.completed, hl]; exact h
  idle _ := by
    obtain ⟨t, ht, hq⟩ := hr.trace
    exact ⟨t, ht, fun x hx => hA _ (hq x hx)⟩

/-- A call that may suspend the session, and only when it is not completed. -/
theorem OwnStep.of_suspends {α : Type} {r : Except AgentError α}
    (hlegal : ∀ l, c.state.life sid = some l → l.Legal) (hopen : ¬ c.state.completed sid)
    (hok : ¬ FailedWrite c c') (hs : Suspends sid c c' r) : OwnStep sid c c' where
  legal l h := by
    cases hs with
    | quiet hl => exact hlegal l (hl ▸ h)
    | suspended hb ha => rw [ha] at h; cases h; simp [Life.Legal]
    | halfway hf => exact absurd hf hok
  completed h := absurd h hopen
  idle h := absurd h hopen

namespace Agent

variable (agent : Agent)

theorem invoke_own {userId : String} (input : String) (hlegal : ∀ l, c.state.life sid = some l → l.Legal)
    (ho : ¬ (c.state.owns userId sid ∧ c.state.completed sid))
    (hok : ¬ FailedWrite c ((agent.invoke userId sid input).run (handle env) c).2) :
    OwnStep sid c ((agent.invoke userId sid input).run (handle env) c).2 := by
  by_cases howns : c.state.owns userId sid
  · exact .of_suspends hlegal (fun h => ho ⟨howns, h⟩) hok (agent.invoke_suspends env userId sid input c)
  · have hr : Reaches (handle env) Request.Idle c ((agent.invoke userId sid input).run (handle env) c).2 :=
      agent.invoke_refused howns input
    exact .of_quiet hlegal hr (fun _ h => h.dispatch) (idle_life hr)

theorem advancePhase_own {userId : String} {output : String}
    (hlegal : ∀ l, c.state.life sid = some l → l.Legal)
    (ho : ¬ (c.state.owns userId sid ∧ c.state.completed sid ∧ (parsePhaseTransition output).isSome ∧
      (agent.gateAt c.state sid).isSome))
    (hok : ¬ FailedWrite c ((agent.advancePhase userId sid output).run (handle env) c).2) :
    OwnStep sid c ((agent.advancePhase userId sid output).run (handle env) c).2 := by
  cases agent.advancePhase_run env userId sid output c with
  | passed hr => exact .of_quiet hlegal hr (fun _ h => h.dispatch) (life_of_turn (hr.mono fun _ h => h.ofTurn))
  | gated howns hparse hgate hr hs =>
    exact .of_suspends hlegal (fun h => ho ⟨howns, h, hparse, hgate⟩) hok (.of_turn hr hs)

/-- A resume of a completed session is refused: no interrupt is pending there. -/
theorem resume_own {userId : String} {approvalId : ApprovalId} {decision : ApprovalDecision}
    (hlegal : ∀ l, c.state.life sid = some l → l.Legal)
    (hok : ¬ FailedWrite c ((agent.resume userId sid approvalId decision).run (handle env) c).2) :
    OwnStep sid c ((agent.resume userId sid approvalId decision).run (handle env) c).2 := by
  have hopen : ∀ {resolved : Resolved} {c₁}, (resumeChecks userId sid approvalId).run (handle env) c =
      (.ok resolved, c₁) → (∃ l, c₁.state.life sid = some l) ∧ ¬ c.state.completed sid := by
    intro resolved c₁ hchecks
    obtain ⟨l, hl, hp⟩ := (resumeChecks_ok.mp hchecks).1.pending
    refine ⟨⟨l, (idle_life (resumeChecks_reaches hchecks)).trans hl⟩, fun h => ?_⟩
    have hst := (hlegal l hl).mpr (by rw [hp]; rfl)
    simp [World.completed, hl, hst] at h
  revert hok
  generalize hrun : (agent.resume userId sid approvalId decision).run (handle env) c = x
  intro hok
  cases hrun ▸ agent.resume_run env userId sid approvalId decision c with
  | refused hchecks =>
    have hr := resumeChecks_reaches hchecks
    exact .of_quiet hlegal hr (fun _ h => h.dispatch) (idle_life hr)
  | stuck hchecks hclear =>
    have hr := resumeChecks_reaches hchecks
    obtain ⟨⟨l, hl⟩, -⟩ := hopen hchecks
    cases resumeClear_end hclear with
    | untouched hf _ =>
      rcases hf with ⟨-, hf⟩ | hf
      · exact absurd (hf.within hr (F := Request.Idle) .refl) hok
      · rw [hl] at hf; cases hf
    | halfway _ _ hf _ _ => exact absurd (hf.within hr (F := Request.Idle) .refl) hok
  | @acted resolved c₁ c₂ hchecks hclear =>
    have hr := resumeChecks_reaches hchecks
    obtain ⟨-, hnot⟩ := hopen hchecks
    refine ⟨fun l hl => ?_, fun h => absurd h hnot, fun h => absurd h hnot⟩
    have hr₁₂ : Reaches (handle env) (fun _ => True) c c₂ := by
      have := (twoWrites_only sid none .active).reaches (h := handle env) c₁
      rw [← resumeClear_eq, hclear] at this
      exact (hr.mono fun _ _ => trivial).trans (this.mono fun _ _ => trivial)
    cases resumeClear_end hclear with
    | done _ _ _ _ ha =>
      cases agent.resumeAct_suspends env sid resolved decision c₂ with
      | quiet h => rw [h, ha] at hl; cases hl; simp [Life.Legal]
      | suspended _ h => rw [h] at hl; cases hl; simp [Life.Legal]
      | halfway hf _ _ => exact absurd (hf.within hr₁₂ (F := fun _ => True) .refl) hok

/-- Ending a session writes its status only. -/
theorem endSession_run (env : Env) (userId : String) (sid : SessionId) (c : Config Reply World) :
    let c' := ((endSession userId sid).run (handle env) c).2
    c'.state.life sid = c.state.life sid ∨ (c.state.owns userId sid ∧
      ∃ l, c.state.life sid = some l ∧ c'.state.life sid = some ⟨.completed, l.pending⟩) := by
  refine Prog.Only.run_bind (Φ := fun _ c' => c'.state.life sid = c.state.life sid ∨ (c.state.owns userId sid ∧
      ∃ l, c.state.life sid = some l ∧ c'.state.life sid = some ⟨.completed, l.pending⟩))
    (sess_only (SessionManager.assertOwner_only (A := Request.Idle) trivial)) (fun _ _ h => .inl (idle_life h))
    fun _ c₁ h₁ hown => ?_
  have hl₁ : c₁.state.life sid = c.state.life sid := idle_life h₁
  rw [Prog.run_bind, sess, Prog.run_mapErr, SessionManager.endSession]
  obtain ⟨-, hends⟩ := SessionMemory.updateStatus_spec env sid .completed c₁
  rcases hrun : (SessionMemory.updateStatus sid .completed).run (handle env) c₁ with ⟨r, c₂⟩
  rw [hrun] at hends
  rcases hends with ⟨rfl, -, row, hb, ha⟩ | ⟨e, rfl, -, hk⟩
  · refine .inr ⟨(assertOwner_ok.mp hown).2.1, row.life, by rw [← hl₁, World.life, hb]; rfl, ?_⟩
    have hevict : ((c₂.after (handle env) (.cacheEvict userId sid)).state).life sid = c₂.state.life sid := rfl
    exact hevict.trans (by rw [World.life, ha]; rfl)
  · exact .inl ((congrArg (Option.map SessionRow.life) hk).trans hl₁)

theorem endSession_own {userId : String} (hlegal : ∀ l, c.state.life sid = some l → l.Legal)
    (ho : ¬ (c.state.owns userId sid ∧ c.state.suspended sid)) :
    OwnStep sid c ((endSession userId sid).run (handle env) c).2 := by
  have honly : (endSession userId sid).Only fun q => q.dispatch? = none :=
    Prog.Only.bind (sess_only (SessionManager.assertOwner_only rfl)) fun _ =>
      Prog.Only.bind (sess_only (SessionMemory.updateStatus_only rfl fun _ => rfl)) fun _ => request_only rfl
  rcases endSession_run env userId sid c with hl | ⟨howns, l, hb, ha⟩
  · exact .of_quiet hlegal (honly.reaches c) (fun _ h => h) hl
  · have hp : l.pending.isSome = false := by
      cases h : l.pending.isSome with
      | false => rfl
      | true => exact absurd ⟨howns, by simp [World.suspended, hb, h]⟩ ho
    refine ⟨fun l' hl' => ?_, fun _ => by simp [World.completed, ha], fun _ => ?_⟩
    · rw [ha] at hl'
      cases hl'
      simp [Life.Legal, hp]
    · obtain ⟨t, ht, hq⟩ := (honly.reaches (h := handle env) c).trace
      exact ⟨t, ht, hq⟩

/-! ### Runs -/

/-- The property of single steps and the invariant, for a call on a session. -/
private theorem session_step {α : Type} {call : ApiCall} {p : M AgentError α} {f : α → ApiResult}
    (hprog : agent.program call = p >>= fun a => .ret (f a)) (hsid : call.session? = some sid)
    (hw : w.Lawful) (honly : p.Only (Request.OfCall sid))
    (hown : OwnStep sid ⟨w, []⟩ (p.run (handle env) ⟨w, []⟩).2) :
    (agent.entry env w call).after.Lawful ∧ ∀ s, CompletedStays s (agent.entry env w call) := by
  have hr := honly.reaches (h := handle env) ⟨w, []⟩
  have hother : ∀ s, s ≠ sid → (p.run (handle env) ⟨w, []⟩).2.state.life s = w.life s := fun s hs =>
    keeps_of_reaches hr fun _ hq => hq.keeps_other (Ne.symm hs)
  rw [agent.entry_eq hprog]
  refine ⟨⟨fun s hs => ?_, fun s l hl => ?_⟩, fun s hdone => ?_⟩
  · have hold : w.store.row? s = none := hw.numbered s ((nextUuid_le hr).trans hs)
    have hkept : ((p.run (handle env) ⟨w, []⟩).2.state.store.row? s).map (fun _ => ()) =
        (w.store.row? s).map fun _ => () := keeps_of_reaches hr fun _ hq => hq.keeps_const
    simpa [hold] using hkept
  · by_cases hs : s = sid
    · subst hs
      exact hown.legal l hl
    · exact hw.legal s l (hother s hs ▸ hl)
  · dsimp only
    by_cases hs : s = sid
    · subst hs
      obtain ⟨t, ht, hq⟩ := hown.idle hdone
      exact ⟨hown.completed hdone, fun _ => ht ▸ hq⟩
    · refine ⟨by rw [World.completed, hother s hs]; exact hdone, fun h => ?_⟩
      rw [hsid] at h
      cases h
      exact absurd rfl hs

/-- Creating a session adds an active one without a pending interrupt. -/
private theorem create_lawful {c : Config Reply World} (hw : c.state.Lawful) (userId : String)
    (ctx : Option (JsonText SkillContext)) :
    ((SessionMemory.createWith userId ctx).run (handle env) c).2.state.Lawful ∧ ∀ s, c.state.completed s →
      ((SessionMemory.createWith userId ctx).run (handle env) c).2.state.completed s := by
  obtain ⟨hnext, hother, hnew⟩ := SessionMemory.createWith_spec env userId ctx c
  have hfresh := hw.numbered _ (Nat.le_refl _)
  refine ⟨⟨fun s hs => ?_, fun s l hl => ?_⟩, fun s hdone => ?_⟩
  · have hlt : c.state.nextUuid < s := Nat.lt_of_lt_of_le hnext hs
    rw [hother s (Nat.ne_of_gt hlt)]
    exact hw.numbered s (Nat.le_of_lt hlt)
  · by_cases hs : s = c.state.nextUuid
    · subst hs
      rw [hnew hfresh l hl]
      simp [Life.Legal]
    · rw [World.life, hother s hs] at hl
      exact hw.legal s l hl
  · have hs : s ≠ c.state.nextUuid := by
      rintro rfl
      simp [World.completed, World.life, hfresh] at hdone
    rw [World.completed, World.life, hother s hs]
    exact hdone

private theorem createSession_lawful (env : Env) (hw : c.state.Lawful) (userId : String) :
    ((createSession userId).run (handle env) c).2.state.Lawful ∧ ∀ s, c.state.completed s →
      ((createSession userId).run (handle env) c).2.state.completed s := by
  simp only [createSession, sess, SessionManager.createSession, SessionMemory.create, Prog.pure_eq,
    Prog.run_mapErr, Prog.run_bind_ret]
  exact create_lawful hw userId none

private theorem createSessionWithSkill_lawful (env : Env) (hw : c.state.Lawful) (userId : String) (skillId : SkillId) :
    ((agent.createSessionWithSkill userId skillId).run (handle env) c).2.state.Lawful ∧ ∀ s, c.state.completed s →
      ((agent.createSessionWithSkill userId skillId).run (handle env) c).2.state.completed s := by
  unfold createSessionWithSkill
  cases agent.skills with
  | none => exact ⟨hw, fun _ h => h⟩
  | some cfg =>
    simp only [request, Prog.perform_bind, Prog.run_ask]
    have hw₁ : (c.after (handle env) .readSkills).state.Lawful := ⟨hw.numbered, hw.legal⟩
    cases (handle env .readSkills c.state).1.compileContext skillId with
    | error e => exact ⟨hw₁, fun _ h => h⟩
    | ok ctx =>
      simp only [sess, SessionManager.createSessionWithSkillContext, SessionMemory.createWithSkillContext,
        Prog.pure_eq, Prog.run_mapErr, Prog.run_bind_ret]
      exact create_lawful hw₁ userId (some (.ofValue ctx))

/-- One call of a run. -/
theorem step_lawful {call : ApiCall} (hw : w.Lawful) (hkind : call.ofLifecycle = true)
    (ho : agent.Orderly w call) (hok : WritesSucceed (agent.entry env w call)) :
    (agent.entry env w call).after.Lawful ∧ ∀ s, CompletedStays s (agent.entry env w call) := by
  have hno : ∀ {α : Type} {p : M AgentError α} {f : α → ApiResult},
      agent.program call = p >>= (fun a => .ret (f a)) →
      ¬ FailedWrite ⟨w, []⟩ (p.run (handle env) ⟨w, []⟩).2 := by
    rintro α p f hprog ⟨t, ht, x, hx, hf⟩
    rw [agent.entry_eq hprog] at hok
    exact absurd hf (by rw [hok x (by rw [ht]; simpa using hx)]; decide)
  have hlegal : ∀ sid l, (⟨w, []⟩ : Config Reply World).state.life sid = some l → l.Legal := hw.legal
  cases call with
  | createSession userId =>
    obtain ⟨hw', hdone⟩ := createSession_lawful env (c := ⟨w, []⟩) hw userId
    rw [agent.entry_eq (p := createSession userId) rfl]
    exact ⟨hw', fun s h => ⟨hdone s h, fun hs => by cases hs⟩⟩
  | createSessionWithSkill userId skillId =>
    obtain ⟨hw', hdone⟩ := agent.createSessionWithSkill_lawful env (c := ⟨w, []⟩) hw userId skillId
    rw [agent.entry_eq (p := agent.createSessionWithSkill userId skillId) rfl]
    exact ⟨hw', fun s h => ⟨hdone s h, fun hs => by cases hs⟩⟩
  | invoke userId sid input =>
    exact agent.session_step rfl rfl hw (agent.invoke_only userId input)
      (agent.invoke_own input (hlegal sid) ho (hno rfl))
  | resume userId sid approvalId decision =>
    exact agent.session_step rfl rfl hw (agent.resume_only userId approvalId decision)
      (agent.resume_own (hlegal sid) (hno rfl))
  | advancePhase userId sid output =>
    exact agent.session_step rfl rfl hw (agent.advancePhase_only userId output)
      (agent.advancePhase_own (hlegal sid) ho (hno rfl))
  | endSession userId sid =>
    exact agent.session_step (f := fun _ => .unit) rfl rfl hw (endSession_only userId) (endSession_own (hlegal sid) ho)
  | _ => cases hkind

/-- The calls of a lifecycle run, in which every write succeeds. -/
def LifecycleCall (e : CallEntry) : Prop := e.call.ofLifecycle = true ∧ WritesSucceed e

instance : DecidablePred LifecycleCall := fun _ => inferInstanceAs (Decidable (_ ∧ _))

/-- What the lifecycle of a session promises about a run. -/
def KeepsLifecycle (H : CallHistory) (sid : SessionId) : Prop :=
  (∀ l, H.state.life sid = some l → l.Legal) ∧ ∀ e ∈ H.past, CompletedStays sid e

/-- In every orderly run from the fresh world, every session is suspended exactly while an interrupt is pending, and
a completed session stays completed and runs no more tools. -/
theorem lifecycle (env : Env) (skills : SkillRegistry) (clock : Nat) (cs : List ApiCall)
    (hc : (CallHistory.start (World.fresh skills clock)).Conforms (handle env) agent.program
      (fun _ e => LifecycleCall e ∧ agent.Orderly e.before e.call) cs) (sid : SessionId) :
    KeepsLifecycle (agent.serve env (.start (World.fresh skills clock)) cs) sid := by
  have hfresh : (World.fresh skills clock).Lawful := ⟨fun _ _ => rfl, fun _ _ h => by cases h⟩
  have hstep : ∀ (H : CallHistory) call, H.state.Lawful →
      LifecycleCall (agent.entry env H.state call) ∧ agent.Orderly H.state call →
      (agent.entry env H.state call).after.Lawful ∧ CompletedStays sid (agent.entry env H.state call) :=
    fun H call hw hC =>
      have h := agent.step_lawful hw hC.1.1 hC.2 hC.1.2
      ⟨h.1, h.2 sid⟩
  constructor
  · exact (History.invariant (I := fun H : CallHistory => H.state.Lawful)
      (fun H call hw hC => (hstep H call hw hC).1) hfresh hc).legal sid
  · exact History.entries (I := fun H : CallHistory => H.state.Lawful) hstep hfresh
      (fun e he => by cases he) hc

/-- An orderly run: the interrupt is answered before the session is ended. -/
theorem lifecycle_answered : KeepsLifecycle (Agent.plain.serve (.asksFor ["file_delete"])
    (.start (World.fresh ⟨[]⟩ 0))
    [.createSession "u", .invoke "u" 0 "", .resume "u" 0 1 .approved, .endSession "u" 0,
      .resume "u" 0 1 .approved]) 0 :=
  Agent.plain.lifecycle _ _ _ _ (by decide +kernel) 0

/-- A suspended session that is ended keeps its pending interrupt; resuming it then runs the tool and reopens the
session. -/
theorem ended_while_suspended :
    (CallHistory.start (World.fresh ⟨[]⟩ 0)).Conforms (handle (.asksFor ["file_delete"])) Agent.plain.program
        (fun _ e => LifecycleCall e)
        [.createSession "u", .invoke "u" 0 "", .endSession "u" 0, .resume "u" 0 1 .approved] ∧
      ¬ KeepsLifecycle (Agent.plain.serve (.asksFor ["file_delete"]) (.start (World.fresh ⟨[]⟩ 0))
        [.createSession "u", .invoke "u" 0 "", .endSession "u" 0]) 0 ∧
      ¬ KeepsLifecycle (Agent.plain.serve (.asksFor ["file_delete"]) (.start (World.fresh ⟨[]⟩ 0))
        [.createSession "u", .invoke "u" 0 "", .endSession "u" 0, .resume "u" 0 1 .approved]) 0 := by
  refine ⟨by decide +kernel, fun h => ?_, fun h => ?_⟩
  · have hbad : ((Agent.plain.serve (.asksFor ["file_delete"]) (.start (World.fresh ⟨[]⟩ 0))
        [.createSession "u", .invoke "u" 0 "", .endSession "u" 0]).state.life 0).any
          (fun l => l.status = .completed && l.pending.isSome) = true := by decide +kernel
    obtain ⟨l, hl, hbad⟩ := (Option.any_eq_true _ _).mp hbad
    have := h.1 l hl
    simp_all [Life.Legal]
  · have hbad : ∃ e ∈ (Agent.plain.serve (.asksFor ["file_delete"]) (.start (World.fresh ⟨[]⟩ 0))
        [.createSession "u", .invoke "u" 0 "", .endSession "u" 0, .resume "u" 0 1 .approved]).past,
          e.before.completed 0 ∧ ¬ e.after.completed 0 := by decide +kernel
    obtain ⟨e, he, hb, ha⟩ := hbad
    exact ha (h.2 e he hb).1

end Agent

end AgentVerse
