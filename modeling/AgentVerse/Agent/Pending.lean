import AgentVerse.Agent.Lifecycle
import AgentVerse.Agent.Retry

/-!
# Pending interrupts

A session that awaits an approval goes on awaiting it, whatever calls are made that do not answer it, as long as no
call on the session is stopped at a second interrupt and the retention sweep does not reach the session
(`pending_kept`). Nothing else protects the interrupt (`pending_lost`).
-/

namespace AgentVerse

open Effects

variable {env : Env} {w : World} {c c' : Config Reply World} {sid : SessionId}

/-- The approval that a suspended session awaits. -/
def Life.awaited : Life → Option ApprovalId
  | ⟨.interrupted, some (.printed state)⟩ => some state.approvalId
  | _ => none

/-- The session is suspended and its pending state carries the approval `id`. -/
def World.awaits (w : World) (sid : SessionId) (id : ApprovalId) : Prop := (w.life sid).bind (·.awaited) = some id

instance (w : World) (sid : SessionId) (id : ApprovalId) : Decidable (w.awaits sid id) :=
  inferInstanceAs (Decidable (_ = _))

theorem World.awaits_iff {id : ApprovalId} : w.awaits sid id ↔
    ∃ state, w.life sid = some ⟨.interrupted, some (.ofValue state)⟩ ∧ state.approvalId = id := by
  unfold World.awaits
  rcases w.life sid with _ | ⟨_ | _ | _, _ | _ | _⟩ <;> simp [Life.awaited, JsonText.ofValue]

/-- Calls that neither answer the approval nor end or delete the session. -/
def ApiCall.leaves (sid : SessionId) (id : ApprovalId) : ApiCall → Bool
  | invoke .. | advancePhase .. | cleanup _ => true
  | resume _ s a _ => !(s = sid && a = id)
  | _ => false

/-- The calls of tools in a reply to the strategy of an agent. -/
def modelCalls : Event → List ToolCall
  | ⟨.generate 0 _, .ok response⟩ => response.calls
  | _ => []

/-- The time before which a sweep that starts in `w` deletes suspended sessions. -/
def CleanupConfig.cutoff (cfg : CleanupConfig) (env : Env) (w : World) : Int :=
  cfg.sessionRetention.cutoff (timestamp (w.tick env).clock)

/-- A call that starts in `w` and gets the answers `asked` is not stopped at an interrupt of session `sid`, and does
not sweep the session away. -/
def Agent.LeavesPending (agent : Agent) (env : Env) (sid : SessionId) (w : World) (asked : List Event) :
    ApiCall → Prop
  | .invoke userId s input => s = sid → w.owns userId sid → ∀ policy ∈ agent.hitl, ∀ x ∈ asked,
      ∀ c ∈ modelCalls x, policy.intercepts (agent.boundSkill w sid input) c.name = false
  | .advancePhase userId s output =>
    ¬ (s = sid ∧ w.owns userId sid ∧ (parsePhaseTransition output).isSome ∧ (agent.gateAt w sid).isSome)
  | .cleanup cfg => ∀ row ∈ w.store.row? sid, cfg.cutoff env w ≤ row.updatedAt
  | _ => True

instance (agent : Agent) (env : Env) (sid : SessionId) (w : World) (asked : List Event) :
    DecidablePred (agent.LeavesPending env sid w asked)
  | .invoke .. => inferInstanceAs (Decidable (_ = _ → _ → ∀ policy ∈ agent.hitl, ∀ x ∈ asked, ∀ c ∈ modelCalls x, _ = _))
  | .advancePhase .. => inferInstanceAs (Decidable (¬ _))
  | .cleanup _ => inferInstanceAs (Decidable (∀ row ∈ w.store.row? sid, _ ≤ _))
  | .createSession .. | .createSessionWithSkill .. | .invokeStateless .. | .resume .. | .endSession ..
  | .deleteAllUserData .. | .resolve .. | .sweepExpired | .checkTool .. => inferInstanceAs (Decidable True)

/-! ### The sweep -/

/-- The requests of a cleanup tick with a session cutoff. -/
private def OfCleanup (cutoff : Int) : Request → Prop
  | .sql (.deleteEndedSessions t) => t = cutoff
  | .sql (.deleteExpired ..) => True
  | q => q.Idle

private theorem OfCleanup.row {cutoff : Int} {q : Request} (hq : OfCleanup cutoff q) {w : World}
    (hrow : ∀ row, w.store.row? sid = some row → cutoff ≤ row.updatedAt) :
    (handle env q w).2.store.row? sid = w.store.row? sid := by
  have hkeeps : ∀ {q : Request}, q.Keeps id sid → (handle env q w).2.store.row? sid = w.store.row? sid :=
    fun {q} h => by
      have hrow : ((handle env q w).2.store.row? sid).map id = (w.store.row? sid).map id := h.row w
      simpa using hrow
  cases q with
  | sql st =>
    cases st with
    | deleteEndedSessions t =>
      obtain rfl : t = cutoff := hq
      cases hs : env.storeError w.steps with
      | some e => rw [handle_sql_error _ hs]; rfl
      | none =>
        rw [handle_sql_ok _ hs]
        refine Store.row?_deleteSessions fun row hr => ?_
        have := hrow row hr
        simp only [Store.endedBefore, Bool.and_eq_false_imp, decide_eq_false_iff_not]
        omega
    | deleteExpired => exact hkeeps (by intro s f hf; simp [Statement.update?] at hf)
    | _ => exact hkeeps (Request.Idle.keeps hq)
  | _ => exact hkeeps (Request.Idle.keeps hq)

/-- A sweep does not touch a session whose last status change is past the cutoff. -/
theorem cleanup_keeps (env : Env) (cfg : CleanupConfig) (w : World)
    (hrow : ∀ row ∈ w.store.row? sid, cfg.cutoff env w ≤ row.updatedAt) :
    ((CleanupWorker.tick cfg).run (handle env) ⟨w, []⟩).2.state.store.row? sid = w.store.row? sid := by
  simp only [CleanupWorker.tick, nowTimestamp, Prog.ask_bind, Prog.ret_bind, Prog.run_ask]
  refine Reaches.preserves (A := OfCleanup (cfg.cutoff env w)) (Prog.Only.reaches ?_ _)
    (fun w' : World => w'.store.row? sid = w.store.row? sid)
    (fun q w' hq h => (hq.row fun row hr => hrow row (h ▸ hr)).trans h) rfl
  refine Prog.Only.bind (Prog.Only.mapErr (query_only rfl)) fun _ => ⟨trivial, fun t _ => ?_⟩
  exact Prog.Only.bind (Prog.Only.mapErr ⟨trivial, fun _ _ => query_only trivial⟩) fun sessions =>
    CleanupWorker.cleanupSessions_only (fun _ => trivial) (fun _ _ => trivial) sessions

namespace Agent

variable (agent : Agent)

/-! ### Single calls -/

/-- An invocation of which no model reply calls an intercepted tool is not stopped. -/
theorem invoke_leaves {userId input : String} (hown : c.state.owns userId sid → ∀ policy ∈ agent.hitl,
      ∀ x ∈ ((agent.invoke userId sid input).run (handle env) c).2.trace, ∀ call ∈ modelCalls x,
        policy.intercepts (agent.boundSkill c.state sid input) call.name = false) :
    ((agent.invoke userId sid input).run (handle env) c).2.state.life sid = c.state.life sid := by
  have hrun := agent.invoke_run env userId sid input c
  revert hown
  generalize (agent.invoke userId sid input).run (handle env) c = x at hrun ⊢
  intro hown
  cases hrun with
  | ended hr => exact life_of_turn hr
  | @interrupted p c₁ c₂ interrupt hp hrun =>
    obtain ⟨howns, hbound, -⟩ := agent.prepare_ok hp
    have hstop := agent.runPrepared_stopped sid userId p (B := fun q r =>
      (⟨q, r⟩ : Event) ∈ ((agent.runPrepared userId sid p).run (handle env) c₁).2.trace)
    obtain ⟨policy, hpolicy, kind, pre, call, post, req, resp, ⟨-, hat, -⟩, hreply, hcalls⟩ :=
      Prog.Meets.result (handle env) hstop interrupt (by rw [hrun])
    rw [hrun] at hreply
    -- The batch that the hook stopped is one of the replies, and it has an intercepted call.
    have hmem : (⟨.generate 0 req, .ok resp⟩ : Event) ∈
        ((handleToolInterrupt sid interrupt p.skillCtx).run (handle env) c₂).2.trace := by
      have honly : (handleToolInterrupt sid interrupt p.skillCtx).Only fun q => ∃ x status, q.OfWrites sid x status :=
        handleToolInterrupt_only interrupt p.skillCtx
      obtain ⟨t, ht, -⟩ := (honly.reaches (h := handle env) c₂).trace
      rw [ht]
      exact List.mem_append_left t hreply
    have hcall : call ∈ resp.calls := by rw [← hcalls, hat.split]; simp
    have hint := hown howns policy hpolicy _ hmem call hcall
    rw [← hbound] at hint
    exact absurd (hat.intercepted.symm.trans hint) (by decide)

/-- A resume with another approval is refused. -/
theorem resume_leaves {id approvalId : ApprovalId} {userId : String} {decision : ApprovalDecision}
    (hw : w.awaits sid id) (hne : approvalId ≠ id) :
    ((agent.resume userId sid approvalId decision).run (handle env) ⟨w, []⟩).2.state.life sid = w.life sid := by
  have hnot : ∀ resolved, ¬ Resumable env w userId sid approvalId resolved := by
    intro resolved h
    obtain ⟨state, hl, hid⟩ := World.awaits_iff.mp hw
    obtain ⟨l, hl', hp⟩ := h.pending
    obtain rfl := Option.some.inj (hl.symm.trans hl')
    simp only [JsonText.ofValue, Option.some.injEq, JsonText.printed.injEq] at hp
    exact hne (h.approval.symm.trans (hp ▸ hid))
  have hend := agent.resume_end env userId sid approvalId decision w
  generalize (agent.resume userId sid approvalId decision).run (handle env) ⟨w, []⟩ = x at hend ⊢
  cases hend with
  | kept _ hl _ => exact hl
  | halfway h => exact absurd h (hnot _)
  | acted h => exact absurd h (hnot _)

theorem advancePhase_leaves {userId output : String}
    (hnot : ¬ (c.state.owns userId sid ∧ (parsePhaseTransition output).isSome ∧ (agent.gateAt c.state sid).isSome)) :
    ((agent.advancePhase userId sid output).run (handle env) c).2.state.life sid = c.state.life sid := by
  cases agent.advancePhase_run env userId sid output c with
  | passed hr => exact life_of_turn (hr.mono fun _ h => h.ofTurn)
  | gated howns hparse hgate _ _ => exact absurd ⟨howns, hparse, hgate⟩ hnot

/-- One call of a run. -/
theorem step_leaves {id : ApprovalId} {call : ApiCall} (hw : w.awaits sid id) (hcall : call.leaves sid id = true)
    (hl : agent.LeavesPending env sid w (agent.entry env w call).asked call) :
    (agent.entry env w call).after.life sid = w.life sid := by
  have hother : ∀ {α : Type} {p : M AgentError α} {s : SessionId}, p.Only (Request.OfCall s) → s ≠ sid →
      (p.run (handle env) ⟨w, []⟩).2.state.life sid = w.life sid := fun honly hs =>
    keeps_of_reaches (honly.reaches ⟨w, []⟩) fun _ hq => hq.keeps_other hs
  cases call with
  | invoke userId s input =>
    rw [agent.entry_eq (p := agent.invoke userId s input) rfl] at hl ⊢
    by_cases hs : s = sid
    · subst hs
      exact agent.invoke_leaves (hl rfl)
    · exact hother (agent.invoke_only userId input) hs
  | resume userId s approvalId decision =>
    rw [agent.entry_eq (p := agent.resume userId s approvalId decision) rfl]
    by_cases hs : s = sid
    · subst hs
      refine agent.resume_leaves hw fun h => ?_
      simp [ApiCall.leaves, h] at hcall
    · exact hother (agent.resume_only userId approvalId decision) hs
  | advancePhase userId s output =>
    rw [agent.entry_eq (p := agent.advancePhase userId s output) rfl] at hl ⊢
    by_cases hs : s = sid
    · subst hs
      exact agent.advancePhase_leaves fun h => hl ⟨rfl, h⟩
    · exact hother (agent.advancePhase_only userId output) hs
  | cleanup cfg =>
    rw [agent.entry_eq (p := (CleanupWorker.tick cfg).attempt) (f := fun _ => .unit) rfl] at hl ⊢
    rw [Prog.run_attempt]
    exact congrArg (Option.map SessionRow.life) (cleanup_keeps env cfg w hl)
  | _ => cases hcall

/-! ### Runs -/

/-- A pending interrupt survives every run whose calls leave it. -/
theorem pending_kept (env : Env) (H : CallHistory) (sid : SessionId) (id : ApprovalId)
    (hH : H.state.awaits sid id) (cs : List ApiCall)
    (hc : H.Conforms (handle env) agent.program
      (fun _ e => e.call.leaves sid id = true ∧ agent.LeavesPending env sid e.before e.asked e.call) cs) :
    (agent.serve env H cs).state.awaits sid id := by
  refine History.invariant (I := fun H : CallHistory => H.state.awaits sid id) (fun H call hw hC => ?_) hH hc
  exact (congrArg (fun l : Option Life => l.bind (·.awaited)) (agent.step_leaves hw hC.1 hC.2)).trans hw


/-- The interrupt of a session at a gate survives an answered invocation, a resume with another approval, an output
without a transition, and a sweep. -/
theorem pending_kept_atGate : (gated.serve (.asksFor ["read_file"]) (.start atGate)
    [.invoke "u" 0 "", .resume "u" 0 7 .approved, .advancePhase "u" 0 "text", .cleanup .default]).state.awaits 0 1 :=
  gated.pending_kept (.asksFor ["read_file"]) (.start atGate) 0 1 (by decide +kernel) _ (by decide +kernel)

/-- An invocation that is stopped replaces the pending interrupt, and a sweep after the retention of ended sessions
deletes the suspended session. -/
theorem pending_lost :
    (atGate.awaits 0 1 ∧
      ¬ (gated.serve (.asksFor ["file_delete"]) (.start atGate) [.invoke "u" 0 ""]).state.awaits 0 1) ∧
    ({ atGate with clock := 3000000 * 1000000000 } : World).awaits 0 1 ∧
      ¬ (gated.serve (.asksFor []) (.start { atGate with clock := 3000000 * 1000000000 })
        [.cleanup .default]).state.awaits 0 1 := by
  decide +kernel

end Agent

end AgentVerse
