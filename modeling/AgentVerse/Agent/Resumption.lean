import AgentVerse.Agent.Turn

/-!
# The course of a resume

A resume first checks the request against the stored state (`Resumable`), then consumes the state with two writes
(`cleared`), and only then lets the decision take effect (`ResumeRun`).
-/

namespace AgentVerse

open Effects

variable {env : Env} {w : World} {c c' c₁ : Config Reply World} {sid : SessionId}

namespace Agent

variable (agent : Agent)

/-! ### The checks -/

/-- What a resume has to find: the session of the user with a readable pending state of the given approval. -/
structure Resumable (env : Env) (w : World) (userId : String) (sid : SessionId) (approvalId : ApprovalId)
    (resolved : Resolved) : Prop where
  read_owner : env.storeError w.steps = none
  read_state : env.storeError (w.steps + 1) = none
  owns : w.owns userId sid
  pending : ∃ l, w.life sid = some l ∧ l.pending = some (.ofValue resolved.state)
  approval : resolved.state.approvalId = approvalId
  payload : resolved.state.payload = .ok resolved.payload

/-- The configuration after the two reads of the checks. -/
def afterChecks (env : Env) (sid : SessionId) (c : Config Reply World) : Config Reply World :=
  (c.after (handle env) (.sql (.selectSession sid))).after (handle env) (.sql (.selectInterruptedState sid))

/-- The checks pass exactly on what a resume has to find. -/
theorem resumeChecks_ok {userId : String} {approvalId : ApprovalId} {resolved : Resolved} :
    (resumeChecks userId sid approvalId).run (handle env) c = (.ok resolved, c') ↔
      Resumable env c.state userId sid approvalId resolved ∧ c' = afterChecks env sid c := by
  have hlife : (c.after (handle env) (.sql (.selectSession sid))).state.life sid = c.state.life sid :=
    idle_life (.step trivial .refl)
  have hsteps : (c.after (handle env) (.sql (.selectSession sid))).state.steps = c.state.steps + 1 :=
    handle_steps _ _
  simp only [resumeChecks, Prog.run_bind_eq_ok, assertOwner_ok]
  simp only [sess, Prog.run_mapErr_eq_ok, SessionMemory.getInterruptedState_ok]
  constructor
  · rintro ⟨⟨⟩, _, ⟨hs₀, howns, rfl⟩, x, _, ⟨hs₁, hx, rfl⟩, h⟩
    rw [hlife] at hx
    rw [hsteps] at hs₁
    obtain ⟨l, hl, rfl⟩ := Option.map_eq_some_iff.mp hx
    cases hp : l.pending with
    | none => rw [hp] at h; cases h
    | some stateJson =>
      cases hj : stateJson with
      | unreadable e => rw [hp, hj] at h; cases h
      | printed state =>
        rw [hp, hj] at h
        simp only [orJson, InterruptedState.fromStr_printed, Prog.ret_bind] at h
        split at h
        · cases h
        · rename_i hid
          cases hpay : state.payload with
          | error e => rw [hpay] at h; cases h
          | ok payload =>
            rw [hpay] at h
            simp only [Prog.pure_eq, Prog.run_ret, Prod.mk.injEq, Except.ok.injEq] at h
            obtain ⟨rfl, rfl⟩ := h
            exact ⟨⟨hs₀, hs₁, howns, ⟨l, hl, by rw [hp, hj]; rfl⟩, by simpa using hid, hpay⟩, rfl⟩
  · rintro ⟨⟨hs₀, hs₁, howns, ⟨l, hl, hp⟩, hid, hpay⟩, rfl⟩
    refine ⟨(), _, ⟨hs₀, howns, rfl⟩, some (.ofValue resolved.state), _, 
      ⟨hsteps ▸ hs₁, by rw [hlife, hl, Option.map_some, hp], rfl⟩, ?_⟩
    simp [orJson, hid, hpay, afterChecks]

/-- The three ways a resume goes. -/
inductive ResumeRun (agent : Agent) (env : Env) (userId : String) (sid : SessionId) (approvalId : ApprovalId)
    (decision : ApprovalDecision) (c : Config Reply World) :
    Except AgentError AgentOutput × Config Reply World → Prop where
  /-- The checks fail. -/
  | refused {e : AgentError} {c' : Config Reply World}
      (hchecks : (resumeChecks userId sid approvalId).run (handle env) c = (.error e, c')) :
      ResumeRun agent env userId sid approvalId decision c (.error e, c')
  /-- The pending state could not be consumed. -/
  | stuck {resolved : Resolved} {e : AgentError} {c₁ c' : Config Reply World}
      (hchecks : (resumeChecks userId sid approvalId).run (handle env) c = (.ok resolved, c₁))
      (hclear : (resumeClear sid).run (handle env) c₁ = (.error e, c')) :
      ResumeRun agent env userId sid approvalId decision c (.error e, c')
  /-- The decision takes effect. -/
  | acted {resolved : Resolved} {c₁ c₂ : Config Reply World}
      (hchecks : (resumeChecks userId sid approvalId).run (handle env) c = (.ok resolved, c₁))
      (hclear : (resumeClear sid).run (handle env) c₁ = (.ok (), c₂)) :
      ResumeRun agent env userId sid approvalId decision c
        ((agent.resumeAct sid resolved decision).run (handle env) c₂)

theorem resume_run (env : Env) (userId : String) (sid : SessionId) (approvalId : ApprovalId)
    (decision : ApprovalDecision) (c : Config Reply World) :
    ResumeRun agent env userId sid approvalId decision c
      ((agent.resume userId sid approvalId decision).run (handle env) c) := by
  unfold resume
  rcases hchecks : (resumeChecks userId sid approvalId).run (handle env) c with ⟨r₁, c₁⟩
  cases r₁ with
  | error e => rw [Prog.run_bind_error _ hchecks]; exact .refused hchecks
  | ok resolved =>
    rw [Prog.run_bind_ok _ hchecks]
    rcases hclear : (resumeClear sid).run (handle env) c₁ with ⟨r₂, c₂⟩
    cases r₂ with
    | error e => rw [Prog.run_bind_error _ hclear]; exact .stuck hchecks hclear
    | ok u => rw [Prog.run_bind_ok _ hclear]; exact .acted hchecks hclear

theorem resumeChecks_reaches {userId : String} {approvalId : ApprovalId} {r : Except AgentError Resolved}
    (h : (resumeChecks userId sid approvalId).run (handle env) c = (r, c')) :
    Reaches (handle env) Request.Idle c c' := by
  have := (resumeChecks_only (s := sid) userId approvalId).reaches (h := handle env) c
  rwa [h] at this

theorem resumeClear_end {r : Except AgentError Unit} (h : (resumeClear sid).run (handle env) c = (r, c')) :
    WritesEnd env sid none .active c c' r := by
  have := twoWrites_spec env sid none .active c
  rwa [← resumeClear_eq, h] at this

/-! ### How a resume ends -/

theorem Resumable.unique {userId : String} {approvalId : ApprovalId} {r r' : Resolved}
    (h : Resumable env w userId sid approvalId r) (h' : Resumable env w userId sid approvalId r') : r = r' := by
  obtain ⟨l, hl, hp⟩ := h.pending
  obtain ⟨l', hl', hp'⟩ := h'.pending
  obtain rfl : l = l' := Option.some.inj (hl.symm.trans hl')
  have hstate : r.state = r'.state := by simpa [JsonText.ofValue] using hp.symm.trans hp'
  have hpay := h.payload.symm.trans (hstate ▸ h'.payload)
  obtain ⟨s, p⟩ := r
  obtain ⟨s', p'⟩ := r'
  cases hstate
  cases hpay
  rfl

/-- The world in which a decision takes effect: the pending state of `w` is consumed. -/
def cleared (env : Env) (sid : SessionId) (w : World) : World :=
  (afterWrites env sid none .active (afterChecks env sid ⟨w, []⟩)).state

/-- What a resume asked before the decision takes effect. -/
def clearing (env : Env) (sid : SessionId) (w : World) : List Event :=
  (afterWrites env sid none .active (afterChecks env sid ⟨w, []⟩)).trace

theorem cleared_steps (sid : SessionId) (w : World) : (cleared env sid w).steps = w.steps + 5 := by
  simp [cleared, afterWrites, SessionMemory.afterStatus, afterChecks]

theorem cleared_skills (sid : SessionId) (w : World) : (cleared env sid w).skills = w.skills := by
  simp [cleared, afterWrites, SessionMemory.afterStatus, afterChecks]

theorem clearing_asked : ∀ x ∈ clearing env sid w, x.1.Idle ∨ x.1.OfWrites sid none .active := by
  have hr : Reaches (handle env) (fun q => q.Idle ∨ q.OfWrites sid none .active) ⟨w, []⟩
      (afterWrites env sid none .active (afterChecks env sid ⟨w, []⟩)) :=
    .step (.inr ⟨rfl, rfl⟩) (.step (.inl trivial) (.step (.inr ⟨rfl, rfl⟩)
      (.step (.inl trivial) (.step (.inl trivial) .refl))))
  obtain ⟨t, ht, hq⟩ := hr.trace
  rw [clearing, ht]
  exact fun x hx => hq x (by simpa using hx)

/-- The pending state is consumed by a write. -/
theorem clearing_writes : ∃ x ∈ clearing env sid w, ¬ x.1.Idle :=
  ⟨⟨.sql (.updateInterruptedState sid none), _⟩, .tail _ (.tail _ (.head _)), id⟩

/-- A resume that is let act: it fits the pending state, and the database accepts both writes. -/
def Accepts (env : Env) (w : World) (userId : String) (sid : SessionId) (approvalId : ApprovalId) : Prop :=
  (∃ resolved, Resumable env w userId sid approvalId resolved) ∧ env.storeError (w.steps + 2) = none ∧
    env.storeError (w.steps + 4) = none

/-- How a resume of an interrupted session ends. -/
inductive ResumeEnd (agent : Agent) (env : Env) (userId : String) (sid : SessionId) (approvalId : ApprovalId)
    (decision : ApprovalDecision) (w : World) : Except AgentError AgentOutput × Config Reply World → Prop where
  /-- The request does not fit the pending state, or the state could not be consumed. -/
  | kept {e : AgentError} {c' : Config Reply World}
      (hnot : ∀ resolved, Resumable env w userId sid approvalId resolved → env.storeError (w.steps + 2) ≠ none)
      (hl : c'.state.life sid = w.life sid)
      (hr : Reaches (handle env) (fun q => q.Idle ∨ q.OfWrites sid none .active) ⟨w, []⟩ c') :
      ResumeEnd agent env userId sid approvalId decision w (.error e, c')
  /-- The state is gone, but the status could not be written. -/
  | halfway {resolved : Resolved} {e : AgentError} {c' : Config Reply World} {l : Life}
      (h : Resumable env w userId sid approvalId resolved) (h₂ : env.storeError (w.steps + 2) = none)
      (h₄ : env.storeError (w.steps + 4) ≠ none) (hl : w.life sid = some l)
      (ha : c'.state.life sid = some ⟨l.status, none⟩)
      (hr : Reaches (handle env) (fun q => q.Idle ∨ q.OfWrites sid none .active) ⟨w, []⟩ c') :
      ResumeEnd agent env userId sid approvalId decision w (.error e, c')
  /-- The decision takes effect. -/
  | acted {resolved : Resolved} (h : Resumable env w userId sid approvalId resolved)
      (h₂ : env.storeError (w.steps + 2) = none) (h₄ : env.storeError (w.steps + 4) = none)
      (ha : (cleared env sid w).life sid = some ⟨.active, none⟩) :
      ResumeEnd agent env userId sid approvalId decision w
        ((agent.resumeAct sid resolved decision).run (handle env) ⟨cleared env sid w, clearing env sid w⟩)

theorem resume_end (env : Env) (userId : String) (sid : SessionId) (approvalId : ApprovalId)
    (decision : ApprovalDecision) (w : World) :
    ResumeEnd agent env userId sid approvalId decision w
      ((agent.resume userId sid approvalId decision).run (handle env) ⟨w, []⟩) := by
  have hsteps : (afterChecks env sid ⟨w, []⟩).state.steps = w.steps + 2 := by simp [afterChecks]
  have hidle : Reaches (handle env) Request.Idle ⟨w, []⟩ (afterChecks env sid ⟨w, []⟩) :=
    .step trivial (.step trivial .refl)
  have hlife : (afterChecks env sid ⟨w, []⟩).state.life sid = w.life sid := idle_life hidle
  have hrun := agent.resume_run env userId sid approvalId decision ⟨w, []⟩
  generalize (agent.resume userId sid approvalId decision).run (handle env) ⟨w, []⟩ = x at hrun ⊢
  cases hrun with
  | @refused e c' hchecks =>
    have hr := resumeChecks_reaches hchecks
    refine .kept (fun resolved h => ?_) (idle_life hr) (hr.mono fun _ h => .inl h)
    rw [resumeChecks_ok.mpr ⟨h, rfl⟩] at hchecks
    cases hchecks
  | @stuck resolved e c₁ c' hchecks hclear =>
    obtain ⟨h, rfl⟩ := resumeChecks_ok.mp hchecks
    have hreach : Reaches (handle env) (fun q => q.Idle ∨ q.OfWrites sid none .active) ⟨w, []⟩ c' := by
      have := (twoWrites_only sid none .active).reaches (h := handle env) (afterChecks env sid ⟨w, []⟩)
      rw [← resumeClear_eq, hclear] at this
      exact (hidle.mono fun _ h => .inl h).trans (this.mono fun _ h => .inr h)
    cases resumeClear_end hclear with
    | untouched hf ha =>
      refine .kept (fun resolved' h' => ?_) (ha.trans hlife) hreach
      rcases hf with ⟨hs, -⟩ | hnone
      · rwa [hsteps] at hs
      · obtain ⟨l, hl, -⟩ := h.pending
        rw [hlife, hl] at hnone
        cases hnone
    | halfway h₁ h₂ _ hb ha =>
      rw [hsteps] at h₁ h₂
      exact .halfway h h₁ h₂ (hlife ▸ hb) ha hreach
  | @acted resolved c₁ c₂ hchecks hclear =>
    obtain ⟨h, rfl⟩ := resumeChecks_ok.mp hchecks
    cases resumeClear_end hclear with
    | done h₁ h₂ hc hb ha =>
      subst hc
      rw [hsteps] at h₁ h₂
      exact .acted h h₁ h₂ ha

/-- A resume that is let act does what the decision does. -/
theorem resume_acts {userId : String} {approvalId : ApprovalId} {resolved : Resolved}
    (h : Resumable env w userId sid approvalId resolved) (h₂ : env.storeError (w.steps + 2) = none)
    (h₄ : env.storeError (w.steps + 4) = none) (decision : ApprovalDecision) :
    (agent.resume userId sid approvalId decision).run (handle env) ⟨w, []⟩ =
      (agent.resumeAct sid resolved decision).run (handle env) ⟨cleared env sid w, clearing env sid w⟩ := by
  have hend := agent.resume_end env userId sid approvalId decision w
  generalize (agent.resume userId sid approvalId decision).run (handle env) ⟨w, []⟩ = x at hend ⊢
  cases hend with
  | kept hnot => exact absurd h₂ (hnot resolved h)
  | halfway _ _ h₄' => exact absurd h₄ h₄'
  | acted h' => rw [h.unique h']

/-- A resume that does not fit the pending state asks nothing but what reads. -/
theorem resume_refused {userId : String} {sid : SessionId} {id : ApprovalId} (decision : ApprovalDecision)
    (h : ∀ resolved, ¬ Resumable env w userId sid id resolved) :
    ∀ x ∈ ((agent.resume userId sid id decision).run (handle env) ⟨w, []⟩).2.trace, x.1.Idle := by
  have hrun := agent.resume_run env userId sid id decision ⟨w, []⟩
  generalize (agent.resume userId sid id decision).run (handle env) ⟨w, []⟩ = x at hrun ⊢
  cases hrun with
  | refused hchecks =>
    obtain ⟨t, ht, hq⟩ := (resumeChecks_reaches hchecks).trace
    rw [ht]
    exact fun x hx => hq x (by simpa using hx)
  | stuck hchecks _ => exact absurd (resumeChecks_ok.mp hchecks).1 (h _)
  | acted hchecks _ => exact absurd (resumeChecks_ok.mp hchecks).1 (h _)

/-- A resume that is not let act fails and starts no tool. -/
theorem resume_not_accepted {userId : String} {sid : SessionId} {id : ApprovalId} (decision : ApprovalDecision)
    (h : ¬ Accepts env w userId sid id) :
    (∃ e, ((agent.resume userId sid id decision).run (handle env) ⟨w, []⟩).1 = .error e) ∧
      ∀ x ∈ ((agent.resume userId sid id decision).run (handle env) ⟨w, []⟩).2.trace, x.1.dispatch? = none := by
  have hquiet : ∀ {c' : Config Reply World},
      Reaches (handle env) (fun q => q.Idle ∨ q.OfWrites sid none .active) ⟨w, []⟩ c' →
      ∀ x ∈ c'.trace, x.1.dispatch? = none := fun hr x hx => by
    obtain ⟨t, ht, hq⟩ := hr.trace
    rw [ht] at hx
    rcases hq x hx with hq | hq
    · exact hq.dispatch
    · exact hq.dispatch
  have hend := agent.resume_end env userId sid id decision w
  generalize (agent.resume userId sid id decision).run (handle env) ⟨w, []⟩ = x at hend ⊢
  cases hend with
  | kept _ _ hr => exact ⟨⟨_, rfl⟩, hquiet hr⟩
  | halfway _ _ _ _ _ hr => exact ⟨⟨_, rfl⟩, hquiet hr⟩
  | acted hres h₂ h₄ _ => exact absurd ⟨⟨_, hres⟩, h₂, h₄⟩ h

end Agent

end AgentVerse
