import AgentVerse.Agent.Transcript

/-!
# Calls that are interrupted

A strategy run of an invocation or a resume that the hook stops leaves one pending state, the one of its interrupt, and
the call ends with this interrupt or fails (`Ended`). No other call writes a pending state, except for a transition
that is stopped at its gate.
-/

namespace AgentVerse

open Effects

variable {env : Env} {c c' : Config Reply World} {sid : SessionId} {state : InterruptedState}

/-! ### Requests -/

/-- The state is pending in a row of the session. -/
def World.Stores (w : World) (sid : SessionId) (state : InterruptedState) : Prop :=
  ∃ row ∈ w.store.sessions, row.id = sid ∧ row.interruptedState = some (.ofValue state)

/-- A request that writes the state into the row of the session. -/
def Request.Plants (sid : SessionId) (state : InterruptedState) : Request → Prop
  | .sql (.updateInterruptedState s x) => s = sid ∧ x = some (.ofValue state)
  | .sql (.insertSession row) => row.id = sid ∧ row.interruptedState = some (.ofValue state)
  | _ => False

/-- A request that writes no pending state. -/
def Request.Barren (q : Request) : Prop := ∀ sid state, ¬ q.Plants sid state

/-- An event that draws an approval id. -/
def draws (id : ApprovalId) : Event → Prop
  | ⟨.submit .., .ok id'⟩ => id' = id
  | ⟨.newUuid, id'⟩ => id' = id
  | _ => False

/-- A statement that updates no row leaves no pending state that was not there, unless it inserts it. -/
private theorem exec_stores {st : Statement} {s : Store} {row : SessionRow} (hu : st.update? = none)
    (hrow : row ∈ (st.exec s).2.sessions) : row ∈ s.sessions ∨ st = .insertSession row := by
  cases st with
  | insertSession r =>
    simp only [Statement.exec, Store.insertSession] at hrow
    split at hrow
    · exact .inl hrow
    · rcases List.mem_append.mp hrow with hrow | hrow
      · exact .inl hrow
      · exact .inr (by rw [List.mem_singleton.mp hrow])
  | deleteEndedSessions | deleteSession => exact .inl (List.mem_of_mem_filter hrow)
  | appendMessages s' ms now => exact .inl (by simpa [Statement.exec] using hrow)
  | selectWatermark s' =>
    simp only [Statement.exec] at hrow
    split at hrow <;> exact .inl hrow
  | updateStatus | updateWatermark | updateSkillContext | updatePhaseOpening | updatePhaseTransition
  | updateInterruptedState => cases hu
  | _ => exact .inl hrow

/-- A pending state was there before, or is written. -/
theorem handle_stores {q : Request} {w : World} (h : (handle env q w).2.Stores sid state) :
    w.Stores sid state ∨ q.Plants sid state := by
  have hsame : (handle env q w).2.store.sessions = w.store.sessions → w.Stores sid state ∨ q.Plants sid state := by
    intro heq
    obtain ⟨row, hrow, hid, hstate⟩ := h
    exact .inl ⟨row, heq ▸ hrow, hid, hstate⟩
  by_cases hst : ∃ st, q = .sql st
  · obtain ⟨st, rfl⟩ := hst
    cases hs : env.storeError w.steps with
    | some e => exact hsame (by rw [handle_sql_error _ hs]; rfl)
    | none =>
      rw [handle_sql_ok _ hs] at h
      obtain ⟨row, hrow, hid, hstate⟩ := h
      cases hu : st.update? with
      | none =>
        rcases exec_stores hu hrow with hrow | rfl
        · exact .inl ⟨row, hrow, hid, hstate⟩
        · exact .inr ⟨hid, hstate⟩
      | some u =>
        rw [show (st.exec w.store).2 = _ from Statement.exec_update hu] at hrow
        obtain ⟨row', hrow', rfl⟩ := List.mem_map.mp hrow
        by_cases hrs : row'.id = u.1
        · rw [if_pos hrs] at hid hstate
          have hid' : row'.id = sid := (Statement.update?_id hu row').symm.trans hid
          cases st with
          | updateInterruptedState s x =>
            cases hu
            exact .inr ⟨hrs.symm.trans hid', hstate⟩
          | updateStatus | updateWatermark | updateSkillContext | updatePhaseOpening | updatePhaseTransition =>
            cases hu
            exact .inl ⟨row', hrow', hid', hstate⟩
          | _ => cases hu
        · rw [if_neg hrs] at hid hstate
          exact .inl ⟨row', hrow', hid, hstate⟩
  · exact hsame (by rw [handle_store fun st hq => hst ⟨st, hq⟩])

/-- A pending state was there before a run, or is written in its course. -/
theorem stores_of_reaches {A : Request → Prop} (hr : Reaches (handle env) A c c') (h : c'.state.Stores sid state) :
    c.state.Stores sid state ∨ ∃ x ∈ c'.trace, x.1.Plants sid state := by
  induction hr with
  | refl => exact .inl h
  | @step c₁ q hq hr ih =>
    rcases handle_stores h with h | h
    · exact (ih h).imp_right fun ⟨x, hx, hplants⟩ => ⟨x, List.mem_append_left _ hx, hplants⟩
    · exact .inr ⟨_, List.mem_append_right _ (List.mem_singleton_self _), h⟩

/-- Nothing is pending after a clearing. -/
theorem cleared_stores {w : World} {n : Nat} (h : (handle env (.sql (.updateInterruptedState sid none)) w).1 = .ok n)
    (s : InterruptedState) : ¬ (handle env (.sql (.updateInterruptedState sid none)) w).2.Stores sid s := by
  cases hs : env.storeError w.steps with
  | some e => rw [handle_sql_error _ hs] at h; cases h
  | none =>
    rw [handle_sql_ok _ hs]
    rintro ⟨row, hrow, hid, hpending⟩
    obtain ⟨row', -, rfl⟩ := List.mem_map.mp hrow
    by_cases hrs : row'.id = sid
    · rw [if_pos hrs] at hpending
      cases hpending
    · rw [if_neg hrs] at hid
      exact hrs hid

/-- A drawn id is the next one, and is not drawn again. -/
theorem draws_reply {q : Request} {w : World} {id : ApprovalId} (h : draws id ⟨q, (handle env q w).1⟩) :
    w.nextUuid = id ∧ id < (handle env q w).2.nextUuid := by
  cases q with
  | newUuid => exact ⟨h, by rw [← h]; exact Nat.lt_succ_self _⟩
  | submit s kind =>
    simp only [handle, answer, queueOp] at h ⊢
    split at h
    · cases h
    · exact ⟨h, by rw [← h]; exact Nat.lt_succ_self _⟩
  | _ => cases h

/-- An id that a run draws was not drawn before the run and is not drawn after it. -/
theorem draws_of_reaches {A : Request → Prop} {w : World} (hr : Reaches (handle env) A ⟨w, []⟩ c) {id : ApprovalId}
    {x : Event} (hx : x ∈ c.trace) (hid : draws id x) : w.nextUuid ≤ id ∧ id < c.state.nextUuid := by
  induction hr with
  | refl => cases hx
  | @step c₁ q hq hr ih =>
    rcases List.mem_append.mp hx with hx | hx
    · exact (ih hx).imp_right fun h => Nat.lt_of_lt_of_le h (handle_nextUuid q c₁.state)
    · obtain rfl := List.mem_singleton.mp hx
      have hdraw : c₁.state.nextUuid = id ∧ id < (handle env q c₁.state).2.nextUuid := draws_reply hid
      exact ⟨hdraw.1 ▸ nextUuid_le hr, hdraw.2⟩

/-! ### Requests of calls -/

theorem Request.Idle.barren {q : Request} (hq : q.Idle) : q.Barren := by
  intro s st h
  cases q with
  | sql t => cases t <;> first | exact hq.elim | exact h.elim
  | _ => exact h.elim

theorem Request.OfStrategy.barren {q : Request} (hq : q.OfStrategy) : q.Barren := by
  intro s st h
  cases q with
  | sql t => exact hq.elim
  | _ => exact h.elim

theorem Request.OfTurn.barren {q : Request} (hq : q.OfTurn sid) : q.Barren := by
  intro s st h
  cases q with
  | sql t =>
    cases t with
    | updateInterruptedState | insertSession => exact hq.elim id False.elim
    | _ => exact h.elim
  | _ => exact h.elim

theorem Request.OfWrites.plants {x : Option (JsonText InterruptedState)} {status : SessionStatus} {q : Request}
    (hq : q.OfWrites sid x status) {s : SessionId} (h : q.Plants s state) : s = sid ∧ x = some (.ofValue state) := by
  cases q with
  | sql t =>
    cases t with
    | updateInterruptedState s' y => exact ⟨h.1.symm.trans hq.1, hq.2.symm.trans h.2⟩
    | insertSession => exact hq.elim
    | _ => exact h.elim
  | _ => exact h.elim

/-- Every event of a part of a run is one of the run. -/
theorem Stopped.mono {B B' : (q : Request) → Reply q → Prop} {ctx : HitlContext} {depth : Nat} {i : HitlInterrupt}
    (hB : ∀ q r, B q r → B' q r) (h : Stopped B ctx depth i) : Stopped B' ctx depth i := by
  obtain ⟨kind, pre, call, post, req, resp, hs, hreply, hcalls⟩ := h
  refine ⟨kind, pre, call, post, req, resp, ⟨hs.kind_eq, hs.stopped, ?_⟩, hB _ _ hreply, hcalls⟩
  exact hs.submitted.imp (hB _ _) fun ⟨⟨e, he⟩, hid⟩ => ⟨⟨e, hB _ _ he⟩, hB _ _ hid⟩

/-- The id of an interrupt was drawn. -/
theorem Stopped.draws {t : List Event} {ctx : HitlContext} {depth : Nat} {i : HitlInterrupt}
    (h : Stopped (fun q r => (⟨q, r⟩ : Event) ∈ t) ctx depth i) : ∃ x ∈ t, AgentVerse.draws i.approvalId x := by
  obtain ⟨kind, pre, call, post, req, resp, hs, -, -⟩ := h
  rcases hs.submitted with h | ⟨-, h⟩
  · exact ⟨_, h, rfl⟩
  · exact ⟨_, h, rfl⟩

/-! ### Calls that are interrupted -/

namespace Agent

variable (agent : Agent)

/-- A call on session `sid` that runs its strategy under `skill` and asks `t` is stopped at the interrupt `i`, and
writes the state of this interrupt and no other one. -/
structure StopsAt (sid : SessionId) (skill : Option SkillId) (t : List Event) (i : HitlInterrupt) (kind : InterruptKind)
    (skillCtx : Option SkillContext) : Prop where
  skill_eq : skillCtx.map (·.skillId) = skill
  kind_eq : i.kindJson = .ofValue kind
  stopped : ∃ policy satisfied, agent.hitl = some policy ∧
    Stopped (fun q r => (⟨q, r⟩ : Event) ∈ t) ⟨sid, skill, policy, satisfied⟩ 0 i
  plants : ∀ x ∈ t, ∀ s state, x.1.Plants s state → s = sid ∧ state = interruptedState i kind skillCtx

/-- How a call on session `sid` ends that runs its strategy under `skill` and asks `t`. -/
inductive Ended (sid : SessionId) (skill : Option SkillId) (t : List Event) : Except AgentError AgentOutput → Prop where
  | through {r : Except AgentError AgentOutput} (hbarren : ∀ x ∈ t, x.1.Barren)
      (hr : ∀ id kind, r ≠ .ok (.interrupted id kind)) : Ended sid skill t r
  | stopped {r : Except AgentError AgentOutput} {i : HitlInterrupt} {kind : InterruptKind}
      {skillCtx : Option SkillContext} (h : agent.StopsAt sid skill t i kind skillCtx)
      (hr : ∀ out, r = .ok out → out = .interrupted i.approvalId kind) : Ended sid skill t r

theorem barren_of_reaches {A : Request → Prop} (hr : Reaches (handle env) A c c') (hA : ∀ q, A q → q.Barren)
    (hc : ∀ x ∈ c.trace, x.1.Barren) : ∀ x ∈ c'.trace, x.1.Barren := by
  obtain ⟨t, ht, hq⟩ := hr.trace
  intro x hx
  rw [ht] at hx
  rcases List.mem_append.mp hx with hx | hx
  · exact hc x hx
  · exact hA _ (hq x hx)

theorem trace_mono {A : Request → Prop} (hr : Reaches (handle env) A c c') {x : Event} (hx : x ∈ c.trace) :
    x ∈ c'.trace := by
  obtain ⟨t, ht, -⟩ := hr.trace
  rw [ht]
  exact List.mem_append_left t hx

/-- The suspension of a session for an interrupt. -/
theorem handleToolInterrupt_ended {i : HitlInterrupt} {skill : Option SkillId} {skillCtx : Option SkillContext}
    (hbarren : ∀ x ∈ c.trace, x.1.Barren) (hskill : skillCtx.map (·.skillId) = skill)
    (hstop : ∃ policy satisfied, agent.hitl = some policy ∧
      Stopped (fun q r => (⟨q, r⟩ : Event) ∈ c.trace) ⟨sid, skill, policy, satisfied⟩ 0 i) :
    agent.Ended sid skill ((handleToolInterrupt sid i skillCtx).run (handle env) c).2.trace
      ((handleToolInterrupt sid i skillCtx).run (handle env) c).1 := by
  obtain ⟨policy, satisfied, hpolicy, hstopped⟩ := hstop
  obtain ⟨kind, pre, call, post, req, resp, hs, -, -⟩ := id hstopped
  rcases hread : i.kindJson.fromStr with e | kind'
  · rw [handleToolInterrupt_unread hread]
    exact .through hbarren fun id kind h => by cases h
  obtain rfl : kind = kind' := by
    simpa [JsonText.ofValue] using hs.kind_eq.symm.trans (JsonText.fromStr_eq_ok.mp hread).1
  rw [handleToolInterrupt_read hread, persistInterrupt_eq]
  have hr := (twoWrites_only sid (some (.ofValue (interruptedState i kind skillCtx))) .interrupted).reaches
    (h := handle env) c
  rw [Prog.run_bind_ret]
  have hstops : agent.StopsAt sid skill ((twoWrites sid (some (.ofValue (interruptedState i kind skillCtx)))
      .interrupted).run (handle env) c).2.trace i kind skillCtx := by
    refine ⟨hskill, hs.kind_eq, ⟨policy, satisfied, hpolicy, hstopped.mono fun q r hx => trace_mono hr hx⟩, ?_⟩
    intro x hx s state hplants
    obtain ⟨t, ht, hq⟩ := hr.trace
    rw [ht] at hx
    rcases List.mem_append.mp hx with hx | hx
    · exact absurd hplants (hbarren x hx s state)
    · have h := (hq x hx).plants hplants
      exact ⟨h.1, by simpa [JsonText.ofValue, eq_comm] using h.2⟩
  refine .stopped hstops fun out hout => ?_
  cases hr₁ : ((twoWrites sid (some (.ofValue (interruptedState i kind skillCtx))) .interrupted).run (handle env) c).1 with
  | error e => rw [hr₁] at hout; cases hout
  | ok u => rw [hr₁] at hout; cases hout; rfl

/-- A finished turn is no interrupt. -/
theorem keepTurn_done {B : (q : Request) → Reply q → Prop} (userId input text : String) :
    (agent.keepTurn userId sid input text).Meets B (fun _ => True) fun r => ∀ id kind, r ≠ .ok (.interrupted id kind) := by
  refine Prog.Meets.bind (meets_any _) (fun _ _ => Prog.Meets.bind (meets_any _) (fun _ _ => ?_)
    fun e _ id kind h => by cases h) fun e _ id kind h => by cases h
  dsimp only
  split
  · exact Prog.Meets.bind (meets_any _) (fun _ _ id kind h => by cases h) fun e _ id kind h => by cases h
  · exact fun id kind h => by cases h

theorem invoke_ended (env : Env) (userId : String) (sid : SessionId) (input : String) (w : World) :
    agent.Ended sid (agent.boundSkill w sid input) ((agent.invoke userId sid input).run (handle env) ⟨w, []⟩).2.trace
      ((agent.invoke userId sid input).run (handle env) ⟨w, []⟩).1 := by
  have hprep := (agent.prepare_only (s := sid) userId input).reaches (h := handle env) ⟨w, []⟩
  unfold invoke
  rcases hp : (agent.prepare userId sid input).run (handle env) ⟨w, []⟩ with ⟨r₁, c₁⟩
  rw [hp] at hprep
  have hbarren₁ : ∀ x ∈ c₁.trace, x.1.Barren := barren_of_reaches hprep (fun _ h => h.barren) (by simp)
  cases r₁ with
  | error e =>
    rw [Prog.run_bind_error _ hp]
    exact .through hbarren₁ fun id kind h => by cases h
  | ok p =>
    rw [Prog.run_bind_ok _ hp]
    have hstrategy := (agent.runPrepared_only (s := sid) userId p).reaches (h := handle env) c₁
    rcases hrun : (agent.runPrepared userId sid p).run (handle env) c₁ with ⟨r₂, c₂⟩
    rw [hrun] at hstrategy
    have hbarren₂ : ∀ x ∈ c₂.trace, x.1.Barren := barren_of_reaches hstrategy (fun _ h => h.barren) hbarren₁
    cases r₂ with
    | error e =>
      rw [Prog.run_bind_error _ hrun]
      exact .through hbarren₂ fun id kind h => by cases h
    | ok outcome =>
      rw [Prog.run_bind_ok _ hrun]
      cases outcome with
      | done text =>
        refine .through (barren_of_reaches ((agent.keepTurn_only userId p.input text).reaches c₂)
          (fun _ h => h.barren) hbarren₂) ?_
        exact Prog.Meets.result (handle env) (c := c₂) (agent.keepTurn_done userId p.input text)
      | interrupted i =>
        have hskill := (agent.prepare_ok hp).2.1
        refine agent.handleToolInterrupt_ended hbarren₂ hskill ?_
        have hstop := agent.runPrepared_stopped sid userId p (B := fun q r =>
          (⟨q, r⟩ : Event) ∈ ((agent.runPrepared userId sid p).run (handle env) c₁).2.trace)
        obtain ⟨policy, hpolicy, hstopped⟩ := Prog.Meets.result (handle env) hstop i (by rw [hrun])
        rw [hrun] at hstopped
        exact ⟨policy, false, hpolicy, hskill ▸ hstopped⟩

/-- What a resume works on is pending. -/
theorem Resumable.stores {w : World} {userId : String} {id : ApprovalId} {resolved : Resolved}
    (h : Resumable env w userId sid id resolved) : w.Stores sid resolved.state := by
  obtain ⟨l, hl, hp⟩ := h.pending
  obtain ⟨row, hrow, rfl⟩ := Option.map_eq_some_iff.mp hl
  exact ⟨row, List.mem_of_find?_eq_some hrow, Store.row?_id hrow, hp⟩

/-- The skill of a suspended session, under which a resume goes on. -/
def suspendedSkill (w : World) (sid : SessionId) : Option SkillId :=
  match (w.life sid).bind (·.pending) with
  | some (.printed state) => state.skillContext.map (·.skillId)
  | _ => none

theorem suspendedSkill_eq {userId : String} {id : ApprovalId} {w : World} {resolved : Resolved}
    (h : Resumable env w userId sid id resolved) :
    suspendedSkill w sid = resolved.state.skillContext.map (·.skillId) := by
  obtain ⟨l, hl, hp⟩ := h.pending
  rw [suspendedSkill, hl, Option.bind_some, hp]
  rfl

theorem continueRun_ended (state : InterruptedState) (messages : List Message) (hc : ∀ x ∈ c.trace, x.1.Barren) :
    agent.Ended sid (state.skillContext.map (·.skillId))
      ((agent.continueRun sid state messages).run (handle env) c).2.trace
      ((agent.continueRun sid state messages).run (handle env) c).1 := by
  obtain ⟨kind, tools, n, hs, -⟩ := agent.strategyForResume_mayRun state.activeToolNames
  have honly := agent.runStrategy_only kind tools n messages state.activeToolNames
    (HitlContext.newForResume sid (state.skillContext.map (·.skillId)))
  have hstop : ∀ B, (agent.runStrategy (agent.strategyForResume state.activeToolNames) messages state.activeToolNames
      (HitlContext.newForResume sid (state.skillContext.map (·.skillId)))).Meets B _ _ := fun B =>
    hs ▸ agent.runStrategy_meets (B := B) (W := fun _ => False) (fun q r _ => callsAvoid_false 1 q r)
      (fun _ _ _ _ _ _ h => h.elim) (fun _ _ _ _ _ _ _ _ _ _ h => h) tools n messages state.activeToolNames
  rw [← hs] at honly
  unfold continueRun
  have hr := honly.reaches (h := handle env) c
  rcases hrun : (agent.runStrategy (agent.strategyForResume state.activeToolNames) messages state.activeToolNames
    (HitlContext.newForResume sid (state.skillContext.map (·.skillId)))).run (handle env) c with ⟨r, c₁⟩
  rw [hrun] at hr
  have hbarren : ∀ x ∈ c₁.trace, x.1.Barren := barren_of_reaches hr (fun _ h => h.barren) hc
  cases r with
  | error e =>
    rw [Prog.run_bind_error _ hrun]
    exact .through hbarren fun id kind h => by cases h
  | ok outcome =>
    rw [Prog.run_bind_ok _ hrun]
    cases outcome with
    | done text => exact .through hbarren fun id kind h => by cases h
    | interrupted i =>
      obtain ⟨policy, hpolicy, -, hstopped⟩ := Prog.Meets.result (handle env) (hstop _) i (by rw [hrun])
      rw [hrun] at hstopped
      exact agent.handleToolInterrupt_ended hbarren rfl ⟨policy, true, hpolicy, hstopped⟩

theorem resumePhaseGate_done {B : (q : Request) → Reply q → Prop} (transitionJson : JsonText PhaseTransition)
    (decision : ApprovalDecision) : (agent.resumePhaseGate sid transitionJson decision).Meets B (fun _ => True)
      fun r => ∀ id kind, r ≠ .ok (.interrupted id kind) := by
  have hgo : (orJson transitionJson >>= fun transition => agent.applyTransition "no skills configured" sid transition >>=
      fun _ => .ret (.done ("Phase transition to " ++ transition.nextSkill ++ " approved.")) : M AgentError AgentOutput).Meets
      B (fun _ => True) fun r => ∀ id kind, r ≠ .ok (.interrupted id kind) :=
    Prog.Meets.bind (meets_any _) (fun _ _ => Prog.Meets.bind (meets_any _) (fun _ _ id kind h => by cases h)
      fun e _ id kind h => by cases h) fun e _ id kind h => by cases h
  cases decision with
  | rejected reason => exact fun id kind h => by cases h
  | approved => exact hgo
  | modified newArgs => exact hgo

theorem resume_ended (env : Env) (userId : String) (sid : SessionId) (approvalId : ApprovalId)
    (decision : ApprovalDecision) (w : World) : agent.Ended sid (suspendedSkill w sid)
      ((agent.resume userId sid approvalId decision).run (handle env) ⟨w, []⟩).2.trace
      ((agent.resume userId sid approvalId decision).run (handle env) ⟨w, []⟩).1 := by
  have hclear : ∀ {q : Request}, q.Idle ∨ q.OfWrites sid none .active → q.Barren := fun hq s state hplants => by
    rcases hq with hq | hq
    · exact hq.barren s state hplants
    · cases (hq.plants hplants).2
  have hend := agent.resume_end env userId sid approvalId decision w
  generalize (agent.resume userId sid approvalId decision).run (handle env) ⟨w, []⟩ = x at hend ⊢
  cases hend with
  | kept _ _ hr => exact .through (barren_of_reaches hr (fun _ h => hclear h) (by simp)) fun id kind h => by cases h
  | halfway _ _ _ _ _ hr =>
    exact .through (barren_of_reaches hr (fun _ h => hclear h) (by simp)) fun id kind h => by cases h
  | @acted resolved h _ _ _ =>
    have hc : ∀ x ∈ clearing env sid w, x.1.Barren := fun x hx => hclear (clearing_asked x hx)
    rw [suspendedSkill_eq h]
    obtain ⟨state, payload⟩ := resolved
    have hact : ∀ history pending, agent.Ended sid (state.skillContext.map (·.skillId))
        ((agent.resumeToolCallOrCheckpoint sid state decision history pending).run (handle env)
          ⟨cleared env sid w, clearing env sid w⟩).2.trace
        ((agent.resumeToolCallOrCheckpoint sid state decision history pending).run (handle env)
          ⟨cleared env sid w, clearing env sid w⟩).1 := fun history pending => by
      refine Prog.Only.run_bind (Φ := fun r c' => agent.Ended sid (state.skillContext.map (·.skillId)) c'.trace r)
        (agent.observation_only ..) (fun e c₁ h₁ => .through (barren_of_reaches h₁ (fun _ h => h.barren) hc)
          fun id kind h => by cases h) fun text c₁ h₁ _ => ?_
      exact agent.continueRun_ended state _ (barren_of_reaches h₁ (fun _ h => h.barren) hc)
    have hpanic : agent.Ended sid (state.skillContext.map (·.skillId)) (clearing env sid w)
        (.error (.llm .panicked)) := .through hc fun id kind h => by cases h
    cases state with
    | pendingPhaseGate id transitionJson =>
      refine .through (barren_of_reaches ((agent.resumePhaseGate_only transitionJson decision).reaches _)
        (fun _ h => h.ofTurn.barren) hc) ?_
      exact Prog.Meets.result (handle env) (c := ⟨cleared env sid w, clearing env sid w⟩)
        (agent.resumePhaseGate_done transitionJson decision)
    | pendingToolCall =>
      cases payload with
      | none => exact hpanic
      | some p => exact hact _ _
    | pendingCheckpoint =>
      cases payload with
      | none => exact hpanic
      | some p => exact hact _ _

/-! ### Other calls -/

/-- A stateless invocation runs its strategy without the hook. -/
theorem invokeStateless_only (input : String) : (agent.invokeStateless input).Only Request.OfStrategy := by
  refine Prog.Only.bind (p := llm (agent.strategy.run (assembleMessages (agent.assembleSystem none none) [] input))) ?_
    fun outcome => by cases outcome <;> trivial
  have hrun := { agent with hitl := none }.runStrategy_only agent.kind agent.tools agent.maxIterations
    (assembleMessages (agent.assembleSystem none none) [] input) agent.tools.toolNames fun policy => .new 0 none policy
  unfold strategy
  cases hk : agent.kind with
  | _ => rw [hk] at hrun; exact hrun

theorem deleteAll_barren (userId : String) (sessions : List Session) : (deleteAll userId sessions).Only Request.Barren := by
  induction sessions with
  | nil => trivial
  | cons session sessions ih =>
    refine Prog.Only.bind (sess_only (query_only fun _ _ h => h)) fun _ => ?_
    exact Prog.Only.bind (request_only fun _ _ h => h) fun _ => ih

theorem createWith_barren (userId : String) (ctx : Option (JsonText SkillContext)) :
    (SessionMemory.createWith userId ctx).Only Request.Barren :=
  SessionMemory.createWith_only (fun _ _ h => h) (fun _ _ h => h) fun id now s state h => by cases h.2

theorem cleanup_barren (cfg : CleanupConfig) : (CleanupWorker.tick cfg).Only Request.Barren :=
  CleanupWorker.tick_only (fun _ _ h => h) (fun _ _ _ h => h) (fun _ _ _ h => h) (fun _ _ _ h => h)
    fun _ _ _ _ _ h => h

/-- Creating a session, and everything that is not about a session or ends it. -/
theorem program_barren {call : ApiCall} (hcall : ∀ u s input, call ≠ .invoke u s input)
    (hresume : ∀ u s id d, call ≠ .resume u s id d) (hadvance : ∀ u s output, call ≠ .advancePhase u s output) :
    (agent.program call).Only Request.Barren := by
  cases call with
  | invoke u s input => exact absurd rfl (hcall u s input)
  | resume u s id d => exact absurd rfl (hresume u s id d)
  | advancePhase u s output => exact absurd rfl (hadvance u s output)
  | createSession u =>
    refine Prog.Only.bind (sess_only ?_) fun _ => trivial
    exact Prog.Only.bind (createWith_barren u none) fun _ => trivial
  | createSessionWithSkill u skillId =>
    refine Prog.Only.bind (p := agent.createSessionWithSkill u skillId) ?_ fun _ => trivial
    unfold createSessionWithSkill
    split
    · trivial
    · refine Prog.Only.bind (request_only fun _ _ h => h) fun reg => ?_
      split
      · trivial
      · exact sess_only (Prog.Only.bind (createWith_barren u _) fun _ => trivial)
  | invokeStateless input =>
    exact Prog.Only.bind (Prog.Only.mono (agent.invokeStateless_only input) fun _ h => h.barren) fun _ => trivial
  | endSession u s =>
    refine Prog.Only.bind (Prog.Only.bind (sess_only (SessionManager.assertOwner_only fun _ _ h => h)) fun _ => ?_)
      fun _ => trivial
    exact Prog.Only.bind (sess_only (SessionMemory.updateStatus_only (fun _ _ h => h) fun _ _ _ h => h)) fun _ =>
      request_only fun _ _ h => h
  | deleteAllUserData u =>
    refine Prog.Only.bind (Prog.Only.bind (sess_only (query_only fun _ _ h => h)) fun sessions => ?_) fun _ => trivial
    exact deleteAll_barren u sessions
  | resolve id d => exact Prog.Only.bind (request_only fun _ _ h => h) fun _ => trivial
  | sweepExpired => exact Prog.Only.bind (request_only fun _ _ h => h) fun _ => trivial
  | checkTool ctx name args =>
    refine Prog.Only.bind (infallible_any (Prog.Meets.mono (checkTool_meets (W := fun _ => False) ctx name args)
      (fun _ _ h => h) (fun _ h => h.1.barren) fun _ _ => trivial)) fun _ => trivial
  | cleanup cfg => exact Prog.Only.bind (Prog.Only.attempt (cleanup_barren cfg)) fun _ => trivial

/-- A transition that is stopped at its gate writes the state of the gate, under an id that it drew. -/
theorem advancePhase_plants (userId output : String) (B : (q : Request) → Reply q → Prop) :
    (agent.advancePhase userId sid output).Meets B (fun q => ∀ s state, q.Plants s state →
      s = sid ∧ ∃ id transition kind, state = .pendingPhaseGate id transition ∧ B (.submit sid kind) (.ok id))
      AnyResult := by
  have hbarren : ∀ {α : Type} {p : M AgentError α}, p.Only Request.Barren → p.Meets B (fun q => ∀ s state,
      q.Plants s state → s = sid ∧ ∃ id transition kind, state = .pendingPhaseGate id transition ∧
        B (.submit sid kind) (.ok id)) AnyResult := fun hp =>
    Prog.Meets.mono hp (fun _ _ _ => trivial) (fun _ h s state hplants => absurd hplants (h s state)) fun _ h => h
  refine Prog.Meets.bind (hbarren (sess_only (SessionManager.assertOwner_only fun _ _ h => h))) (fun _ _ => ?_)
    fun _ _ => trivial
  split
  · trivial
  · rename_i transition _
    refine Prog.Meets.bind (hbarren (Prog.Only.mono agent.phaseGate_reads fun _ h => h.idle.barren)) (fun gate _ => ?_)
      fun _ _ => trivial
    cases gate with
    | none =>
      refine Prog.Meets.bind (hbarren (Prog.Only.mono (agent.applyTransition_binds (s := sid) _ transition)
        fun _ h => h.ofPhase.ofTurn.barren)) (fun _ _ => trivial) fun _ _ => trivial
    | some skillId =>
      refine Prog.Meets.bind (P := AnyResult) ⟨fun _ _ h => h.elim, fun r hr => ?_⟩ (fun _ _ => trivial)
        fun _ _ => trivial
      cases r with
      | error e => trivial
      | ok id =>
        refine Prog.Meets.bind (P := AnyResult) (Prog.Meets.mono (twoWrites_only ..) (fun _ _ _ => trivial)
          (fun q hq s state hplants => ?_) fun _ h => h) (fun _ _ => trivial) fun _ _ => trivial
        have h := hq.plants hplants
        exact ⟨h.1, id, _, _, by simpa [JsonText.ofValue, eq_comm] using h.2, hr⟩

end Agent

end AgentVerse
