import AgentVerse.Agent.Licences

/-!
# Approvals of single calls

The hook stops a batch at its first intercepted call, which is the one that a human is shown; the approval executes
the whole batch. Every intercepted call that a run behind the hook executes was itself shown and approved, each under
an approval of its own, as long as no approved batch has an intercepted call behind the one that was shown and the
queue takes every request (`gates_kept`). Nothing else looks at the rest of the batch (`second_call_unapproved`).
-/

namespace AgentVerse

open Effects

/-! ### The rule -/

/-- The call put a request in the queue, under this approval. -/
def Requested (e : CallEntry) (sid : SessionId) (kind : InterruptKind) (id : ApprovalId) : Prop :=
  (⟨.submit sid kind, .ok id⟩ : Event) ∈ e.asked

/-- A submission that the queue did not take. -/
def refusedSubmit : Event → Bool
  | ⟨.submit .., .error _⟩ => true
  | _ => false

/-- Where the queue takes the requests, a consultation is a request. -/
theorem Consulted.requested {e : CallEntry} {kind : InterruptKind} {id : ApprovalId} (h : Consulted e sid kind id)
    (htaken : ∀ x ∈ e.asked, refusedSubmit x = false) : Requested e sid kind id := by
  rcases h with hok | ⟨⟨err, herr⟩, -⟩
  · exact hok
  · cases htaken _ herr

theorem Allows.requested {env : Env} {es : List CallEntry} {d : Dispatch} {a : SessionId × ApprovalId}
    (h : Allows env Consulted es d a) (htaken : ∀ e ∈ es, ∀ x ∈ e.asked, refusedSubmit x = false) :
    Allows env Requested es d a := by
  obtain ⟨e, he, e', he', args, userId, decision, hasks, hrest⟩ := h
  exact ⟨e, he, e', he', args, userId, decision, hasks.requested (htaken e he), hrest⟩

namespace Agent

variable (agent : Agent)

/-- The intercepted calls that a turn itself executes. -/
def gatedTasks (policy : HitlPolicy) (e : CallEntry) : List Dispatch :=
  match e.call with
  | .invoke .. | .resume .. => (e.asked.filterMap ownTask).filter fun d => policy.intercepts (agent.runSkill e) d.tool
  | _ => []

/-- Every intercepted call that a turn itself executes was requested and approved, each under its own approval. -/
def GatesKept (env : Env) (policy : HitlPolicy) (H : CallHistory) : Prop :=
  ApprovedEach (Allows env Requested) (agent.gatedTasks policy) (fun _ => []) H

/-- Of the pending calls behind the one that was shown, the hook would stop none that an approval executes. -/
def ShownAlone (policy : HitlPolicy) (state : InterruptedState) : Prop :=
  ∀ c ∈ behindShown policy state, (agent.executionTools state.activeToolNames).hasTool c.name = true →
    policy.intercepts (state.skillContext.map (·.skillId)) c.name = false

instance (policy : HitlPolicy) (state : InterruptedState) : Decidable (agent.ShownAlone policy state) := by
  unfold ShownAlone
  infer_instance

/-- The queue takes the requests of the call, and a resume that approves and is let act finds a batch of which no call
behind the one that was shown is intercepted. -/
def GatesSingly (env : Env) (policy : HitlPolicy) (_ : CallHistory) (e : CallEntry) : Prop :=
  (∀ x ∈ e.asked, refusedSubmit x = false) ∧ ∀ userId sid id, e.call = .resume userId sid id .approved →
    Accepts env e.before userId sid id →
      ∀ resolved, Resumable env e.before userId sid id resolved → agent.ShownAlone policy resolved.state

/-! ### Runs behind the hook -/

variable {agent} {policy : HitlPolicy}

theorem RunsReAct.fixedStep (hreact : agent.RunsReAct) (d : Dispatch) : agent.fixedStep d = false := by
  cases hrouter : agent.strategyRouter with
  | some router => simp [Agent.fixedStep, hrouter]
  | none => simp [Agent.fixedStep, hreact hrouter]

/-- The rest of an approved batch is not intercepted. -/
theorem GatesSingly.rest {H : CallHistory} {e : CallEntry} (hC : agent.GatesSingly env policy H e)
    {a : SessionId × ApprovalId} (hacts : ActsUnder env e a) :
    ∀ d ∈ agent.restOfBatch policy e, policy.intercepts (agent.runSkill e) d.tool = false := by
  intro d hd
  obtain ⟨userId, decision, hcall, hacc⟩ := hacts
  obtain ⟨resolved, hres⟩ := hacc.1
  have hskill : agent.runSkill e = resolved.state.skillContext.map (·.skillId) := by
    rw [runSkill, hcall, ← suspendedSkill_eq hres]
  obtain ⟨l, hl, hp⟩ := hres.pending
  have hpending : (e.before.life a.1).bind (·.pending) = some (.printed resolved.state) := by
    rw [hl, Option.bind_some, hp]
    rfl
  cases decision with
  | approved =>
    simp only [restOfBatch, hcall, hpending] at hd
    obtain ⟨c, hc, rfl⟩ := List.mem_map.mp hd
    obtain ⟨hc, hhas⟩ := List.mem_filter.mp hc
    rw [hskill]
    exact hC.2 userId a.1 a.2 hcall hacc resolved hres c hc hhas
  | _ => simp [restOfBatch, hcall] at hd

/-! ### Histories -/

variable (agent) in
/-- The history so far, as far as it concerns approvals. -/
structure Gated (env : Env) (policy : HitlPolicy) (H : CallHistory) : Prop where
  spent : agent.Spent env H
  taken : ∀ e ∈ H.past, ∀ x ∈ e.asked, refusedSubmit x = false
  kept : ∀ pre e post, H.past = pre ++ e :: post → agent.gatedTasks policy e = [] ∨ ∃ d a,
    (agent.gatedTasks policy e).Subperm [d] ∧ ActsUnder env e a ∧ e.call.TakesTurn a.1 ∧
      Allows env Requested (pre ++ [e]) d a

/-- A call keeps the gates, given what was approved before it. -/
theorem kept_at {H : CallHistory} (hH : agent.Gated env policy H) (hpolicy : agent.hitl = some policy)
    (hreact : agent.RunsReAct) {call : ApiCall} (hC : agent.GatesSingly env policy H (agent.entry env H.state call)) :
    agent.gatedTasks policy (agent.entry env H.state call) = [] ∨ ∃ d a,
      (agent.gatedTasks policy (agent.entry env H.state call)).Subperm [d] ∧
        ActsUnder env (agent.entry env H.state call) a ∧ call.TakesTurn a.1 ∧
          Allows env Requested (H.past ++ [agent.entry env H.state call]) d a := by
  have hown : ∀ sid, call.TakesTurn sid → agent.gatedTasks policy (agent.entry env H.state call) =
      ((agent.entry env H.state call).asked.filterMap ownTask).filter
        fun d => decide (d.depth = 0) && policy.intercepts (agent.runSkill (agent.entry env H.state call)) d.tool := by
    intro sid hturn
    have hdepth : ∀ d ∈ (agent.entry env H.state call).asked.filterMap ownTask, d.depth = 0 := fun d hd => by
      obtain ⟨x, -, hd⟩ := List.mem_filterMap.mp hd
      exact (ownTask_eq_some.mp hd).2
    cases call with
    | invoke | resume => exact List.filter_congr fun d hd => by simp [hdepth d hd]
    | _ => exact hturn.elim
  by_cases hturn : ∃ sid, call.TakesTurn sid
  · obtain ⟨sid, hturn⟩ := hturn
    have hstopped := stopped_tasks hH.spent.provenance hpolicy hturn (W := fun d => decide (d.depth = 0) &&
      policy.intercepts (agent.runSkill (agent.entry env H.state call)) d.tool) fun d hd => by
        rw [Bool.and_eq_true, decide_eq_true_iff] at hd
        exact ⟨hd.1, hreact.fixedStep d, hd.2⟩
    rw [← hown sid hturn] at hstopped
    refine hstopped.imp id fun ⟨d, a, hsub, hacts, hturn', hallows⟩ => ⟨d, a, ?_, hacts, hturn',
      hallows.requested (History.forall_next hH.taken hC.1)⟩
    -- The rest of the batch is not intercepted, so none of it is among the gated tasks.
    have hrest : (agent.restOfBatch policy (agent.entry env H.state call)).filter (fun d =>
        policy.intercepts (agent.runSkill (agent.entry env H.state call)) d.tool) = [] :=
      List.filter_eq_nil_iff.mpr fun d hd => by simp [hC.rest hacts d hd]
    have hself : (agent.gatedTasks policy (agent.entry env H.state call)).filter (fun d =>
        policy.intercepts (agent.runSkill (agent.entry env H.state call)) d.tool) =
          agent.gatedTasks policy (agent.entry env H.state call) := by
      rw [hown sid hturn, List.filter_filter]
      exact List.filter_congr fun d _ => by simp [Bool.and_left_comm]
    rw [← hself]
    refine (hsub.filter _).trans (List.Sublist.subperm ?_)
    rw [← List.singleton_append, List.filter_append, hrest, List.append_nil]
    exact List.filter_sublist
  · cases call with
    | invoke u s i => exact absurd ⟨s, rfl⟩ hturn
    | resume u s i d => exact absurd ⟨s, rfl⟩ hturn
    | _ => exact .inl rfl

theorem Gated.next {H : CallHistory} (hH : agent.Gated env policy H) (hpolicy : agent.hitl = some policy)
    (hreact : agent.RunsReAct) {call : ApiCall} (hC : agent.GatesSingly env policy H (agent.entry env H.state call)) :
    agent.Gated env policy (H.next (handle env) agent.program call) where
  spent := hH.spent.next call
  taken := History.forall_next hH.taken hC.1
  kept := History.split_next hH.kept (kept_at hH hpolicy hreact hC)

/-- In every history in which the queue takes the requests, and no approved batch has an intercepted call behind the
one that was shown, every intercepted call that a turn executes was requested and approved, each under an approval of
its own. -/
theorem gates_kept (env : Env) (agent : Agent) (skills : SkillRegistry) (clock : Nat) (calls : List ApiCall)
    (policy : HitlPolicy) (hpolicy : agent.hitl = some policy) (hreact : agent.RunsReAct)
    (hC : (CallHistory.start (World.fresh skills clock)).Conforms (handle env) agent.program
      (agent.GatesSingly env policy) calls) :
    agent.GatesKept env policy (agent.serve env (.start (World.fresh skills clock)) calls) := by
  have hstart : agent.Gated env policy (.start (World.fresh skills clock)) :=
    ⟨agent.spent env skills clock [], fun e he => (by cases he),
      fun pre e post h => absurd h.symm (List.append_ne_nil_of_right_ne_nil pre (List.cons_ne_nil e post))⟩
  have hgated := History.invariant (I := agent.Gated env policy) (fun H call hH hC => hH.next hpolicy hreact hC)
    hstart hC
  exact approvedEach_of_acts hgated.spent.once hgated.kept

/-- A file is deleted after its approval. -/
theorem gates_kept_delete : Agent.plain.GatesKept (.asksFor ["file_delete"]) .new
    (Agent.plain.serve (.asksFor ["file_delete"]) (.start (World.fresh ⟨[]⟩ 0))
      [.createSession "u", .invoke "u" 0 "", .resume "u" 0 1 .approved]) := by
  refine gates_kept _ .plain ⟨[]⟩ 0 _ .new rfl (fun _ => rfl) ⟨⟨by decide +kernel, fun _ _ _ h => by cases h⟩,
    ⟨by decide +kernel, fun _ _ _ h => by cases h⟩, ⟨by decide +kernel, fun u s id h _ resolved hres => ?_⟩, trivial⟩
  cases h
  have halone : (((Agent.plain.serve (.asksFor ["file_delete"]) (.start (World.fresh ⟨[]⟩ 0))
      [.createSession "u", .invoke "u" 0 ""]).state.life 0).bind (·.pending)).all
        (fun json => json.fromStr.toOption.all fun state => decide (Agent.plain.ShownAlone .new state)) = true := by
    decide +kernel
  obtain ⟨l, hl, hp⟩ := hres.pending
  have hpending : ((Agent.plain.serve (.asksFor ["file_delete"]) (.start (World.fresh ⟨[]⟩ 0))
      [.createSession "u", .invoke "u" 0 ""]).state.life 0).bind (·.pending) = some (.ofValue resolved.state) :=
    (congrArg (Option.bind · _) hl).trans hp
  rw [hpending] at halone
  simpa [Except.toOption] using halone

/-- The submission of a request for a call of the tool. -/
def submitsFor (tool : String) : Event → Bool
  | ⟨.submit _ (.toolApproval t _), _⟩ => t = tool
  | _ => false

/-- Two intercepted calls in one batch: the approval of the first executes the second, for which no request was ever
submitted. -/
theorem second_call_unapproved : ¬ Agent.plain.GatesKept (.asksFor ["file_delete", "exec_command"]) .new
    (Agent.plain.serve (.asksFor ["file_delete", "exec_command"]) (.start (World.fresh ⟨[]⟩ 0))
      [.createSession "u", .invoke "u" 0 "", .resume "u" 0 1 .approved]) := by
  intro h
  have hran : (⟨0, some "exec_command", "exec_command", .null⟩ : Dispatch) ∈ Agent.plain.gatedTasks .new
      (Agent.plain.entry (.asksFor ["file_delete", "exec_command"])
        (Agent.plain.serve (.asksFor ["file_delete", "exec_command"]) (.start (World.fresh ⟨[]⟩ 0))
          [.createSession "u", .invoke "u" 0 ""]).state (.resume "u" 0 1 .approved)) := by decide +kernel
  have hnone : ∀ e ∈ (Agent.plain.serve (.asksFor ["file_delete", "exec_command"]) (.start (World.fresh ⟨[]⟩ 0))
      [.createSession "u", .invoke "u" 0 "", .resume "u" 0 1 .approved]).past,
      ∀ x ∈ e.asked, submitsFor "exec_command" x = false := by decide +kernel
  have hpast : (Agent.plain.serve (.asksFor ["file_delete", "exec_command"]) (.start (World.fresh ⟨[]⟩ 0))
      [.createSession "u", .invoke "u" 0 "", .resume "u" 0 1 .approved]).past =
        (Agent.plain.serve (.asksFor ["file_delete", "exec_command"]) (.start (World.fresh ⟨[]⟩ 0))
          [.createSession "u", .invoke "u" 0 ""]).past ++ Agent.plain.entry (.asksFor ["file_delete", "exec_command"])
            (Agent.plain.serve (.asksFor ["file_delete", "exec_command"]) (.start (World.fresh ⟨[]⟩ 0))
              [.createSession "u", .invoke "u" 0 ""]).state (.resume "u" 0 1 .approved) :: [] := rfl
  obtain ⟨a, e, he, e', -, args, userId, decision, hasked, -⟩ := h.approved hpast hran
  exact absurd (hnone e he _ hasked) (by simp [submitsFor])

end Agent

end AgentVerse
