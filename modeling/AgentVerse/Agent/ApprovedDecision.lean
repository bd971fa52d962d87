import AgentVerse.Agent.Batch
import AgentVerse.Core.Json

/-!
# Approved decisions

An approved decision executes the persisted calls and goes on with their results, in the order of their completion.
Without the approval the same batch gives one result for each call, in the order of the calls.
`approved_complete_iff` says when the two agree.
-/

namespace AgentVerse

open Effects

variable {env : Env} {w : World} {sid : SessionId} {ctx : HitlContext} {i : HitlInterrupt} {kind : InterruptKind}
  {skillCtx : Option SkillContext}

namespace Agent

variable (agent : Agent)

/-- The results of the calls that an approved decision executes. -/
def approvedResults (activeToolNames : List String) (pending : List ToolCall) :
    M AgentError (List ToolCallResult) :=
  if pending.isEmpty then .ret []
  else infallible ((agent.executionTools activeToolNames).executeMany agent.executor.runTool 0 pending)

/-- The observation that an approved decision leaves. -/
def approvedText (pending : List ToolCall) (results : List ToolCallResult) : String :=
  if pending.isEmpty then "Checkpoint approved. Continue." else agent.renderResults results

theorem observation_approved (activeToolNames : List String) (pending : List ToolCall) :
    agent.observation activeToolNames .approved pending =
      agent.approvedResults activeToolNames pending >>= fun results => .ret (agent.approvedText pending results) := by
  unfold observation approvedResults approvedText executeDirectly
  cases pending <;> rfl

/-- The calls of a batch that are to be executed. -/
def otherCalls (i : HitlInterrupt) : List ToolCall :=
  i.pendingCalls.filter fun c => !HitlPolicy.isCheckpointTool c.name

/-- An approved decision executes every call of the batch once, and the run goes on with one result for each call, in
the order of the calls. -/
structure LosesNothing (env : Env) (w : World) (userId : String) (sid : SessionId) (i : HitlInterrupt)
    (kind : InterruptKind) (skillCtx : Option SkillContext) : Prop where
  executed : (executed ((agent.resume userId sid i.approvalId .approved).run (handle env) ⟨w, []⟩).2.trace).Perm
    (((agent.executionTools i.activeToolNames).registered (otherCalls i)).map (·.task 0))
  outcomes : ∃ results c',
    (agent.approvedResults i.activeToolNames (persistedCalls i kind)).run (handle env)
        ⟨cleared env sid w, clearing env sid w⟩ = (.ok results, c') ∧
      (agent.resume userId sid i.approvalId .approved).run (handle env) ⟨w, []⟩ =
        (agent.continueRun sid (interruptedState i kind skillCtx)
          (i.history ++ [.ofText .user (agent.approvedText (persistedCalls i kind) results)])).run (handle env) c' ∧
      results.map (fun r => (r.id, r.name)) = callOrder (otherCalls i)

/-- The calls complete in their order and no task panics; a checkpoint stands alone. -/
def CompletesInOrder (env : Env) (w : World) (userId : String) (sid : SessionId) (i : HitlInterrupt) :
    InterruptKind → Prop
  | .skillCheckpoint .. => otherCalls i = []
  | _ => (env.joinOrder (w.steps + 5) i.pendingCalls).order = i.pendingCalls ∧
      ∀ x ∈ beforeModel ((agent.resume userId sid i.approvalId .approved).run (handle env) ⟨w, []⟩).2.trace,
        ownPanic x = false

/-- Completion in another order shows in the ids, which are distinct. -/
theorem order_eq_of_callOrder {order calls : List ToolCall} (hperm : order.Perm calls)
    (hids : (calls.map (·.id)).Nodup) (h : callOrder order = callOrder calls) : order = calls := by
  have hmap : order.map (·.id) = calls.map (·.id) := by
    have := congrArg (List.map Prod.fst) h
    simpa [callOrder, Function.comp_def] using this
  refine List.ext_getElem hperm.length_eq fun k hk hk₂ => ?_
  refine List.inj_on_of_nodup_map hids (hperm.mem_iff.mp (List.getElem_mem hk)) (List.getElem_mem hk₂) ?_
  have hk' : k < (order.map (·.id)).length := by simpa using hk
  simpa only [List.getElem_map] using List.getElem_of_eq hmap hk'

/-- A batch that is stopped at its only intercepted call, a gated one, asks for no checkpoint. -/
theorem otherCalls_eq {name : String} {args : Json} {pre post : List ToolCall} {call : ToolCall}
    (hs : StoppedAt ctx i.pendingCalls (.toolApproval name args) pre call post)
    (hone : (i.pendingCalls.filter fun c => ctx.policy.intercepts ctx.skillId c.name).length = 1) :
    otherCalls i = i.pendingCalls := by
  obtain ⟨-, -, hcall⟩ := ctx.interruptKind_toolApproval hs.shown
  have hpass : ∀ c : ToolCall, ctx.policy.intercepts ctx.skillId c.name = false →
      HitlPolicy.isCheckpointTool c.name = false := fun c hc => (Bool.or_eq_false_iff.mp hc).1
  have hpost : ∀ c ∈ post, ctx.policy.intercepts ctx.skillId c.name = false := by
    rw [← List.countP_eq_length_filter, hs.split, List.countP_append, List.countP_cons, hs.intercepted] at hone
    have hzero : post.countP (fun c => ctx.policy.intercepts ctx.skillId c.name) = 0 := by
      simp only [if_true] at hone
      omega
    exact fun c hc => by simpa using List.countP_eq_zero.mp hzero c hc
  refine List.filter_eq_self.mpr fun c hc => ?_
  rw [hs.split] at hc
  rcases List.mem_append.mp hc with hc | hc
  · simp [hpass c (hs.before c hc)]
  · rcases List.mem_cons.mp hc with rfl | hc
    · simp [hcall]
    · simp [hpass c (hpost c hc)]

/-- An approved decision that is let act is judged by what it executes and by the results it leaves. -/
theorem losesNothing_iff {userId : String} {results : List ToolCallResult} {w' : World} {t : List Event}
    {tasks : List Dispatch} {panicked : Bool} (h : agent.SuspendedOn w sid ctx i kind skillCtx)
    (hacc : Accepts env w userId sid i.approvalId) (hkind : ∀ f t d, kind ≠ .phaseGate f t d)
    (hrun : (agent.approvedResults i.activeToolNames (persistedCalls i kind)).run (handle env)
      ⟨cleared env sid w, []⟩ = (.ok results, ⟨w', t⟩)) (ht : Stretch t tasks panicked) :
    (agent.LosesNothing env w userId sid i kind skillCtx ↔
      tasks.Perm (((agent.executionTools i.activeToolNames).registered (otherCalls i)).map (·.task 0)) ∧
        results.map (fun r => (r.id, r.name)) = callOrder (otherCalls i)) ∧
      ((∀ x ∈ beforeModel ((agent.resume userId sid i.approvalId .approved).run (handle env) ⟨w, []⟩).2.trace,
        ownPanic x = false) ↔ panicked = false) := by
  have hnames : (interruptedState i kind skillCtx).activeToolNames = i.activeToolNames := by
    cases kind with
    | phaseGate f t d => exact absurd rfl (hkind f t d)
    | _ => rfl
  have hobs : (agent.observation (interruptedState i kind skillCtx).activeToolNames .approved
      (persistedCalls i kind)).run (handle env) ⟨cleared env sid w, []⟩ =
        (.ok (agent.approvedText (persistedCalls i kind) results), ⟨w', t⟩) := by
    rw [hnames, observation_approved, Prog.run_bind_ok _ hrun]
    rfl
  obtain ⟨hresume, hstretch⟩ := agent.resume_stretch hacc (h.resolved hacc) hobs ht
  have hrun' : (agent.approvedResults i.activeToolNames (persistedCalls i kind)).run (handle env)
      ⟨cleared env sid w, clearing env sid w⟩ = (.ok results, ⟨w', clearing env sid w ++ t⟩) := by
    rw [Prog.run_trace, hrun]
  refine ⟨⟨fun ⟨hexec, results', c', hrun'', _, horder⟩ => ⟨?_, ?_⟩, fun ⟨hexec, horder⟩ => ⟨?_, ?_⟩⟩, ?_⟩
  · rwa [AgentVerse.executed, hstretch.tasks] at hexec
  · rw [hrun'] at hrun''
    cases hrun''
    exact horder
  · rwa [AgentVerse.executed, hstretch.tasks]
  · exact ⟨results, _, hrun', hresume, horder⟩
  · rw [← hstretch.panics]
    simp

/-- A resume that is let act is the claim's own case: it loses nothing exactly when the calls complete in their order
and none panics, and for a checkpoint exactly when there is no other call. -/
theorem losesNothing_of_accepts {userId : String} (h : agent.SuspendedOn w sid ctx i kind skillCtx)
    (hids : (i.pendingCalls.map (·.id)).Nodup)
    (hone : (i.pendingCalls.filter fun c => ctx.policy.intercepts ctx.skillId c.name).length = 1)
    (hacc : Accepts env w userId sid i.approvalId) :
    agent.LosesNothing env w userId sid i kind skillCtx ↔ agent.CompletesInOrder env w userId sid i kind := by
  obtain ⟨pre, call, post, hs⟩ := h.stoppedAt
  have hkind := ctx.interruptKind_ne_phaseGate hs.shown
  cases kind with
  | phaseGate f t d => exact absurd rfl (hkind f t d)
  | skillCheckpoint name payload =>
    have hrun : (agent.approvedResults i.activeToolNames (persistedCalls i (.skillCheckpoint name payload))).run
        (handle env) ⟨cleared env sid w, []⟩ = (.ok [], ⟨cleared env sid w, []⟩) := rfl
    rw [(agent.losesNothing_iff h hacc hkind hrun .nil).1, CompletesInOrder]
    constructor
    · rintro ⟨-, horder⟩
      exact List.map_eq_nil_iff.mp horder.symm
    · intro hother
      simp [hother, ToolRegistry.registered, callOrder]
  | toolApproval name args =>
    have hother : otherCalls i = i.pendingCalls := otherCalls_eq hs hone
    have hne : i.pendingCalls ≠ [] := by simp [hs.split]
    obtain ⟨results, w', t, tasks, panicked, hrun, ht, hjoined⟩ := executeMany_stretch agent.executor env
      (agent.executionTools i.activeToolNames) i.pendingCalls (cleared env sid w)
    rw [cleared_steps] at hjoined
    have hresults : (agent.approvedResults i.activeToolNames (persistedCalls i (.toolApproval name args))).run
        (handle env) ⟨cleared env sid w, []⟩ = (.ok results, ⟨w', t⟩) := by
      rw [show persistedCalls i (.toolApproval name args) = i.pendingCalls from rfl, approvedResults,
        if_neg (by simpa using hne)]
      exact (Prog.run_mapErr_eq_ok _).mpr hrun
    have hperm := (env.joinOrder (w.steps + 5) i.pendingCalls).perm
    obtain ⟨hloses, hpanics⟩ := agent.losesNothing_iff h hacc hkind hresults ht
    rw [hloses, CompletesInOrder, hpanics, hother]
    · constructor
      · rintro ⟨-, horder⟩
        cases hp : panicked with
        | true =>
          have hshort := hjoined.short hp
          have hlen : results.length = i.pendingCalls.length := by
            simpa [callOrder] using congrArg List.length horder
          rw [hlen, hperm.length_eq] at hshort
          exact absurd hshort (Nat.lt_irrefl _)
        | false => exact ⟨order_eq_of_callOrder hperm hids ((hjoined.complete hp).2.symm.trans horder), rfl⟩
      · rintro ⟨horder, hp⟩
        obtain ⟨htasks, hresults⟩ := hjoined.complete hp
        rw [horder] at htasks hresults
        exact ⟨htasks ▸ .refl _, hresults⟩
    · simp

/-- A decision that goes on consumed the pending state, so its resume found one. -/
theorem LosesNothing.resumable {userId : String} (h : agent.LosesNothing env w userId sid i kind skillCtx) :
    ∃ resolved, Resumable env w userId sid i.approvalId resolved := by
  by_contra hnone
  obtain ⟨results, c', hresults, hrun, -⟩ := h.outcomes
  obtain ⟨x, hx, hwrites⟩ := @clearing_writes env w sid
  have hidle := agent.resume_refused .approved fun resolved hres => hnone ⟨resolved, hres⟩
  rw [hrun, Prog.run_trace] at hidle
  rw [Prog.run_trace] at hresults
  refine hwrites (hidle x (List.mem_append_left _ ?_))
  rw [← congrArg (fun r => r.2.trace) hresults]
  exact List.mem_append_left _ hx

/-- An approved decision loses no call and no result exactly when what is persisted is read back, the calls complete in
their order and none panics; one for a checkpoint loses every other call of its batch. -/
theorem approved_complete_iff (env : Env) (w : World) (userId : String) (sid : SessionId) (ctx : HitlContext)
    (i : HitlInterrupt) (kind : InterruptKind) (skillCtx : Option SkillContext)
    (h : agent.SuspendedOn w sid ctx i kind skillCtx) (hids : (i.pendingCalls.map (·.id)).Nodup)
    (hone : (i.pendingCalls.filter fun c => ctx.policy.intercepts ctx.skillId c.name).length = 1)
    (howns : w.owns userId sid) (hserved : ServesResume env w) :
    agent.LosesNothing env w userId sid i kind skillCtx ↔
      ReadsBack i kind ∧ agent.CompletesInOrder env w userId sid i kind := by
  have haccepts := h.accepts_iff howns hserved
  constructor
  · intro hloses
    have hacc : Accepts env w userId sid i.approvalId :=
      ⟨hloses.resumable, hserved.clears_state, hserved.sets_status⟩
    exact ⟨haccepts.mp hacc, (agent.losesNothing_of_accepts h hids hone hacc).mp hloses⟩
  · rintro ⟨hreads, horder⟩
    exact (agent.losesNothing_of_accepts h hids hone (haccepts.mpr hreads)).mpr horder

theorem approved_complete_delete :
    Agent.plain.LosesNothing (.asksFor []) (onBatch ["file_delete", "read_file"]) "u" 0
        (batchInterrupt ["file_delete", "read_file"] (.toolApproval "file_delete" .null))
        (.toolApproval "file_delete" .null) none ↔
      ReadsBack (batchInterrupt ["file_delete", "read_file"] (.toolApproval "file_delete" .null))
          (.toolApproval "file_delete" .null) ∧
        Agent.plain.CompletesInOrder (.asksFor []) (onBatch ["file_delete", "read_file"]) "u" 0
          (batchInterrupt ["file_delete", "read_file"] (.toolApproval "file_delete" .null))
          (.toolApproval "file_delete" .null) :=
  Agent.plain.approved_complete_iff _ _ _ _ _ _ _ _ onBatch_delete (by decide +kernel) (by decide +kernel)
    (by decide +kernel) ⟨rfl, rfl, rfl, rfl⟩

/-- A model that asks for a deletion, and for a reading with arguments of 126 levels. -/
def asksDeep : Env :=
  .steady fun _ req => if req.messages.length ≤ 1 then
      ⟨[.toolUse "file_delete" "file_delete" .null, .toolUse "read_file" "read_file" (.nest 126)], .zero⟩
    else .ofText "done"

/-- Two calls that complete in the other order leave their results in that order; the call beside a checkpoint is
never executed; a batch with a deep call is suspended and never resumed. -/
theorem approved_incomplete :
    (∃ env i kind, Agent.plain.SuspendedOn (onBatch ["file_delete", "read_file"]) 0 (.new 0 none .new) i kind none ∧
      (i.pendingCalls.map (·.id)).Nodup ∧
      (i.pendingCalls.filter fun c => HitlPolicy.new.intercepts none c.name).length = 1 ∧
      Accepts env (onBatch ["file_delete", "read_file"]) "u" 0 i.approvalId ∧
      ¬ Agent.plain.LosesNothing env (onBatch ["file_delete", "read_file"]) "u" 0 i kind none) ∧
    (∃ env i kind, Agent.plain.SuspendedOn (onBatch ["read_file", "request_checkpoint"]) 0 (.new 0 none .new) i kind none ∧
      (i.pendingCalls.map (·.id)).Nodup ∧
      (i.pendingCalls.filter fun c => HitlPolicy.new.intercepts none c.name).length = 1 ∧
      Accepts env (onBatch ["read_file", "request_checkpoint"]) "u" 0 i.approvalId ∧
      ¬ Agent.plain.LosesNothing env (onBatch ["read_file", "request_checkpoint"]) "u" 0 i kind none) ∧
    ∃ w env i kind, Agent.plain.SuspendedOn w 0 (.new 0 none .new) i kind none ∧
      (i.pendingCalls.map (·.id)).Nodup ∧
      (i.pendingCalls.filter fun c => HitlPolicy.new.intercepts none c.name).length = 1 ∧
      w.owns "u" 0 ∧ (∀ n, env.storeError n = none) ∧
      ((Agent.plain.resume "u" 0 i.approvalId .approved).run (handle env) ⟨w, []⟩).1 =
        .error .incompatiblePersistedInterrupt ∧
      ¬ Agent.plain.LosesNothing env w "u" 0 i kind none := by
  refine ⟨?_, ?_, ?_⟩
  · let reversed : Env :=
      { Env.asksFor [] with joinOrder := fun _ calls => ⟨calls.reverse, List.reverse_perm calls⟩ }
    have hresults : ((Agent.plain.approvedResults Agent.plain.tools.toolNames
        [⟨"file_delete", "file_delete", .null⟩, ⟨"read_file", "read_file", .null⟩]).run (handle reversed)
        ⟨cleared reversed 0 (onBatch ["file_delete", "read_file"]),
          clearing reversed 0 (onBatch ["file_delete", "read_file"])⟩).1 =
        .ok [⟨"read_file", "read_file", .ok .null⟩, ⟨"file_delete", "file_delete", .ok .null⟩] := by decide +kernel
    refine ⟨reversed, batchInterrupt _ _, _, onBatch_delete, by decide +kernel, by decide +kernel,
      (onBatch_delete.accepts_iff (by decide +kernel) ⟨rfl, rfl, rfl, rfl⟩).mpr (by decide +kernel),
      fun h => ?_⟩
    obtain ⟨results, c', hrun, -, horder⟩ := h.outcomes
    obtain rfl := Except.ok.inj ((congrArg Prod.fst hrun).symm.trans hresults)
    exact absurd horder (by decide +kernel)
  · have hbatch : Agent.plain.SuspendedOn (onBatch ["read_file", "request_checkpoint"]) 0 (.new 0 none .new)
        (batchInterrupt ["read_file", "request_checkpoint"] (.skillCheckpoint "unknown" .null))
        (.skillCheckpoint "unknown" .null) none :=
      ⟨⟨.asksFor ["read_file", "request_checkpoint"], Agent.plain.tools, 1, [.ofText .user ""],
        Agent.plain.tools.toolNames, beforeBatch, by decide +kernel⟩, rfl, by decide +kernel⟩
    refine ⟨.asksFor [], _, _, hbatch, by decide +kernel, by decide +kernel,
      (hbatch.accepts_iff (by decide +kernel) ⟨rfl, rfl, rfl, rfl⟩).mpr (by decide +kernel), fun h => ?_⟩
    have hnone : executed ((Agent.plain.resume "u" 0 1 .approved).run (handle (.asksFor []))
        ⟨onBatch ["read_file", "request_checkpoint"], []⟩).2.trace = [] := by decide +kernel
    have hperm := h.executed
    rw [show (batchInterrupt _ _).approvalId = 1 from rfl, hnone] at hperm
    exact absurd hperm.length_eq (by decide +kernel)
  · let w := (Agent.plain.serve asksDeep (.start (World.fresh ⟨[]⟩ 0)) [.createSession "u", .invoke "u" 0 ""]).state
    let i : HitlInterrupt := ⟨1, .ofValue (.toolApproval "file_delete" .null), [.ofText .user ""],
      [⟨"file_delete", "file_delete", .null⟩, ⟨"read_file", "read_file", .nest 126⟩], Agent.plain.tools.toolNames⟩
    have hbatch : Agent.plain.SuspendedOn w 0 (.new 0 none .new) i (.toolApproval "file_delete" .null) none :=
      ⟨⟨asksDeep, Agent.plain.tools, 1, [.ofText .user ""], Agent.plain.tools.toolNames, beforeBatch,
        by decide +kernel⟩, rfl, by decide +kernel⟩
    refine ⟨w, .asksFor [], i, _, hbatch, by decide +kernel, by decide +kernel, by decide +kernel, fun _ => rfl,
      by decide +kernel, fun h => ?_⟩
    have hreads : ReadsBack i (.toolApproval "file_delete" .null) :=
      (hbatch.accepts_iff (by decide +kernel) ⟨rfl, rfl, rfl, rfl⟩).mp ⟨h.resumable, rfl, rfl⟩
    exact absurd hreads (by decide +kernel)

end Agent

end AgentVerse
