import AgentVerse.Agent.Batch

/-!
# Modified decisions

A human who modifies a call gives new arguments for the call that was shown. The decision is applied to the first
call of the batch, which is the shown one only if no call stands before it (`modified_shown_iff`).
-/

namespace AgentVerse

open Effects

variable {env : Env} {w : World} {sid : SessionId} {ctx : HitlContext} {i : HitlInterrupt}
  {skillCtx : Option SkillContext}

namespace Agent

variable (agent : Agent)

/-- A modified decision executes the call that was shown, under its own id and name, and no other. -/
structure ModifiesShown (env : Env) (w : World) (userId : String) (sid : SessionId) (ctx : HitlContext)
    (i : HitlInterrupt) (kind : InterruptKind) (newArgs : Json) : Prop where
  shown : ∃ call, shownCall ctx i.pendingCalls = some call ∧ kind = .toolApproval call.name call.args
  only : ∀ call, shownCall ctx i.pendingCalls = some call →
    ∀ d ∈ executed ((agent.resume userId sid i.approvalId (.modified newArgs)).run (handle env) ⟨w, []⟩).2.trace,
      d = { call with args := newArgs }.task 0
  reached : Accepts env w userId sid i.approvalId → ∀ call, shownCall ctx i.pendingCalls = some call →
    (agent.executionTools i.activeToolNames).hasTool call.name = true →
      { call with args := newArgs }.task 0 ∈
        executed ((agent.resume userId sid i.approvalId (.modified newArgs)).run (handle env) ⟨w, []⟩).2.trace

/-- The call that is shown is the first one of the batch, or the tools of both are not registered. -/
def ShownFirst (ctx : HitlContext) (i : HitlInterrupt) : Prop :=
  ∀ first call, i.pendingCalls.head? = some first → shownCall ctx i.pendingCalls = some call →
    first = call ∨ (agent.executionTools i.activeToolNames).hasTool first.name = false ∧
      (agent.executionTools i.activeToolNames).hasTool call.name = false

/-- What a modified decision that is let act executes: the first call, if its tool is registered. -/
theorem modified_executed (newArgs : Json) {userId name : String} {args : Json} {first : ToolCall} {rest : List ToolCall}
    (h : agent.SuspendedOn w sid ctx i (.toolApproval name args) skillCtx)
    (hacc : Accepts env w userId sid i.approvalId) (hfirst : i.pendingCalls = first :: rest) :
    executed ((agent.resume userId sid i.approvalId (.modified newArgs)).run (handle env) ⟨w, []⟩).2.trace =
      ((agent.executionTools i.activeToolNames).registered [{ first with args := newArgs }]).map (·.task 0) := by
  have hres := h.resolved hacc
  obtain ⟨results, w', t, panicked, hrun, htr⟩ := executeMany_one agent.executor env
    (agent.executionTools i.activeToolNames) { first with args := newArgs } (cleared env sid w)
  have hobs : (agent.observation (interruptedState i (.toolApproval name args) skillCtx).activeToolNames
      (.modified newArgs) (persistedCalls i (.toolApproval name args))).run (handle env) ⟨cleared env sid w, []⟩ =
        (.ok (agent.renderResults results), ⟨w', t⟩) := by
    rw [show persistedCalls i (.toolApproval name args) = first :: rest from hfirst]
    exact Prog.run_bind_ok _ ((Prog.run_mapErr_eq_ok _).mpr hrun) _
  exact (agent.resume_stretch hacc hres hobs htr).2.tasks

/-- A modified decision is applied to the call that was shown exactly when this call is the first of its batch. -/
theorem modified_shown_iff (env : Env) (w : World) (userId name : String) (sid : SessionId) (ctx : HitlContext)
    (i : HitlInterrupt) (args newArgs : Json) (skillCtx : Option SkillContext)
    (h : agent.SuspendedOn w sid ctx i (.toolApproval name args) skillCtx) :
    agent.ModifiesShown env w userId sid ctx i (.toolApproval name args) newArgs ↔
      (Accepts env w userId sid i.approvalId → agent.ShownFirst ctx i) := by
  obtain ⟨pre, call, post, hs⟩ := h.stoppedAt
  obtain ⟨rfl, rfl, -⟩ := ctx.interruptKind_toolApproval hs.shown
  have hcall := hs.shownCall
  by_cases hacc : Accepts env w userId sid i.approvalId
  · obtain ⟨first, rest, hfirst⟩ : ∃ first rest, i.pendingCalls = first :: rest := by
      rw [hs.split]
      cases pre <;> exact ⟨_, _, rfl⟩
    have hexec := agent.modified_executed newArgs h hacc hfirst
    simp only [ToolRegistry.registered, List.filter_singleton] at hexec
    constructor
    · intro hP _ first' call' hf hc
      obtain rfl : first = first' := by simpa [hfirst] using hf
      obtain rfl := Option.some.inj (hcall.symm.trans hc)
      cases hreg : (agent.executionTools i.activeToolNames).hasTool first.name with
      | true =>
        -- The first call is executed, so it has the name of the shown one, which no call before it has.
        have hd := hP.only call hcall ({ first with args := newArgs }.task 0) (by simp [hexec, hreg])
        have hname : first.name = call.name := congrArg Dispatch.tool hd
        left
        cases pre with
        | nil => exact (List.cons.inj (hfirst.symm.trans hs.split)).1
        | cons c cs =>
          obtain rfl : first = c := (List.cons.inj (hfirst.symm.trans hs.split)).1
          have := hs.before first (by simp)
          rw [hname, hs.intercepted] at this
          cases this
      | false =>
        right
        refine ⟨rfl, ?_⟩
        cases hcreg : (agent.executionTools i.activeToolNames).hasTool call.name with
        | false => rfl
        | true =>
          have := hP.reached hacc call hcall hcreg
          simp [hexec, hreg] at this
    · intro hfirst'
      refine ⟨⟨call, hcall, rfl⟩, fun call' hc d hd => ?_, fun _ call' hc hreg => ?_⟩
      all_goals
        obtain rfl := Option.some.inj (hcall.symm.trans hc)
        rw [hexec] at *
        rcases hfirst' hacc first call (by simp [hfirst]) hcall with rfl | ⟨hfreg, hcreg⟩
      · by_cases hreg : (agent.executionTools i.activeToolNames).hasTool first.name = true
        · simpa [hreg] using hd
        · simp [hreg] at hd
      · simp [hfreg] at hd
      · simp [hreg]
      · rw [hcreg] at hreg
        cases hreg
  · obtain ⟨-, hidle⟩ := agent.resume_not_accepted (.modified newArgs) hacc
    have hnone := executed_eq_nil_of_idle hidle
    exact ⟨fun _ ha => absurd ha hacc, fun _ => ⟨⟨call, hcall, rfl⟩, fun _ _ d hd => by simp [hnone] at hd,
      fun ha => absurd ha hacc⟩⟩

theorem modified_shown_delete :
    Agent.plain.ModifiesShown (.asksFor []) (onBatch ["file_delete", "read_file"]) "u" 0 (.new 0 none .new)
        (batchInterrupt ["file_delete", "read_file"] (.toolApproval "file_delete" .null))
        (.toolApproval "file_delete" .null) (.bool true) ↔
      (Accepts (.asksFor []) (onBatch ["file_delete", "read_file"]) "u" 0 1 →
        Agent.plain.ShownFirst (.new 0 none .new)
          (batchInterrupt ["file_delete", "read_file"] (.toolApproval "file_delete" .null))) :=
  Agent.plain.modified_shown_iff _ _ _ _ _ _ _ _ _ _ onBatch_delete

/-- The human is shown the deletion, and the new arguments go to the reading. -/
theorem modified_other : ∃ i args, Agent.plain.SuspendedOn (onBatch ["read_file", "file_delete"]) 0 (.new 0 none .new) i
      (.toolApproval "file_delete" args) none ∧
    executed ((Agent.plain.resume "u" 0 i.approvalId (.modified (.bool true))).run (handle (.asksFor []))
      ⟨onBatch ["read_file", "file_delete"], []⟩).2.trace = [⟨0, some "read_file", "read_file", .bool true⟩] ∧
    ¬ Agent.plain.ModifiesShown (.asksFor []) (onBatch ["read_file", "file_delete"]) "u" 0 (.new 0 none .new) i
      (.toolApproval "file_delete" args) (.bool true) := by
  have hexec : executed ((Agent.plain.resume "u" 0 1 (.modified (.bool true))).run (handle (.asksFor []))
      ⟨onBatch ["read_file", "file_delete"], []⟩).2.trace = [⟨0, some "read_file", "read_file", .bool true⟩] := by
    decide +kernel
  refine ⟨batchInterrupt ["read_file", "file_delete"] (.toolApproval "file_delete" .null), .null, ⟨⟨.asksFor
    ["read_file", "file_delete"], Agent.plain.tools, 1, [.ofText .user ""], Agent.plain.tools.toolNames, beforeBatch,
    by decide +kernel⟩, rfl, by decide +kernel⟩, hexec, fun h => ?_⟩
  have := h.only ⟨"file_delete", "file_delete", .null⟩ (by decide +kernel) ⟨0, some "read_file", "read_file", .bool true⟩
    (by rw [show (batchInterrupt _ _).approvalId = 1 from rfl, hexec]; simp)
  exact absurd (congrArg Dispatch.tool this) (by decide)

end Agent

end AgentVerse
