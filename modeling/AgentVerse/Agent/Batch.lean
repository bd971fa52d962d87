import AgentVerse.Agent.Calls
import AgentVerse.Agent.Decision

/-!
# Suspended batches

The hook stops a batch at its first intercepted call, which a human is shown (`SuspendedOn.stoppedAt`); what is
persisted, and what a resume finds (`SuspendedOn.resolved`), is the whole batch, or nothing of it for a checkpoint.
-/

namespace AgentVerse

open Effects

variable {env : Env} {w : World} {sid : SessionId} {ctx : HitlContext} {i : HitlInterrupt} {kind : InterruptKind}
  {skillCtx : Option SkillContext}

/-! ### Suspended batches -/

/-- The call at which the hook stops a batch. -/
def shownCall (ctx : HitlContext) (calls : List ToolCall) : Option ToolCall :=
  calls.find? fun c => ctx.policy.intercepts ctx.skillId c.name

theorem StoppedAt.shownCall {calls pre post : List ToolCall} {call : ToolCall}
    (h : StoppedAt ctx calls kind pre call post) : shownCall ctx calls = some call := by
  rw [AgentVerse.shownCall, h.split, List.find?_append, List.find?_eq_none.mpr fun c hc => by simp [h.before c hc],
    Option.none_or, List.find?_cons, h.intercepted]

/-- The database serves the reads and the writes that come before a decision takes effect. -/
structure ServesResume (env : Env) (w : World) : Prop where
  reads_owner : env.storeError w.steps = none
  reads_state : env.storeError (w.steps + 1) = none
  clears_state : env.storeError (w.steps + 2) = none
  sets_status : env.storeError (w.steps + 4) = none

namespace Agent

variable (agent : Agent)

/-- A session is suspended on the interrupt `i` of a ReAct run behind the hook of `ctx`. -/
structure SuspendedOn (w : World) (sid : SessionId) (ctx : HitlContext) (i : HitlInterrupt) (kind : InterruptKind)
    (skillCtx : Option SkillContext) : Prop where
  stopped : ∃ env tools n messages names c,
    ((ReActStrategy.runHitl (agent.skeleton tools n) messages names ctx.hook).run (handle env) c).1 =
      .ok (.interrupted i)
  kind_eq : i.kindJson = .ofValue kind
  pending : w.life sid = some ⟨.interrupted, some (.ofValue (interruptedState i kind skillCtx))⟩

variable {agent}

theorem SuspendedOn.stoppedAt (h : agent.SuspendedOn w sid ctx i kind skillCtx) :
    ∃ pre call post, StoppedAt ctx i.pendingCalls kind pre call post := by
  obtain ⟨env, tools, n, messages, names, c, hrun⟩ := h.stopped
  have hmeets : ∀ B, (ReActStrategy.runHitl (agent.skeleton tools n) messages names ctx.hook).Meets B _ _ :=
    fun B => runHitl_meets (B := B) (W := fun _ => False) (fun t d hd => SubAgentExecutor.runTool_meets
      (fun q r _ => callsAvoid_false 1 q r) agent.executor t d hd) ctx (fun _ _ _ _ _ _ _ => id) messages names
  obtain ⟨kind', pre, call, post, -, -, hs, -, -⟩ := Prog.Meets.result (handle env) (c := c) (hmeets _) i hrun
  have hkind : kind' = kind := by simpa [JsonText.ofValue] using hs.kind_eq.symm.trans h.kind_eq
  exact ⟨pre, call, post, hkind ▸ hs.stopped⟩

/-- What a resume of the interrupt finds. -/
theorem SuspendedOn.resolved (h : agent.SuspendedOn w sid ctx i kind skillCtx) {userId : String}
    (hacc : Accepts env w userId sid i.approvalId) :
    Resumable env w userId sid i.approvalId
      ⟨interruptedState i kind skillCtx, some (i.history, persistedCalls i kind)⟩ := by
  obtain ⟨⟨⟨state, payload⟩, hres⟩, -⟩ := hacc
  obtain ⟨l, hl, hp⟩ := hres.pending
  obtain rfl := Option.some.inj (h.pending.symm.trans hl)
  obtain rfl : interruptedState i kind skillCtx = state := by simpa [JsonText.ofValue] using hp
  exact (payload_eq_ok hres.payload).2 ▸ hres

/-- The owner's resume of a suspended batch is let act exactly if what is persisted is read back, as long as the
database serves it. -/
theorem SuspendedOn.accepts_iff {userId : String} (h : agent.SuspendedOn w sid ctx i kind skillCtx)
    (howns : w.owns userId sid) (hserved : ServesResume env w) :
    Accepts env w userId sid i.approvalId ↔ ReadsBack i kind := by
  constructor
  · exact fun hacc => (payload_eq_ok (h.resolved hacc).payload).1
  · intro hreads
    have hpay := payload_interruptedState i kind skillCtx
    rw [if_pos hreads] at hpay
    exact ⟨⟨⟨interruptedState i kind skillCtx, some (i.history, persistedCalls i kind)⟩, hserved.reads_owner,
      hserved.reads_state, howns, ⟨_, h.pending, rfl⟩, approvalId_interruptedState i kind skillCtx, hpay⟩,
      hserved.clears_state, hserved.sets_status⟩

/-! ### A suspended session -/

/-- A session of the plain agent that is suspended on a batch of calls. -/
def onBatch (names : List String) : World :=
  (Agent.plain.serve (.asksFor names) (.start (World.fresh ⟨[]⟩ 0)) [.createSession "u", .invoke "u" 0 ""]).state

/-- The interrupt of this session. -/
def batchInterrupt (names : List String) (kind : InterruptKind) : HitlInterrupt :=
  ⟨1, .ofValue kind, [.ofText .user ""], (GenerateResponse.ofCalls names).calls, Agent.plain.tools.toolNames⟩

/-- The world of a run that leaves this interrupt. -/
def beforeBatch : Config Reply World := ⟨{ World.fresh ⟨[]⟩ 0 with nextUuid := 1 }, []⟩

theorem onBatch_delete : Agent.plain.SuspendedOn (onBatch ["file_delete", "read_file"]) 0 (.new 0 none .new)
    (batchInterrupt ["file_delete", "read_file"] (.toolApproval "file_delete" .null))
    (.toolApproval "file_delete" .null) none where
  stopped := ⟨.asksFor ["file_delete", "read_file"], Agent.plain.tools, 1, [.ofText .user ""],
    Agent.plain.tools.toolNames, beforeBatch, by decide +kernel⟩
  kind_eq := rfl
  pending := by decide +kernel

end Agent

end AgentVerse
