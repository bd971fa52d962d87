import AgentVerse.Agent.Dialogue
import AgentVerse.React.Preamble

/-!
# The preamble across resumptions

A suspended run hands over a buffer that was prepared already, `resume` puts one more user message behind it, and the
resumed run prepares it again. So a buffer that is sent after a resumption never has the preamble just once
(`preamble_once_iff`).
-/

namespace AgentVerse

open Effects

namespace Agent

variable (agent : Agent) (policy : HitlPolicy) (sid : SessionId)

/-! ### The marked runs -/

/-- A run of `run_hitl` with the suspension that may follow, marked. -/
def markedRun (sk : CycleSkeleton) (names : List String) (ctx : HitlContext) (skillCtx : Option SkillContext)
    (messages : List Message) : BufferM AgentError AgentOutput := do
  match ← (ReActStrategy.markedRunHitl sk names ctx.hook messages).mapErr .llm with
  | .done text => return .done text
  | .interrupted interrupt => (handleToolInterrupt sid interrupt skillCtx).inl

/-- `resumeToolCallOrCheckpoint`, marked. -/
def markedResume (state : InterruptedState) (decision : ApprovalDecision) (history : List Message)
    (pending : List ToolCall) : BufferM AgentError AgentOutput := do
  let text ← (agent.observation state.activeToolNames decision pending).inl
  markedRun sid (agent.resumeSkeleton state.activeToolNames) state.activeToolNames
    (HitlContext.newForResume sid (state.skillContext.map (·.skillId)) policy) state.skillContext
    (history ++ [.ofText .user text])

variable {agent policy sid}

theorem strategyForResume_react (hkind : agent.kind = .react) (names : List String) :
    agent.strategyForResume names = ReActStrategy.strategy (agent.resumeSkeleton names) := by
  unfold strategyForResume resumeSkeleton
  cases agent.strategyRouter with
  | none => simp only [strategy, hkind, buildStrategy]
  | some router => rfl

/-- The marks are all that the marked resumption adds. -/
theorem unmark_markedResume (hkind : agent.kind = .react) (hhitl : agent.hitl = some policy)
    (state : InterruptedState) (decision : ApprovalDecision) (history : List Message) (pending : List ToolCall) :
    (agent.markedResume policy sid state decision history pending).unmark =
      agent.resumeToolCallOrCheckpoint sid state decision history pending := by
  unfold markedResume resumeToolCallOrCheckpoint
  rw [Prog.unmark_bind, Prog.unmark_inl]
  congr 1
  funext text
  unfold markedRun continueRun runStrategy
  rw [Prog.unmark_bind, Prog.unmark_mapErr, ReActStrategy.unmark_markedRunHitl, strategyForResume_react hkind, hhitl]
  congr 1
  funext outcome
  cases outcome with
  | done text => rfl
  | interrupted interrupt => exact Prog.unmark_inl _

/-! ### What a run persists -/

/-- A play persists a state of the session. -/
def Persists (sid : SessionId) (state : InterruptedState) (t : BufferPlay) : Prop :=
  ∃ r, ⟨.inl (.sql (.updateInterruptedState sid (some (.ofValue state)))), r⟩ ∈ t

/-- The state that is persisted for an interrupt. -/
theorem persists_handleToolInterrupt {i : HitlInterrupt} {skillCtx : Option SkillContext} {t : BufferPlay}
    {x : Except AgentError AgentOutput} {state : InterruptedState}
    (h : (handleToolInterrupt sid i skillCtx).inl.Plays t x) (hstate : Persists sid state t) :
    ∃ kind, state = interruptedState i kind skillCtx := by
  obtain ⟨r, hr⟩ := hstate
  have honly : (handleToolInterrupt sid i skillCtx).Only fun q => ∀ state,
      q = .sql (.updateInterruptedState sid (some (.ofValue state))) →
        ∃ kind, state = interruptedState i kind skillCtx := by
    unfold handleToolInterrupt
    split
    · trivial
    · rename_i kind _
      refine Prog.Only.bind (Prog.Only.bind (Prog.Only.mapErr ?_) fun _ => Prog.Only.mapErr ?_) fun _ => trivial
      · refine SessionMemory.setInterruptedState_only fun state h => ⟨kind, ?_⟩
        simpa [JsonText.ofValue] using h.symm
      · exact SessionMemory.updateStatus_only (fun _ h => by cases h) fun _ _ h => by cases h
  have hplay := (Prog.plays_inl h).2
  exact honly.plays hplay _ (mem_unmarked hr) state rfl

section Run

variable {tools : ToolRegistry} {n : Nat} {names : List String} {ctx : HitlContext} {skillCtx : Option SkillContext}
  {messages : List Message} {t : BufferPlay} {preamble : String}

theorem markedRunHitl_keeps {x : Except Core.AgentError StrategyOutcome}
    (h : (ReActStrategy.markedRunHitl (agent.skeleton tools n) names ctx.hook messages).Plays t x)
    (state : InterruptedState) : ¬ Persists sid state t := by
  rintro ⟨r, hr⟩
  have honly : (ReActStrategy.runHitl (agent.skeleton tools n) messages names ctx.hook).Only Request.OfStrategy := by
    refine Prog.Meets.mono (runHitl_meets (B := fun _ _ => True) (W := fun _ => False) (fun t d hd => ?_) ctx
      (fun _ _ _ _ _ _ _ hw => hw) messages names) (fun _ _ hB => hB) (fun _ hq => hq.1) fun _ _ => trivial
    exact SubAgentExecutor.runTool_meets (fun q r _ => callsAvoid_false 1 q r) agent.executor t d hd
  rw [← ReActStrategy.unmark_markedRunHitl] at honly
  exact honly.marked h hr

/-- A run of which a state was persisted sent the preamble with it. -/
theorem mem_persisted (hext : agent.ext.reactPreamble = some preamble) (hblank : isBlank preamble = false)
    {x : Except AgentError AgentOutput}
    (h : (markedRun sid (agent.skeleton tools n) names ctx skillCtx messages).Plays t x) {state : InterruptedState}
    (hstate : Persists sid state t) {history : List Message} {pending : List ToolCall}
    (hpayload : state.payload = .ok (some (history, pending))) : .ofText .user preamble ∈ history := by
  unfold markedRun at h
  rcases Prog.plays_bind.mp h with ⟨e, herr, rfl⟩ | ⟨outcome, t₁, t₂, rfl, h₁, h₂⟩
  · obtain ⟨y, hy, -⟩ := Prog.plays_mapErr.mp herr
    exact absurd hstate (markedRunHitl_keeps hy state)
  · obtain ⟨y, hy, hok⟩ := Prog.plays_mapErr.mp h₁
    obtain ⟨r, hr⟩ := hstate
    rcases List.mem_append.mp hr with hr | hr
    · exact absurd ⟨r, hr⟩ (markedRunHitl_keeps hy state)
    · cases outcome with
      | done text =>
        obtain ⟨rfl, -⟩ := h₂
        cases hr
      | interrupted i =>
        obtain ⟨kind, rfl⟩ := persists_handleToolInterrupt h₂ ⟨r, hr⟩
        cases (payload_eq_ok hpayload).2
        cases y with
        | error e => cases hok
        | ok y =>
          cases hok
          exact mem_handed hext hblank hy

/-- The buffers of a run are those of `run_hitl`. -/
theorem plays_markedRun {x : Except AgentError AgentOutput}
    (h : (markedRun sid (agent.skeleton tools n) names ctx skillCtx messages).Plays t x) :
    ∃ t' y, (ReActStrategy.markedRunHitl (agent.skeleton tools n) names ctx.hook messages).Plays t' y ∧
      marksOf t = marksOf t' := by
  unfold markedRun at h
  rcases Prog.plays_bind.mp h with ⟨e, herr, rfl⟩ | ⟨outcome, t₁, t₂, rfl, h₁, h₂⟩
  · obtain ⟨y, hy, -⟩ := Prog.plays_mapErr.mp herr
    exact ⟨t, y, hy, rfl⟩
  · obtain ⟨y, hy, -⟩ := Prog.plays_mapErr.mp h₁
    refine ⟨t₁, y, hy, ?_⟩
    cases outcome with
    | done text =>
      obtain ⟨rfl, -⟩ := h₂
      simp
    | interrupted i => rw [marksOf_append, (Prog.plays_inl h₂).1, List.append_nil]

end Run

/-! ### Resumptions -/

/-- The resumptions that follow a first run, the latest in front. Each takes up a state that one of the runs before it
persisted. -/
inductive Resumptions (agent : Agent) (policy : HitlPolicy) (sid : SessionId) (first : BufferPlay) :
    List BufferPlay → Prop
  | none : Resumptions agent policy sid first []
  | more {later : List BufferPlay} {t t' : BufferPlay} {state : InterruptedState} {decision : ApprovalDecision}
      {history : List Message} {pending : List ToolCall} {x : Except AgentError AgentOutput}
      (hlater : Resumptions agent policy sid first later) (ht : t ∈ first :: later) (hstate : Persists sid state t)
      (hpayload : state.payload = .ok (some (history, pending)))
      (hplay : (agent.markedResume policy sid state decision history pending).Plays t' x) :
      Resumptions agent policy sid first (t' :: later)

section Primed

variable {preamble : String} (hext : agent.ext.reactPreamble = some preamble) (hblank : isBlank preamble = false)

include hext hblank

/-- A resumption of a history with the preamble persists histories with the preamble only. -/
theorem markedResume_persists {state : InterruptedState} {decision : ApprovalDecision} {history : List Message}
    {pending : List ToolCall} {t : BufferPlay} {x : Except AgentError AgentOutput}
    (h : (agent.markedResume policy sid state decision history pending).Plays t x) {state' : InterruptedState}
    (hstate : Persists sid state' t) {history' : List Message} {pending' : List ToolCall}
    (hpayload : state'.payload = .ok (some (history', pending'))) : .ofText .user preamble ∈ history' := by
  have hobservation : ∀ {t : BufferPlay} {y : Except AgentError String},
      (agent.observation state.activeToolNames decision pending).inl.Plays t y → ¬ Persists sid state' t := by
    rintro t y hplay ⟨r, hr⟩
    exact (agent.observation_only ..).plays (Prog.plays_inl hplay).2 _ (mem_unmarked hr)
  obtain ⟨tools, n, hsk⟩ := agent.resumeSkeleton_eq state.activeToolNames
  unfold markedResume at h
  rcases Prog.plays_bind.mp h with ⟨e, herr, rfl⟩ | ⟨text, t₁, t₂, rfl, h₁, h₂⟩
  · exact absurd hstate (hobservation herr)
  · obtain ⟨r, hr⟩ := hstate
    rcases List.mem_append.mp hr with hr | hr
    · exact absurd ⟨r, hr⟩ (hobservation h₁)
    · rw [hsk] at h₂
      exact mem_persisted hext hblank h₂ ⟨r, hr⟩ hpayload

/-- A resumption of a history with the preamble has it once in every buffer only if it sends none. -/
theorem markedResume_sends {state : InterruptedState} {decision : ApprovalDecision} {history : List Message} {pending : List ToolCall}
    {t : BufferPlay} {x : Except AgentError AgentOutput} (hprimed : .ofText .user preamble ∈ history)
    (h : (agent.markedResume policy sid state decision history pending).Plays t x)
    (honce : ∀ buf ∈ marksOf t, StandsOnce (.ofText .user preamble) buf) : marksOf t = [] := by
  obtain ⟨tools, n, hsk⟩ := agent.resumeSkeleton_eq state.activeToolNames
  unfold markedResume at h
  rcases Prog.plays_bind.mp h with ⟨e, herr, rfl⟩ | ⟨text, t₁, t₂, rfl, h₁, h₂⟩
  · exact (Prog.plays_inl herr).1
  · rw [hsk] at h₂
    obtain ⟨t', y, hplay, hmarks⟩ := plays_markedRun h₂
    rw [marksOf_append, (Prog.plays_inl h₁).1, List.nil_append, hmarks] at honce ⊢
    by_contra hsome
    -- The context of a resumption requires no tool, so nothing is reminded of.
    have hunprimed := (markedRunHitl_standsOnce_iff hext hblank (fun h => absurd rfl h) hplay).mp honce hsome
    exact hunprimed.absent (List.mem_append_left _ hprimed)

/-- Every state that a first run and its resumptions persist has the preamble in its history. -/
theorem Resumptions.primed {first : BufferPlay} {later : List BufferPlay}
    (h : Resumptions agent policy sid first later)
    (hfirst : ∀ state history pending, Persists sid state first → state.payload = .ok (some (history, pending)) →
      .ofText .user preamble ∈ history) {t : BufferPlay} (ht : t ∈ first :: later) {state : InterruptedState}
    (hstate : Persists sid state t) {history : List Message} {pending : List ToolCall}
    (hpayload : state.payload = .ok (some (history, pending))) : .ofText .user preamble ∈ history := by
  induction h generalizing t state history pending with
  | none =>
    rw [List.mem_singleton.mp ht] at hstate
    exact hfirst _ _ _ hstate hpayload
  | more hlater ht' hstate' hpayload' hplay ih =>
    rcases List.mem_cons.mp ht with rfl | ht
    · exact hfirst _ _ _ hstate hpayload
    rcases List.mem_cons.mp ht with rfl | ht
    · exact markedResume_persists hext hblank hplay hstate hpayload
    · exact ih (List.mem_cons_of_mem _ ht) hstate hpayload

end Primed

end Agent

/-- Every buffer that a run of `run_hitl` and its resumptions send has the preamble once, behind the leading System
messages and before all others, exactly if the first history is unprimed and no resumption sends anything. The preamble
is not the reminder of the tools that the first run requires, if it requires any. -/
theorem preamble_once_iff (agent : Agent) (policy : HitlPolicy) (sid : SessionId) :
    (∀ sk messages names hook,
      (ReActStrategy.markedRunHitl sk names hook messages).unmark = ReActStrategy.runHitl sk messages names hook) ∧
    (∀ state decision history pending, agent.kind = .react → agent.hitl = some policy →
      (agent.markedResume policy sid state decision history pending).unmark =
        agent.resumeToolCallOrCheckpoint sid state decision history pending) ∧
    ∀ preamble, agent.ext.reactPreamble = some preamble → isBlank preamble = false →
      ∀ tools n names ctx skillCtx messages first x later,
        (ctx.requiredToolNames ≠ [] → preamble ≠ ReActStrategy.requiredToolReminder ctx.requiredToolNames) →
        (Agent.markedRun sid (agent.skeleton tools n) names ctx skillCtx messages).Plays first x →
        Agent.Resumptions agent policy sid first later →
        ((∀ t ∈ first :: later, ∀ buf ∈ marksOf t, StandsOnce (.ofText .user preamble) buf) ↔
          (marksOf first ≠ [] → Unprimed (.ofText .user preamble) messages) ∧ ∀ t ∈ later, marksOf t = []) := by
  refine ⟨fun sk messages names hook => ReActStrategy.unmark_markedRunHitl sk names hook messages,
    fun state decision history pending hkind hhitl =>
      Agent.unmark_markedResume hkind hhitl state decision history pending, ?_⟩
  intro preamble hext hblank tools n names ctx skillCtx messages first x later hreminder hplay hlater
  obtain ⟨t', y, hrun, hmarks⟩ := Agent.plays_markedRun hplay
  have hfirst := markedRunHitl_standsOnce_iff hext hblank hreminder hrun
  rw [← hmarks] at hfirst
  constructor
  · intro honce
    refine ⟨hfirst.mp (honce first List.mem_cons_self), ?_⟩
    have hprimed := @Agent.Resumptions.primed agent policy sid preamble hext hblank
    clear hfirst
    induction hlater with
    | none => exact fun t ht => by cases ht
    | more hlater ht hstate hpayload hresume ih =>
      have hmem := hprimed hlater (fun _ _ _ hs hp => Agent.mem_persisted hext hblank hplay hs hp) ht hstate hpayload
      intro t ht'
      rcases List.mem_cons.mp ht' with rfl | ht'
      · exact Agent.markedResume_sends hext hblank hmem hresume (honce t (by simp))
      · refine ih (fun u hu => honce u ?_) t ht'
        rcases List.mem_cons.mp hu with rfl | hu
        · exact List.mem_cons_self
        · exact List.mem_cons_of_mem _ (List.mem_cons_of_mem _ hu)
  · rintro ⟨hunprimed, hnone⟩ t ht
    rcases List.mem_cons.mp ht with rfl | ht
    · exact hfirst.mpr hunprimed
    · rw [hnone t ht]
      simp

/-! ### Runs with a preamble -/

/-- The plain agent with a preamble. -/
def Agent.primed : Agent := { Agent.plain with ext := { Externals.plain with reactPreamble := some "Think first." } }

/-- An answer at once: the one buffer that is sent has the preamble. -/
theorem preamble_once_answered : ∃ first : BufferPlay,
    (Agent.markedRun 0 (Agent.primed.skeleton .plain 1) [] (.new 0 none .new) none [.ofText .user "go"]).Plays first
      (.ok (.done "done")) ∧
    marksOf first ≠ [] ∧ ∀ buf ∈ marksOf first, StandsOnce (.ofText .user "Think first.") buf := by
  have hplay : ∃ t : BufferPlay, (Agent.markedRun 0 (Agent.primed.skeleton .plain 1) [] (.new 0 none .new) none
      [.ofText .user "go"]).Plays t (.ok (.done "done")) ∧ marksOf t ≠ [] :=
    ⟨_, ⟨(), _, rfl, .ok (.ofText "done"), _, rfl, rfl, rfl⟩, by simp⟩
  obtain ⟨first, hfirst, hsome⟩ := hplay
  refine ⟨first, hfirst, hsome, ?_⟩
  have hunprimed : Unprimed (.ofText .user "Think first.") [.ofText .user "go"] :=
    ⟨by decide, .inr ⟨_, List.mem_cons_self, by decide⟩⟩
  exact ((preamble_once_iff Agent.primed .new 0).2.2 "Think first." rfl (by decide +kernel) _ _ _ _ _ _
    first _ [] (fun h => absurd rfl h) hfirst .none).mpr ⟨fun _ => hunprimed, by simp⟩ first List.mem_cons_self

/-- A model that asks for a tool on the blocklist first. -/
def Env.asksOnce : Env :=
  .steady fun _ req => if req.messages.length ≤ 2 then .ofCalls ["file_delete"] else .ofText "done"

/-- How often the preamble is among the messages that a model call is made with. -/
def preamblesSent : Event → Option Nat
  | ⟨.generate _ req, _⟩ => some (req.messages.filter fun m => m = .ofText .user "Think first.").length
  | _ => none

/-- The resumed run sends the preamble twice, and a history of System messages only gets it in front of them. -/
theorem preamble_twice :
    (let calls : Bool → ApiCall := fun resumes => if resumes then .resume "u" 0 1 .approved else .invoke "u" 0 "go"
      let P := (Agent.primed.pool calls .withSession).run (handle .asksOnce)
        (List.replicate 20 false ++ List.replicate 20 true)
      (P.view.trace.filterMap fun x => preamblesSent x.2) = [1, 2]) ∧
    prepareBuffer Agent.primed.ext [.ofText .system "Be brief."] =
        [.ofText .user "Think first.", .ofText .system "Be brief."] ∧
      ¬ StandsOnce (.ofText .user "Think first.") (prepareBuffer Agent.primed.ext [.ofText .system "Be brief."]) := by
  refine ⟨by decide +kernel, by decide +kernel, fun h => ?_⟩
  rw [standsOnce_prepareBuffer rfl (by decide +kernel)] at h
  rcases h.turned with hnil | ⟨m, hm, hrole⟩
  · cases hnil
  · rw [List.mem_singleton.mp hm] at hrole
    exact hrole rfl

end AgentVerse
