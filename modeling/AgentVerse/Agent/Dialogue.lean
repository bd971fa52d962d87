import AgentVerse.Agent.Buffers
import AgentVerse.Agent.Turn
import AgentVerse.Agent.Calls
import AgentVerse.Effects.Pool
import AgentVerse.Session.Ledger

/-!
# Dialogues

The messages that sessions and the cache hold are plain, and the histories of suspended sessions are conversations;
every call of an agent keeps it so (`World.Converses`). Hence every model call, across all suspensions and resumptions
and in every interleaving of calls, is made with a conversation (`buffers_wellFormed`).
-/

namespace AgentVerse

open Effects

/-! ### What a world holds -/

/-- What a suspended session is resumed from is a conversation. -/
def HandsBack (x : Option (JsonText InterruptedState)) : Prop :=
  ∀ json state history pending, x = some json → json.fromStr = .ok state →
    state.payload = .ok (some (history, pending)) → Conversation history

/-- Messages of sessions and of the cache are plain, and suspended sessions have conversations. -/
structure World.Converses (w : World) : Prop where
  stored : ∀ row ∈ w.store.messages, row.message.Plain
  cached : ∀ e ∈ w.cache, ∀ m ∈ e.2.messages, m.Plain
  suspended : ∀ row ∈ w.store.sessions, HandsBack row.interruptedState

/-- The model replies with texts and tool calls. -/
def Env.Speaks (env : Env) : Prop := ∀ n depth req resp, env.generate n depth req = .ok resp → resp.Spoken

/-- A request that brings nothing else into the world. -/
def Request.Orderly : Request → Prop
  | .cacheStore _ _ ms => ∀ m ∈ ms, m.Plain
  | .cacheAppendTurn _ _ m m' => m.Plain ∧ m'.Plain
  | .sql (.appendMessages _ ms _) => ∀ m ∈ ms, m.Plain
  | .sql (.insertSession row) => HandsBack row.interruptedState
  | .sql (.updateInterruptedState _ x) => HandsBack x
  | q => q.Converses

/-- What comes back is of the same kind. -/
def Heard : (q : Request) → Reply q → Prop
  | .generate .., r => ∀ resp, r = .ok resp → resp.Spoken
  | .cacheLoad .., r => ∀ ms, r = some ms → ∀ m ∈ ms, m.Plain
  | .sql (.selectMessages _), r => ∀ ms, r = .ok ms → ∀ m ∈ ms, m.Plain
  | .sql (.selectInterruptedState _), r => ∀ x, r = .ok (some x) → HandsBack x
  | _, _ => True

theorem resumable_none : HandsBack none := fun _ _ _ _ h => by cases h

theorem Request.Reads.orderly {q : Request} (hq : q.Reads) : q.Orderly := by
  cases q with
  | sql st => cases st <;> first | exact hq.elim | trivial
  | _ => first | exact hq.elim | trivial

theorem Request.OfDialogue.orderly {q : Request} (hq : q.OfDialogue) : q.Orderly := by
  cases q with
  | sql st => exact hq.1.elim
  | generate depth req => exact hq.2
  | _ => first | exact hq.1.elim | trivial

theorem Request.OfTransition.orderly {sid : SessionId} {q : Request} (hq : q.OfTransition sid) : q.Orderly := by
  rcases hq with hq | ⟨ctx, phaseCtx, rfl⟩
  · exact hq.orderly
  · trivial

/-! ### Requests keep it -/

section Requests

variable {env : Env} {w : World} {q : Request}

theorem update?_resumable {st : Statement} {sid : SessionId} {f : SessionRow → SessionRow}
    (hu : st.update? = some (sid, f)) (hq : (Request.sql st).Orderly) {row : SessionRow}
    (hrow : HandsBack row.interruptedState) : HandsBack (f row).interruptedState := by
  cases st <;> simp only [Statement.update?, Option.some.injEq, Prod.mk.injEq, reduceCtorEq] at hu <;>
    (obtain ⟨-, rfl⟩ := hu; first | exact hrow | exact hq)

/-- The tables after a statement. -/
theorem exec_converses {st : Statement} {s : Store} (hq : (Request.sql st).Orderly)
    (hstored : ∀ row ∈ s.messages, row.message.Plain) (hsuspended : ∀ row ∈ s.sessions, HandsBack row.interruptedState) :
    (∀ row ∈ (st.exec s).2.messages, row.message.Plain) ∧
      ∀ row ∈ (st.exec s).2.sessions, HandsBack row.interruptedState := by
  cases hu : st.update? with
  | some u =>
    obtain ⟨sid, f⟩ := u
    rw [Statement.exec_update hu]
    refine ⟨hstored, fun row hrow => ?_⟩
    obtain ⟨row', hrow', rfl⟩ := List.mem_map.mp hrow
    split
    · exact update?_resumable hu hq (hsuspended row' hrow')
    · exact hsuspended row' hrow'
  | none =>
    cases st with
    | insertSession row =>
      simp only [Statement.exec, Store.insertSession]
      split
      · exact ⟨hstored, hsuspended⟩
      · refine ⟨hstored, fun row' hrow' => ?_⟩
        rcases List.mem_append.mp hrow' with hrow' | hrow'
        · exact hsuspended row' hrow'
        · rw [List.mem_singleton.mp hrow']
          exact hq
    | appendMessages sid ms now =>
      rw [Statement.exec, Store.sessions_appendMessages]
      refine ⟨?_, hsuspended⟩
      unfold Store.appendMessages
      split
      · exact hstored
      · obtain ⟨new, hnew, -, -, -, htext⟩ := s.insertFrom_messages sid (s.maxSequence sid + 1) now ms
        simp only [hnew]
        intro row hrow
        rcases List.mem_append.mp hrow with hrow | hrow
        · exact hstored row hrow
        · exact hq _ (htext ▸ List.mem_map_of_mem hrow)
    | deleteExpired sid cutoff wm => exact ⟨fun row hrow => hstored row (List.mem_of_mem_filter hrow), hsuspended⟩
    | deleteEndedSessions cutoff =>
      exact ⟨fun row hrow => hstored row (List.mem_of_mem_filter hrow),
        fun row hrow => hsuspended row (List.mem_of_mem_filter hrow)⟩
    | deleteSession sid =>
      exact ⟨fun row hrow => hstored row (List.mem_of_mem_filter hrow),
        fun row hrow => hsuspended row (List.mem_of_mem_filter hrow)⟩
    | selectWatermark sid =>
      simp only [Statement.exec]
      split <;> exact ⟨hstored, hsuspended⟩
    | updateStatus | updateWatermark | updateSkillContext | updatePhaseOpening | updatePhaseTransition
    | updateInterruptedState => simp [Statement.update?] at hu
    | _ => exact ⟨hstored, hsuspended⟩

/-- The cache with an entry of plain messages. -/
theorem cachePut_plain {key : String × SessionId} {ms : List Message}
    (hcached : ∀ e ∈ w.cache, ∀ m ∈ e.2.messages, m.Plain) (hms : ∀ m ∈ ms, m.Plain) :
    ∀ e ∈ (w.cachePut key ms).cache, ∀ m ∈ e.2.messages, m.Plain := by
  intro e he
  rcases World.mem_cachePut he with ⟨-, heq⟩ | ⟨-, he⟩
  · rw [heq]
    exact hms
  · exact hcached e he

theorem World.Converses.handle (hw : w.Converses) (hq : q.Orderly) : (handle env q w).2.Converses := by
  have htick : (w.tick env).Converses := ⟨hw.stored, hw.cached, hw.suspended⟩
  have hput : ∀ {w' : World} {key ms}, w'.store = w.store → (∀ e ∈ w'.cache, e ∈ w.cache) → (∀ m ∈ ms, m.Plain) →
      (w'.cachePut key ms).Converses := fun {w' key ms} hstore hcache hms => by
    refine ⟨?_, cachePut_plain (fun e he => hw.cached e (hcache e he)) hms, ?_⟩
    · show ∀ row ∈ w'.store.messages, row.message.Plain
      rw [hstore]
      exact hw.stored
    · show ∀ row ∈ w'.store.sessions, HandsBack row.interruptedState
      rw [hstore]
      exact hw.suspended
  cases q with
  | sql st =>
    cases hs : env.storeError w.steps with
    | some e =>
      rw [handle_sql_error _ hs]
      exact htick
    | none =>
      rw [handle_sql_ok _ hs]
      obtain ⟨hstored, hsuspended⟩ := exec_converses hq hw.stored hw.suspended
      exact ⟨hstored, hw.cached, hsuspended⟩
  | cacheStore u sid ms => exact hput rfl (fun e he => List.mem_of_mem_filter he) hq
  | cacheAppendTurn u sid m m' =>
    have hturn : ∀ x ∈ [m, m'], x.Plain := by
      intro x hx
      rcases List.mem_cons.mp hx with rfl | hx
      · exact hq.1
      · rw [List.mem_singleton.mp hx]
        exact hq.2
    simp only [AgentVerse.handle, answer, World.tick_cache]
    split
    · rename_i e hlookup
      refine hput rfl (fun e he => he) fun x hx => ?_
      rcases List.mem_append.mp hx with hx | hx
      · exact hw.cached _ (mem_of_lookup hlookup) x hx
      · exact hturn x hx
    · exact hput rfl (fun e he => he) hturn
  | cacheEvict u sid => exact ⟨hw.stored, fun e he => hw.cached e (List.mem_of_mem_filter he), hw.suspended⟩
  | submit | resolve | poll | sweepExpired =>
    simp only [AgentVerse.handle, answer, queueOp]
    split <;> exact ⟨hw.stored, hw.cached, hw.suspended⟩
  | _ => exact ⟨hw.stored, hw.cached, hw.suspended⟩

theorem World.Converses.heard (hw : w.Converses) (henv : env.Speaks) (q : Request) :
    Heard q (AgentVerse.handle env q w).1 := by
  cases q with
  | generate depth req => exact fun resp h => henv _ _ _ _ h
  | cacheLoad u sid =>
    intro ms h m hm
    simp only [AgentVerse.handle, answer, World.cached, World.tick_cache] at h
    split at h
    · rename_i e hlookup
      split at h
      · cases h
        exact hw.cached _ (mem_of_lookup hlookup) m hm
      · cases h
    · cases h
  | sql st =>
    cases st with
    | selectMessages sid =>
      intro ms h m hm
      cases hs : env.storeError w.steps with
      | some e =>
        rw [handle_sql_error _ hs] at h
        cases h
      | none =>
        rw [handle_sql_ok _ hs] at h
        cases h
        obtain ⟨row, hrow, rfl⟩ := List.mem_map.mp hm
        exact hw.stored row (List.mem_of_mem_filter ((List.mem_insertionSort _).mp hrow))
    | selectInterruptedState sid =>
      intro x h
      cases hs : env.storeError w.steps with
      | some e =>
        rw [handle_sql_error _ hs] at h
        cases h
      | none =>
        rw [handle_sql_ok _ hs] at h
        obtain ⟨row, hrow, rfl⟩ := Option.map_eq_some_iff.mp (Except.ok.inj h)
        exact hw.suspended row (List.mem_of_find?_eq_some hrow)
    | _ => trivial
  | _ => trivial

end Requests

/-! ### Calls make orderly requests -/

/-- A program that makes orderly requests, as long as what it hears is orderly. -/
abbrev Talks {ε α : Type} (p : M ε α) (P : Except ε α → Prop) : Prop := p.Meets Heard Request.Orderly P

theorem talks_of_only {ε α : Type} {A : Request → Prop} {p : M ε α} (hp : p.Only A) (hA : ∀ q, A q → q.Orderly) :
    Talks p AnyResult :=
  Prog.Meets.mono hp (fun _ _ _ => trivial) hA fun _ h => h

theorem talks_of_dialogue {ε α : Type} {p : M ε α} {P : Except ε α → Prop} (hp : p.Meets Heard Request.OfDialogue P) :
    Talks p P :=
  Prog.Meets.mono hp (fun _ _ h => h) (fun _ h => h.orderly) fun _ h => h

theorem heard_spoken (depth : Nat) (req : GenerateRequest) (resp : GenerateResponse)
    (h : Heard (.generate depth req) (.ok resp)) : resp.Spoken := h resp rfl

theorem Message.plain_of_mem_two {role role' : MessageRole} {text text' : String} :
    ∀ m ∈ [Message.ofText role text, Message.ofText role' text'], m.Plain := by
  intro m hm
  rcases List.mem_cons.mp hm with rfl | hm
  · exact Message.plain_ofText ..
  · rw [List.mem_singleton.mp hm]
    exact Message.plain_ofText ..

namespace Agent

variable (agent : Agent) {sid : SessionId}

theorem getCacheMemory_talks (userId : String) :
    Talks (getCacheMemory userId sid) fun r => ∀ history, r = .ok history → ∀ m ∈ history, m.Plain := by
  refine ⟨trivial, fun r hr => ?_⟩
  cases r with
  | some messages =>
    intro history h
    cases h
    exact hr messages rfl
  | none =>
    refine Prog.Meets.bind (P := fun r => ∀ history, r = .ok history → ∀ m ∈ history, m.Plain)
      (Prog.Meets.mapErr (P := fun r => ∀ history, r = .ok history → ∀ m ∈ history, m.Plain) ⟨trivial, fun r hr => ?_⟩
        fun r hr history h => ?_) (fun history hplain => ?_) fun e _ history h => by cases h
    · cases r with
      | ok history =>
        intro history' h
        cases h
        exact hr history rfl
      | error e => exact fun history h => by cases h
    · cases r with
      | ok history' =>
        cases h
        exact hr history rfl
      | error e => cases h
    · refine ⟨fun m hm => hplain history rfl m hm, fun _ _ history' h => ?_⟩
      cases h
      exact hplain history rfl

theorem prepare_talks (userId input : String) :
    Talks (agent.prepare userId sid input) fun r => ∀ p, r = .ok p → ∀ m ∈ p.history, m.Plain := by
  refine Prog.Meets.bind (talks_of_only (sess_only (SessionManager.assertOwner_only trivial)) fun _ h => h)
    (fun _ _ => ?_) fun e _ p h => by cases h
  refine Prog.Meets.bind (P := fun r => ∀ x, r = .ok x → ∀ m ∈ x.1, m.Plain) ?_ (fun x hx => ?_)
    fun e _ p h => by cases h
  · have hphase : Talks (agent.phaseOpening sid) AnyResult := by
      unfold phaseOpening
      split
      · exact talks_of_only (sess_only (SessionMemory.getPhaseOpeningContext_only trivial)) fun _ h => h
      · trivial
    refine Prog.Meets.bind hphase (fun phaseCtx _ => ?_) fun e _ x h => by cases h
    cases phaseCtx with
    | some ctx =>
      refine Prog.Meets.bind (talks_of_only (A := Request.Orderly) (request_only trivial) fun _ h => h) (fun _ _ => ?_)
        fun e _ x h => by cases h
      refine Prog.Meets.bind (talks_of_only (sess_only (SessionMemory.setPhaseOpeningContext_only trivial)) fun _ h => h)
        (fun _ _ x h => ?_) fun e _ x h => by cases h
      cases h
      exact fun m hm => by cases hm
    | none =>
      refine Prog.Meets.bind (getCacheMemory_talks userId) (fun history hplain x h => ?_) fun e _ x h => by cases h
      cases h
      exact hplain history rfl
  · refine Prog.Meets.bind (talks_of_only (agent.resolveSkill_binds input) fun q hq => ?_) (fun _ _ p h => ?_)
      fun e _ p h => by cases h
    · rcases hq with hq | ⟨x, rfl⟩
      · exact hq.orderly
      · trivial
    · cases h
      exact hx x rfl

theorem conversation_assembleMessages (system : Option String) {history : List Message}
    (h : ∀ m ∈ history, m.Plain) (input : String) : Conversation (assembleMessages system history input) := by
  unfold assembleMessages
  refine ((Conversation.append ?_ (.of_plain h)).append (.plain (Message.plain_ofText ..) .nil))
  cases system with
  | some sys => exact .plain (Message.plain_ofText ..) .nil
  | none => exact .nil

theorem runPrepared_talks (userId : String) {p : Prepared} (h : ∀ m ∈ p.history, m.Plain) :
    Talks (agent.runPrepared userId sid p) HandsOver := by
  refine Prog.Meets.bind (talks_of_only (agent.longTermText_only (fun _ h => h) userId p.input)
    fun _ h => Request.Reads.orderly h) (fun longTerm _ => ?_) fun e _ i hi => by cases hi
  have hstrategy := (agent.strategyForInvoke_converses heard_spoken p.input (agent.activeToolNames p.skillCtx)).and
    (agent.strategyForInvoke_meets (W := fun _ => False) p.input (agent.activeToolNames p.skillCtx))
  refine Prog.Meets.bind (Prog.Meets.mono hstrategy (fun _ _ h => h) (fun _ h => h.1.orderly) fun _ h => h.2)
    (fun strategy hs => ?_) fun e _ i hi => by cases hi
  obtain ⟨kind, tools, n, rfl, -⟩ := hs strategy rfl
  exact talks_of_dialogue (agent.runStrategy_converses heard_spoken kind tools n
    (conversation_assembleMessages _ h _) _ _)

theorem keepTurn_talks (userId input response : String) :
    Talks (agent.keepTurn userId sid input response) AnyResult := by
  refine Prog.Meets.bind (P := AnyResult) (talks_of_only (sess_only (SessionMemory.append_only trivial trivial fun now =>
    ?_)) fun _ h => h) (fun _ _ => ?_) fun _ _ => trivial
  · exact Message.plain_of_mem_two
  · refine Prog.Meets.bind (P := AnyResult) (talks_of_only (A := Request.Orderly) (request_only ?_) fun _ h => h)
      (fun _ _ => ?_) fun _ _ => trivial
    · exact ⟨Message.plain_ofText .., Message.plain_ofText ..⟩
    · dsimp only
      split
      · exact Prog.Meets.bind (P := AnyResult) (talks_of_only (A := Request.Orderly) (request_only trivial) fun _ h => h)
          (fun _ _ => trivial) fun _ _ => trivial
      · trivial

theorem persistInterrupt_talks {state : InterruptedState}
    (h : ∀ history pending, state.payload = .ok (some (history, pending)) → Conversation history) :
    Talks (persistInterrupt sid state) AnyResult := by
  refine Prog.Meets.bind (P := AnyResult) (talks_of_only (A := Request.Orderly)
    (sess_only (SessionMemory.setInterruptedState_only ?_)) fun _ h => h) (fun _ _ => ?_) fun _ _ => trivial
  · intro json state' history pending hjson hstate hpayload
    cases hjson
    rw [InterruptedState.fromStr_ofValue] at hstate
    cases hstate
    exact h history pending hpayload
  · exact talks_of_only (A := Request.Orderly) (sess_only (SessionMemory.updateStatus_only trivial fun _ => trivial))
      fun _ h => h

/-- The history that a stopped run hands over is stored. -/
theorem handleToolInterrupt_talks {interrupt : HitlInterrupt} (h : Conversation interrupt.history)
    (skillCtx : Option SkillContext) : Talks (handleToolInterrupt sid interrupt skillCtx) AnyResult := by
  unfold handleToolInterrupt
  cases interrupt.kindJson.fromStr with
  | error e => trivial
  | ok kind =>
    refine Prog.Meets.bind (persistInterrupt_talks fun history pending hpayload => ?_) (fun _ _ => trivial)
      fun _ _ => trivial
    cases (payload_eq_ok hpayload).2
    exact h

theorem continueRun_talks (state : InterruptedState) {messages : List Message} (h : Conversation messages) :
    Talks (agent.continueRun sid state messages) AnyResult := by
  obtain ⟨kind, tools, n, hs, -⟩ := agent.strategyForResume_mayRun state.activeToolNames
  unfold continueRun
  rw [hs]
  refine Prog.Meets.bind (talks_of_dialogue (agent.runStrategy_converses heard_spoken kind tools n h _ _))
    (fun outcome hout => ?_) fun _ _ => trivial
  cases outcome with
  | done text => trivial
  | interrupted interrupt => exact handleToolInterrupt_talks (hout interrupt rfl) _

/-- A suspended run is resumed with the history it handed over. -/
theorem resumeChecks_talks (userId : String) (approvalId : ApprovalId) :
    Talks (resumeChecks userId sid approvalId) fun r => ∀ resolved, r = .ok resolved → ∀ history pending,
      resolved.payload = some (history, pending) → Conversation history := by
  refine Prog.Meets.bind (P := AnyResult) (talks_of_only (A := Request.Orderly)
    (sess_only (SessionManager.assertOwner_only trivial)) fun _ h => h) (fun _ _ => ?_) fun e _ resolved h => by cases h
  refine Prog.Meets.bind (P := fun r => ∀ x, r = .ok x → HandsBack x) ?_ (fun existing hexisting => ?_)
    fun e _ resolved h => by cases h
  · refine Prog.Meets.mapErr (P := fun r => ∀ x, r = .ok x → HandsBack x) ⟨trivial, fun r hr => ?_⟩ fun r hr x h => ?_
    · cases r with
      | error e => exact fun x h => by cases h
      | ok row =>
        cases row with
        | none => exact fun x h => by cases h
        | some x =>
          intro x' h
          cases h
          exact hr x rfl
    · cases r with
      | ok x' =>
        cases h
        exact hr x rfl
      | error e => cases h
  · cases existing with
    | none => exact fun resolved h => by cases h
    | some stateJson =>
      dsimp only
      unfold orJson
      cases hjson : stateJson.fromStr with
      | error e => exact fun resolved h => by cases h
      | ok state =>
        simp only [Prog.ret_bind]
        split
        · exact fun resolved h => by cases h
        · cases hpayload : state.payload with
          | error e => exact fun resolved h => by cases h
          | ok payload =>
            intro resolved h history pending hresolved
            cases h
            obtain rfl : payload = some (history, pending) := hresolved
            exact hexisting _ rfl stateJson state history pending rfl hjson hpayload

/-- The approved calls are executed directly, and may start subagents. -/
theorem observation_converses (names : List String) (decision : ApprovalDecision) (pending : List ToolCall) :
    (agent.observation names decision pending).Meets Heard Request.OfDialogue AnyResult := by
  have hrun : ∀ calls, (agent.executeDirectly names calls).Meets Heard Request.OfDialogue AnyResult := by
    intro calls
    refine Prog.Meets.bind (infallible_any (executeMany_meets (P := fun _ => True)
      (fun t d _ => agent.executor.runTool_converses heard_spoken t d) ⟨trivial, trivial⟩ ⟨trivial, trivial⟩
      fun _ _ _ => trivial)) (fun _ _ => trivial) fun _ _ => trivial
  unfold observation
  cases decision with
  | approved => dsimp only; split <;> first | trivial | exact hrun _
  | modified newArgs => dsimp only; split <;> first | trivial | exact hrun _
  | rejected reason => dsimp only; split <;> trivial

theorem resume_talks (userId : String) (approvalId : ApprovalId) (decision : ApprovalDecision) :
    Talks (agent.resume userId sid approvalId decision) AnyResult := by
  refine Prog.Meets.bind (resumeChecks_talks userId approvalId) (fun resolved hresolved => ?_) fun _ _ => trivial
  have hclear : (resumeClear sid).Only Request.Orderly :=
    Prog.Only.bind (sess_only (SessionMemory.setInterruptedState_only resumable_none)) fun _ =>
      sess_only (SessionMemory.updateStatus_only trivial fun _ => trivial)
  refine Prog.Meets.bind (P := AnyResult) (talks_of_only hclear fun _ h => h) (fun _ _ => ?_) fun _ _ => trivial
  have hact : ∀ state history pending, resolved.payload = some (history, pending) →
      Talks (agent.resumeToolCallOrCheckpoint sid state decision history pending) AnyResult := by
    intro state history pending hp
    refine Prog.Meets.bind (talks_of_dialogue (agent.observation_converses _ decision pending)) (fun text _ => ?_)
      fun _ _ => trivial
    exact agent.continueRun_talks state ((hresolved resolved rfl history pending hp).append
      (.plain (Message.plain_ofText ..) .nil))
  unfold resumeAct
  split
  · exact talks_of_only (agent.resumePhaseGate_binds _ decision) fun _ h => h.orderly
  · exact hact _ _ _ ‹_›
  · trivial

theorem invoke_talks (userId input : String) : Talks (agent.invoke userId sid input) AnyResult := by
  refine Prog.Meets.bind (agent.prepare_talks userId input) (fun p hp => ?_) fun _ _ => trivial
  refine Prog.Meets.bind (agent.runPrepared_talks userId (hp p rfl)) (fun outcome hout => ?_) fun _ _ => trivial
  cases outcome with
  | done text => exact agent.keepTurn_talks ..
  | interrupted interrupt => exact handleToolInterrupt_talks (hout interrupt rfl) _

theorem invokeStateless_talks (input : String) : Talks (agent.invokeStateless input) AnyResult := by
  have hrun : (agent.strategy.run (assembleMessages (agent.assembleSystem none none) [] input)).Meets Heard
      Request.OfDialogue HandsOver := by
    have hbuffer : Conversation (assembleMessages (agent.assembleSystem none none) [] input) :=
      conversation_assembleMessages _ (fun _ h => by cases h) input
    have h := agent.runWithActiveTools_converses heard_spoken agent.kind agent.tools agent.maxIterations hbuffer
      agent.tools.toolNames
    unfold strategy
    cases hk : agent.kind with
    | _ => rw [hk] at h; exact h
  refine Prog.Meets.bind (P := AnyResult) (talks_of_dialogue (Prog.Meets.mapErr hrun fun _ _ => trivial))
    (fun outcome _ => ?_) fun _ _ => trivial
  cases outcome <;> trivial

theorem advancePhase_talks (userId output : String) : Talks (agent.advancePhase userId sid output) AnyResult := by
  refine Prog.Meets.bind (P := AnyResult) (talks_of_only (A := Request.Orderly)
    (sess_only (SessionManager.assertOwner_only trivial)) fun _ h => h) (fun _ _ => ?_) fun _ _ => trivial
  split
  · trivial
  · rename_i transition _
    refine Prog.Meets.bind (talks_of_only agent.phaseGate_reads fun _ h => Request.Reads.orderly h) (fun gate _ => ?_)
      fun _ _ => trivial
    cases gate with
    | some skillId =>
      refine Prog.Meets.bind (P := AnyResult) ⟨trivial, fun r _ => ?_⟩ (fun _ _ => trivial) fun _ _ => trivial
      cases r with
      | error e => trivial
      | ok approvalId =>
        exact Prog.Meets.bind (persistInterrupt_talks fun _ _ h => by cases h) (fun _ _ => trivial) fun _ _ => trivial
    | none =>
      exact Prog.Meets.bind (talks_of_only (agent.applyTransition_binds ..) fun _ h => h.orderly) (fun _ _ => trivial)
        fun _ _ => trivial

theorem createWith_orderly (userId : String) (ctx : Option (JsonText SkillContext)) :
    (SessionMemory.createWith userId ctx).Only Request.Orderly :=
  SessionMemory.createWith_only trivial trivial fun _ _ => resumable_none

theorem deleteAll_orderly (userId : String) (sessions : List Session) :
    (deleteAll userId sessions).Only Request.Orderly := by
  induction sessions with
  | nil => trivial
  | cons session sessions ih =>
    exact Prog.Only.bind (sess_only (query_only trivial)) fun _ => Prog.Only.bind (request_only trivial) fun _ => ih

/-- Every call makes orderly requests. -/
theorem program_talks (call : ApiCall) : Talks (agent.program call) AnyResult := by
  have hbind : ∀ {α : Type} {p : M AgentError α} {f : α → ApiResult}, Talks p AnyResult →
      Talks (p >>= fun a => .ret (f a)) AnyResult :=
    fun hp => Prog.Meets.bind hp (fun _ _ => trivial) fun _ _ => trivial
  have honly : ∀ {α : Type} {p : M AgentError α}, p.Only Request.Orderly → Talks p AnyResult :=
    fun hp => talks_of_only hp fun _ h => h
  cases call with
  | createSession u =>
    exact hbind (honly (sess_only (Prog.Only.bind (createWith_orderly u none) fun _ => trivial)))
  | createSessionWithSkill u skillId =>
    refine hbind (honly ?_)
    unfold createSessionWithSkill
    split
    · trivial
    · refine Prog.Only.bind (request_only trivial) fun reg => ?_
      split
      · trivial
      · exact sess_only (Prog.Only.bind (createWith_orderly u _) fun _ => trivial)
  | invoke u s input => exact hbind (agent.invoke_talks u input)
  | invokeStateless input => exact hbind (agent.invokeStateless_talks input)
  | resume u s id d => exact hbind (agent.resume_talks u id d)
  | advancePhase u s output => exact hbind (agent.advancePhase_talks u output)
  | endSession u s =>
    refine hbind (honly (Prog.Only.bind (sess_only (SessionManager.assertOwner_only trivial)) fun _ => ?_))
    exact Prog.Only.bind (sess_only (SessionMemory.updateStatus_only trivial fun _ => trivial)) fun _ =>
      request_only trivial
  | deleteAllUserData u =>
    exact hbind (honly (Prog.Only.bind (sess_only (query_only trivial)) fun sessions => deleteAll_orderly u sessions))
  | resolve id d => exact hbind (honly (request_only trivial))
  | sweepExpired => exact hbind (honly (request_only trivial))
  | checkTool ctx name args =>
    exact hbind (Prog.Meets.mapErr (P := AnyResult) (talks_of_dialogue (checkTool_converses ctx name args))
      fun _ _ => trivial)
  | cleanup cfg =>
    exact hbind (honly (Prog.Only.attempt (CleanupWorker.tick_only trivial (fun _ => trivial) (fun _ => trivial)
      (fun _ => trivial) fun _ _ _ => trivial)))

end Agent

/-! ### Runs -/

section Runs

variable {ι : Type} [DecidableEq ι]

/-- Calls of an agent, before any of them has begun. -/
def Agent.pool (agent : Agent) (calls : ι → ApiCall) (w : World) : Pool ι Reply World AgentError ApiResult :=
  ⟨fun i => agent.program (calls i), ⟨w, []⟩⟩

/-- The messages of a model call are well-formed. -/
def SendsWellFormed : Event → Prop
  | ⟨.generate _ req, _⟩ => WellFormed req.messages
  | _ => True

theorem sendsWellFormed_of_orderly {q : Request} (hq : q.Orderly) (r : Reply q) : SendsWellFormed ⟨q, r⟩ := by
  cases q with
  | generate depth req =>
    obtain ⟨buf, tools, hbuf, rfl⟩ := hq
    exact hbuf.withoutSystem.wellFormed
  | _ => trivial

/-- The terms of calls: they make orderly requests. -/
def dialogues (ι : Type) : Discipline ι Reply World where
  inv v := v.state.Converses ∧ ∀ x ∈ v.trace, SendsWellFormed x.2
  allowed _ _ _ := True
  guar _ _ q := q.Orderly

/-- Every buffer that is sent to the model is well-formed: in every strategy run from plain messages, and in every
interleaving of calls of an agent, with whatever tools fail or panic, and across all suspensions and resumptions. -/
theorem buffers_wellFormed (agent : Agent) {env : Env} (henv : env.Speaks) :
    (∀ (tools : ToolRegistry) (n : Nat) (messages : List Message) (names : List String) (ctx : HitlContext) (w : World),
      (∀ m ∈ messages, m.Plain) →
        (∀ x ∈ (ReActStrategy.runWithActiveTools (agent.skeleton tools n) messages names).asked (handle env) w,
          SendsWellFormed x) ∧
        ∀ x ∈ (ReActStrategy.runHitl (agent.skeleton tools n) messages names ctx.hook).asked (handle env) w,
          SendsWellFormed x) ∧
    ∀ (calls : ι → ApiCall) (w : World), w.Converses → ∀ schedule : List ι,
      ∀ x ∈ ((agent.pool calls w).run (handle env) schedule).view.trace, SendsWellFormed x.2 := by
  refine ⟨fun tools n messages names ctx w hplain => ?_, fun calls w hw schedule => ?_⟩
  · have hsends : ∀ {p : M Core.AgentError StrategyOutcome},
        p.Meets (fun q r => ∃ w, r = (handle env q w).1) Request.OfDialogue HandsOver →
        ∀ x ∈ p.asked (handle env) w, SendsWellFormed x := fun hp x hx =>
      sendsWellFormed_of_orderly ((Prog.Meets.run (handle env) hp w fun y hy =>
        Prog.answer_of_asked (handle env) hy).1 x hx).orderly x.2
    have hspoken : ∀ depth req resp, (∃ w, (.ok resp : Except ModelError GenerateResponse) =
        (handle env (.generate depth req) w).1) → resp.Spoken :=
      fun depth req resp ⟨w, h⟩ => henv _ depth req resp h.symm
    have hmessages : Conversation messages := .of_plain hplain
    exact ⟨hsends (agent.runWithActiveTools_converses hspoken .react tools n hmessages names),
      hsends (agent.runHitl_converses hspoken .react tools n hmessages names ctx)⟩
  · have hsafe : ∀ i, (dialogues ι).Safe (handle env) i (fun _ _ => True) (agent.program (calls i)) ⟨w, []⟩ := fun i =>
      Discipline.Safe.imp (fun _ _ _ => trivial) <|
        Discipline.Safe.of_assumed (agent.program_talks (calls i)) fun v q hI _ hq => by
          refine ⟨hq, ⟨hI.1.handle hq, fun x hx => ?_⟩, hI.1.heard henv q⟩
          rcases List.mem_append.mp hx with hx | hx
          · exact hI.2 x hx
          · rw [List.mem_singleton.mp hx]
            exact sendsWellFormed_of_orderly hq _
    exact (Pool.run_safe (D := dialogues ι) ⟨hw, by simp [Agent.pool]⟩ hsafe
      (Pool.conforms_true _ (fun _ _ _ => trivial) schedule)).1.2

/-- A model that asks for a tool on the blocklist, then for a harmless one, and then answers. -/
def Env.asksTwice : Env :=
  .steady fun _ req =>
    if req.messages.length ≤ 1 then .ofCalls ["file_delete"]
    else if req.messages.length ≤ 2 then .ofCalls ["read_file"] else .ofText "done"

theorem asksTwice_speaks : Env.asksTwice.Speaks := by
  intro n depth req resp h b hb
  obtain rfl := Except.ok.inj h
  dsimp only at hb
  split at hb
  · obtain ⟨name, -, rfl⟩ := List.mem_map.mp hb
    rfl
  · split at hb
    · obtain ⟨name, -, rfl⟩ := List.mem_map.mp hb
      rfl
    · rw [List.mem_singleton.mp hb]
      rfl

/-- A new session. -/
def World.withSession : World :=
  { World.fresh ⟨[]⟩ 0 with store := ⟨[SessionMemory.newRow 0 "u" 0 none], [], 0⟩, nextUuid := 1 }

/-- The number of messages that a model call is made with. -/
def messagesSent : Event → Option Nat
  | ⟨.generate _ req, _⟩ => some req.messages.length
  | _ => none

/-- An invocation is suspended and resumed; the resumed run sends the results of a batch. -/
theorem buffers_wellFormed_resumed :
    let calls : Bool → ApiCall := fun resumes => if resumes then .resume "u" 0 1 .approved else .invoke "u" 0 "go"
    let P := (Agent.plain.pool calls .withSession).run (handle .asksTwice)
      (List.replicate 20 false ++ List.replicate 20 true)
    (P.view.trace.filterMap fun x => messagesSent x.2) = [1, 2, 4] ∧ (∀ x ∈ P.view.trace, SendsWellFormed x.2) ∧
      ∀ x ∈ (ReActStrategy.runWithActiveTools (Agent.plain.skeleton .plain 4) [.ofText .user "go"] []).asked
        (handle .asksTwice) .withSession, SendsWellFormed x := by
  have hworld : World.withSession.Converses :=
    ⟨by simp [World.withSession], by simp [World.withSession, World.fresh], fun row hrow => by
      rw [List.mem_singleton.mp hrow]
      exact resumable_none⟩
  obtain ⟨hruns, hpools⟩ := buffers_wellFormed (ι := Bool) Agent.plain asksTwice_speaks
  refine ⟨by decide +kernel, hpools _ _ hworld _, (hruns _ _ _ _ (.new 0 none .new) _ fun m hm => ?_).1⟩
  rw [List.mem_singleton.mp hm]
  exact Message.plain_ofText ..

end Runs

end AgentVerse
