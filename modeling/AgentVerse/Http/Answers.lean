import AgentVerse.Agent.Settlement
import AgentVerse.Http.Aether

/-!
# Answers of the aether routes

What a request of the orchestrator leaves of the session that it is about, and what its answer says of it. A request to
invoke is about a session that is new (`Invoked`), a request to resume about the one that it names (`Resumed`).
-/

namespace AgentVerse

open Effects SessionRoutes

variable {env : Env} {w : World} {c c₁ c' : Config Reply World} {sid : SessionId}

/-! ### What an answer says -/

section Reading

variable {uu : UuidTexts}

/-- The session and the approval that a suspended envelope names. -/
def suspension (uu : UuidTexts) (r : Response) : Option (SessionId × ApprovalId) := do
  let e ← Envelope.ofDocument uu r.body
  if e.kind = .suspended then
    let p ← SuspendPayload.ofValue? e.payload
    return (← uu.parse p.sessionId, ← uu.parse p.approvalId)
  else none

/-- The session and the approval that a request to resume names. -/
def ResumeRequest.target (uu : UuidTexts) (req : ResumeRequest) : Option (SessionId × ApprovalId) := do
  return (← uu.parse req.sessionId, ← uu.parse req.approvalId)

theorem ordered_single (key text : String) : (Json.object (Json.record [(key, some (.string text))])).Ordered :=
  Json.ordered_record fun x hx v hv => by
    simp only [List.mem_cons, List.not_mem_nil, or_false] at hx
    subst hx
    cases hv
    trivial

theorem SuspendPayload.ordered_value (p : SuspendPayload) : p.value.Ordered :=
  Json.ordered_record fun x hx v hv => by
    simp only [List.mem_cons, List.not_mem_nil, or_false] at hx
    rcases hx with rfl | rfl | rfl | rfl <;> cases hv <;> trivial

/-- An error body is no envelope. -/
@[simp] theorem suspension_errorBody (status : Nat) (message : String) :
    suspension uu ⟨status, errorBody message⟩ = none := by
  have hget : (Json.record [("error", some (.string message))]).get? "id" = _ :=
    Json.get?_record (l := [("error", some (.string message))]) (List.nodup_singleton "error") "id"
  have hordered := (ordered_single "error" message).1
  have hsingle : (Json.record [("error", some (.string message))]).single "id" = none := by
    rw [JsonFields.single_eq_get? hordered, hget]
    rfl
  simp [suspension, errorBody, Envelope.ofDocument, hsingle]

theorem suspension_value {status : Nat} {e : Envelope} (h : e.payload.Ordered) (hkind : e.kind ≠ .suspended) :
    suspension uu ⟨status, e.value uu⟩ = none := by
  simp [suspension, Envelope.ofDocument_value h, hkind]

/-- The answer to a suspension names the session and its approval. -/
theorem suspension_suspendPayload (agent : Agent) (status : Nat) (id : ApprovalId) (kind : InterruptKind) (reqId : Uuid)
    (metadata : StringMap) :
    suspension uu ⟨status, (Envelope.mk reqId .suspended (Aether.suspendPayload agent uu sid id kind).value metadata).value
      uu⟩ = some (sid, id) := by
  have hread : Envelope.ofDocument uu ((Envelope.mk reqId .suspended
      (Aether.suspendPayload agent uu sid id kind).value metadata).value uu) = some _ :=
    Envelope.ofDocument_value (SuspendPayload.ordered_value _)
  simp only [suspension, hread]
  simp [Aether.suspendPayload, uu.parse_print]

end Reading

namespace Aether

variable (agent : Agent) (uu : UuidTexts)

/-! ### Invoking -/

/-- How a new session starts. -/
theorem createSession_run (env : Env) (userId : String) (hw : c.state.Numbered) :
    (∃ e, ((Agent.createSession userId).run (handle env) c).1 = .error e ∧
      ¬ Answered c ((Agent.createSession userId).run (handle env) c).2) ∨
    ((Agent.createSession userId).run (handle env) c).1 = .ok c.state.nextUuid ∧
      ((Agent.createSession userId).run (handle env) c).2.state.life c.state.nextUuid = some ⟨.active, none⟩ ∧
      ((Agent.createSession userId).run (handle env) c).2.state.owns userId c.state.nextUuid := by
  have hfresh : c.state.store.row? c.state.nextUuid = none := hw _ (Nat.le_refl _)
  -- The clock and the id are read first.
  obtain ⟨c₂, row, hrow, hstore, hreach, hrun⟩ : ∃ (c₂ : Config Reply World) (row : SessionRow),
      (row.id = c.state.nextUuid ∧ row.userId = userId ∧ row.life = ⟨.active, none⟩) ∧ c₂.state.store = c.state.store ∧
      Reaches (handle env) Request.Idle c c₂ ∧ (Agent.createSession userId).run (handle env) c =
        ((((query (.insertSession row)).run (handle env) c₂).1.map fun _ => c.state.nextUuid).mapError AgentError.session,
          ((query (.insertSession row)).run (handle env) c₂).2) := by
    refine ⟨(c.after (handle env) .now).after (handle env) .newUuid,
      SessionMemory.newRow c.state.nextUuid userId (timestamp (c.state.tick env).clock) none, ⟨rfl, rfl, rfl⟩, rfl,
      .step trivial (.step trivial .refl), ?_⟩
    have hprog : Agent.createSession userId = .ask .now fun t => .ask .newUuid fun id =>
        (query (.insertSession (SessionMemory.newRow id userId (timestamp t) none)) >>= fun _ => .ret id).mapErr
          AgentError.session := by
      simp only [Agent.createSession, sess, SessionManager.createSession, SessionMemory.create, SessionMemory.createWith,
        nowTimestamp, request, Prog.ask_bind, Prog.ret_bind, Prog.perform_bind, Prog.mapErr_ask, Prog.pure_eq,
        Prog.bind_assoc]
    rw [hprog, Prog.run_ask, Prog.run_ask, Prog.run_mapErr, Prog.run_bind_ret]
    rfl
  rw [hrun, run_query]
  cases hs : env.storeError c₂.state.steps with
  | some e =>
    refine .inl ⟨.session (.database e), by rw [handle_sql_error _ hs]; rfl, fun hans => ?_⟩
    have hnone := (hans.parts hreach (F := fun _ => True) (.step trivial .refl)).2.storeError
    rw [hs] at hnone
    cases hnone
  | none =>
    obtain ⟨hid, huser, hlife⟩ := hrow
    have hnew : c₂.state.store.row? row.id = none := by rw [hstore, hid, hfresh]
    have hins : (c₂.after (handle env) (.sql (.insertSession row))).state.store.row? c.state.nextUuid = some row := by
      rw [Config.after_state, handle_sql_ok _ hs, ← hid]
      exact Store.row?_insertSession_same hnew
    refine .inr ⟨?_, by rw [World.life, hins, Option.map_some, hlife], by rw [World.owns, hins, Option.map_some, huser]⟩
    rw [handle_sql_ok _ hs, Statement.exec, Store.insertSession, hnew]
    rfl

variable (env) in
/-- The owner of a new session ends it, as far as that works. -/
theorem endSession_new {owner : String} (howns : c.state.owns owner sid) (hl : c.state.life sid = some ⟨.active, none⟩) :
    (∃ status, ((Agent.endSession owner sid).run (handle env) c).2.state.life sid = some ⟨status, none⟩) ∧
      (Answered c ((Agent.endSession owner sid).run (handle env) c).2 →
        ((Agent.endSession owner sid).run (handle env) c).2.state.life sid = some ⟨.completed, none⟩) := by
  constructor
  · rcases Agent.endSession_run env owner sid c with hkept | ⟨-, l, hb, ha⟩
    · exact ⟨.active, hkept.trans hl⟩
    · obtain rfl := Option.some.inj (hl.symm.trans hb)
      exact ⟨.completed, ha⟩
  · intro hans
    obtain ⟨l, hb, ha⟩ := Agent.endSession_completes howns hans
    obtain rfl := Option.some.inj (hl.symm.trans hb)
    exact ha

/-- The answer to an output, and what is left of the session. -/
inductive Told (uu : UuidTexts) (sid : SessionId) (c c' : Config Reply World) (r : Response) : Prop where
  | suspended {i : HitlInterrupt} {kind : InterruptKind} {skillCtx : Option SkillContext}
      (h : c'.state.life sid = some ⟨.interrupted, some (.ofValue (Agent.interruptedState i kind skillCtx))⟩)
      (hr : suspension uu r = some (sid, i.approvalId))
  | ended (hr : suspension uu r = none) (h : ∃ status, c'.state.life sid = some ⟨status, none⟩)
      (hans : Answered c c' → c'.state.life sid = some ⟨.completed, none⟩)

theorem finish_only (owner : String) (reqId : Uuid) (metadata : StringMap) (out : AgentOutput) :
    (finish agent uu owner sid reqId metadata out).Only (Request.OfCall sid) := by
  cases out with
  | done text => exact Prog.Only.bind (Prog.Only.attempt (Agent.endSession_only owner)) fun _ => trivial
  | interrupted id kind => trivial

/-- An output is told to the orchestrator. -/
theorem finish_told {owner : String} {out : AgentOutput} {A : Request → Prop} (reqId : Uuid) (metadata : StringMap)
    (hr : Reaches (handle env) A c c₁) (hl : c.state.life sid = some ⟨.active, none⟩) (howns : c₁.state.owns owner sid)
    (hs : Settles sid c c₁ (.ok out)) :
    ∃ e, ((finish agent uu owner sid reqId metadata out).run (handle env) c₁).1 = .ok e ∧
      Told uu sid c ((finish agent uu owner sid reqId metadata out).run (handle env) c₁).2 ⟨200, e.value uu⟩ := by
  cases hs with
  | quiet hne hlife =>
    cases out with
    | interrupted id kind => exact absurd rfl (hne id kind)
    | done text =>
      obtain ⟨hleft, hans⟩ := endSession_new env howns (hlife.trans hl)
      have hrun : (finish agent uu owner sid reqId metadata (.done text)).run (handle env) c₁ =
          (.ok ⟨reqId, .result, resultPayload text, metadata⟩, ((Agent.endSession owner sid).run (handle env) c₁).2) := by
        rw [finish, Prog.run_bind_ok _ (Prog.run_attempt ..)]
        rfl
      rw [hrun]
      refine ⟨_, rfl, .ended (suspension_value (ordered_single "output" text) (by simp)) hleft fun h => hans ?_⟩
      exact (h.parts hr ((Agent.endSession_only owner).reaches c₁)).2
  | suspended hlife =>
    exact ⟨_, rfl, .suspended hlife (suspension_suspendPayload agent 200 _ _ reqId metadata)⟩

/-- What a request leaves of sessions that it is not about. -/
structure LeftAlone (sid : SessionId) (w w' : World) : Prop where
  numbered : w'.Numbered
  others : ∀ s, s ≠ sid → w'.life s = w.life s

theorem LeftAlone.of_call (hs : LeftAlone sid w c₁.state)
    (hr : Reaches (handle env) (Request.OfCall sid) c₁ c') : LeftAlone sid w c'.state where
  numbered := numbered_of_reaches hr (fun _ h => h.enrols) hs.numbered
  others s hne := (keeps_of_reaches hr fun _ h => h.keeps_other (Ne.symm hne)).trans (hs.others s hne)

theorem owns_of_call {owner : String} (hr : Reaches (handle env) (Request.OfCall sid) c c')
    (h : c.state.owns owner sid) : c'.state.owns owner sid := by
  refine (keeps_of_reaches hr fun q hq => ?_).trans h
  rcases hq with hq | ⟨x, status, hq⟩
  · exact hq.keeps (fun _ _ _ => rfl) fun _ _ _ => rfl
  · exact hq.keeps fun _ => ⟨fun _ => rfl, fun _ _ => rfl⟩

/-- The session that a request to invoke creates, when it is through. -/
inductive Invoked (uu : UuidTexts) (sid : SessionId) (c c' : Config Reply World) (r : Response) : Prop where
  | suspended {i : HitlInterrupt} {kind : InterruptKind} {skillCtx : Option SkillContext}
      (h : c'.state.life sid = some ⟨.interrupted, some (.ofValue (Agent.interruptedState i kind skillCtx))⟩)
      (hr : suspension uu r = some (sid, i.approvalId))
  | quiet (hr : suspension uu r = none)
      (hans : Answered c c' → ∀ l, c'.state.life sid = some l → l = ⟨.completed, none⟩)

/-- A request to invoke, once it has its session. -/
def invokeIn (envelope : Envelope) (sid : SessionId) : M Empty Response := do
  match ← (agent.invoke (owner envelope) sid (input envelope)).attempt with
  | .ok out =>
    let resp ← finish agent uu (owner envelope) sid envelope.id envelope.metadata out
    return ⟨200, resp.value uu⟩
  | .error e =>
    let _ ← (Agent.endSession (owner envelope) sid).attempt
    return errorEnvelope uu envelope.id envelope.metadata (e.display uu.print)

theorem invokeIn_only (envelope : Envelope) : (invokeIn agent uu envelope sid).Only (Request.OfCall sid) := by
  refine Prog.Only.bind (Prog.Only.attempt (agent.invoke_only ..)) fun r => ?_
  cases r with
  | ok out => exact Prog.Only.bind (finish_only agent uu _ _ _ out) fun _ => trivial
  | error e => exact Prog.Only.bind (Prog.Only.attempt (Agent.endSession_only _)) fun _ => trivial

theorem suspension_errorEnvelope (reqId : Uuid) (metadata : StringMap) (message : String) :
    suspension uu (errorEnvelope uu reqId metadata message) = none :=
  suspension_value (ordered_single "error" message) (by simp)

theorem invokeIn_run (env : Env) (envelope : Envelope) (hl : c.state.life sid = some ⟨.active, none⟩)
    (howns : c.state.owns (owner envelope) sid) :
    ∃ r, ((invokeIn agent uu envelope sid).run (handle env) c).1 = .ok r ∧
      Invoked uu sid c ((invokeIn agent uu envelope sid).run (handle env) c).2 r := by
  have hr := (agent.invoke_only (owner envelope) (input envelope) : Prog.Only (Request.OfCall sid) _).reaches (h := handle env) c
  have hs := agent.invoke_settles env (owner envelope) sid (input envelope) c
  unfold invokeIn
  rw [Prog.run_bind_ok _ (Prog.run_attempt ..)]
  generalize (agent.invoke (owner envelope) sid (input envelope)).run (handle env) c = x at hr hs ⊢
  obtain ⟨r, c₁⟩ := x
  have howns₁ := owns_of_call hr howns
  cases r with
  | ok out =>
    obtain ⟨e, he, htold⟩ := finish_told agent uu envelope.id envelope.metadata hr hl howns₁ hs
    simp only [Prog.pure_eq, Prog.run_bind_ret, he]
    refine ⟨_, rfl, ?_⟩
    cases htold with
    | suspended h hr => exact .suspended h hr
    | ended hr _ hans => exact .quiet hr fun h l hl' => Option.some.inj (hl'.symm.trans (hans h))
  | error e =>
    simp only [Prog.pure_eq, Prog.run_bind_ret, Prog.run_attempt]
    refine ⟨_, rfl, .quiet (suspension_errorEnvelope uu ..) fun hans l hl' => ?_⟩
    obtain ⟨hans₁, hans₂⟩ := hans.parts hr ((Agent.endSession_only (owner envelope)).reaches c₁)
    cases hs with
    | quiet _ hlife =>
      exact Option.some.inj (hl'.symm.trans ((endSession_new _ howns₁ (hlife.trans hl)).2 hans₂))
    | halfway hf _ => exact absurd hf hans₁.not_failedWrite

/-- A request to invoke is about a session that is new, if it creates one. -/
theorem aetherInvoke_run (env : Env) (envelope : Envelope) (hw : c.state.Numbered) :
    ∃ r, ((aetherInvoke agent uu envelope).run (handle env) c).1 = .ok r ∧
      Invoked uu c.state.nextUuid c ((aetherInvoke agent uu envelope).run (handle env) c).2 r ∧
      LeftAlone c.state.nextUuid c.state ((aetherInvoke agent uu envelope).run (handle env) c).2.state := by
  have hfresh : c.state.life c.state.nextUuid = none := by rw [World.life, hw _ (Nat.le_refl _)]; rfl
  unfold aetherInvoke
  split
  · refine ⟨_, rfl, .quiet (suspension_errorBody ..) fun _ l hl => ?_, hw, fun _ _ => rfl⟩
    have hl : c.state.life c.state.nextUuid = some l := hl
    rw [hl] at hfresh
    cases hfresh
  · obtain ⟨-, hother, -⟩ := SessionMemory.createWith_spec env (owner envelope) none c
    have hcreate := createSession_run env (owner envelope) hw
    have hstate := Agent.createSession_state env (owner envelope) c
    have hnum := Agent.createWith_numbered env hw (owner envelope) none
    have hidle : Reaches (handle env) (fun _ => True) c ((Agent.createSession (owner envelope)).run (handle env) c).2 :=
      (Prog.only_true _).reaches c
    rw [Prog.run_bind_ok _ (Prog.run_attempt ..)]
    rw [← hstate] at hother hnum
    generalize (Agent.createSession (owner envelope)).run (handle env) c = x at hcreate hother hnum hidle ⊢
    obtain ⟨r, c₁⟩ := x
    have hspared : LeftAlone c.state.nextUuid c.state c₁.state :=
      ⟨hnum, fun s hs => congrArg (Option.map SessionRow.life) (hother s hs)⟩
    rcases hcreate with ⟨e, rfl, hrefused⟩ | ⟨rfl, hl, howns⟩
    · exact ⟨_, rfl, .quiet (suspension_errorEnvelope uu ..) fun h => absurd h hrefused, hspared⟩
    · obtain ⟨r, hr, hinvoked⟩ := invokeIn_run agent uu env envelope hl howns
      have hreach := (invokeIn_only agent uu envelope : (invokeIn agent uu envelope c.state.nextUuid).Only _).reaches
        (h := handle env) c₁
      refine ⟨r, hr, ?_, hspared.of_call hreach⟩
      cases hinvoked with
      | suspended h hr => exact .suspended h hr
      | quiet hr hans => exact .quiet hr fun h => hans (h.parts hidle hreach).2

/-! ### Resuming -/

/-- What becomes of a session whose pending state was consumed, and what the answer says. -/
inductive Acted (uu : UuidTexts) (sid : SessionId) (c c' : Config Reply World) (r : Response) : Prop where
  | told (hstatus : r.status = 200) (h : Told uu sid c c' r)
  | failed (hstatus : r.status ≠ 200) (hr : suspension uu r = none)
      (hans : Answered c c' → c'.state.life sid = some ⟨.active, none⟩)

theorem answerResume_only (owner : String) (r : Except AgentError AgentOutput) :
    (answerResume agent uu owner sid r).Only (Request.OfCall sid) := by
  cases r with
  | ok out =>
    refine Prog.Only.bind (request_only (.inl (.inl trivial))) fun reqId => ?_
    exact Prog.Only.bind (finish_only agent uu owner reqId .empty out) fun _ => trivial
  | error e => trivial

/-- The decision on an interrupt takes effect, and the orchestrator gets an answer. -/
def actAndAnswer (owner : String) (sid : SessionId) (resolved : Agent.Resolved) (decision : ApprovalDecision) :
    M Empty Response := do
  let r ← (agent.resumeAct sid resolved decision).attempt
  answerResume agent uu owner sid r

theorem actAndAnswer_only (owner : String) (resolved : Agent.Resolved) (decision : ApprovalDecision) :
    (actAndAnswer agent uu owner sid resolved decision).Only (Request.OfCall sid) := by
  refine Prog.Only.bind (Prog.Only.attempt (agent.resumeAct_only resolved decision)) fun r => ?_
  exact answerResume_only agent uu owner r

theorem actAndAnswer_run (env : Env) {owner : String} (resolved : Agent.Resolved) (decision : ApprovalDecision)
    (hl : c.state.life sid = some ⟨.active, none⟩) (howns : c.state.owns owner sid) :
    ∃ r, ((actAndAnswer agent uu owner sid resolved decision).run (handle env) c).1 = .ok r ∧
      Acted uu sid c ((actAndAnswer agent uu owner sid resolved decision).run (handle env) c).2 r := by
  have hr := (agent.resumeAct_only resolved decision : Prog.Only (Request.OfCall sid) _).reaches (h := handle env) c
  have hs := agent.resumeAct_settles env sid resolved decision c
  unfold actAndAnswer
  rw [Prog.run_bind_ok _ (Prog.run_attempt ..)]
  generalize (agent.resumeAct sid resolved decision).run (handle env) c = x at hr hs ⊢
  obtain ⟨r, c₁⟩ := x
  have howns₁ := owns_of_call hr howns
  cases r with
  | ok out =>
    have hdraw : Reaches (handle env) (Request.OfCall sid) c₁ (c₁.after (handle env) .newUuid) :=
      .step (.inl (.inl trivial)) .refl
    have hs₁ : Settles sid c (c₁.after (handle env) .newUuid) (.ok out) := by
      cases hs with
      | quiet hne h => exact .quiet hne h
      | suspended h => exact .suspended h
    obtain ⟨e, he, htold⟩ := finish_told agent uu (handle env .newUuid c₁.state).1 .empty (hr.trans hdraw) hl
      (owns_of_call hdraw howns₁) hs₁
    simp only [answerResume, request, Prog.perform_bind, Prog.run_ask, Prog.pure_eq, Prog.run_bind_ret, he]
    exact ⟨_, rfl, .told rfl htold⟩
  | error e =>
    refine ⟨_, rfl, .failed (statusForAgentError_ne e .null) (suspension_errorBody ..) fun hans => ?_⟩
    cases hs with
    | quiet _ hlife => exact hlife.trans hl
    | halfway hf _ => exact absurd hf hans.not_failedWrite

/-- What happens to a session happens in the course of a longer run. -/
theorem Acted.within {A F : Request → Prop} {r : Response} (h : Acted uu sid c₁ c' r) (hr : Reaches (handle env) A c c₁)
    (hr' : Reaches (handle env) F c₁ c') : Acted uu sid c c' r := by
  cases h with
  | told hstatus h =>
    refine .told hstatus ?_
    cases h with
    | suspended h hr => exact .suspended h hr
    | ended hsilent h hans => exact .ended hsilent h fun hall => hans (hall.parts hr hr').2
  | failed hstatus hsilent hans => exact .failed hstatus hsilent fun hall => hans (hall.parts hr hr').2

/-- The session is suspended on an interrupt, and awaits its approval. -/
def Suspended (w : World) (sid : SessionId) (i : HitlInterrupt) (kind : InterruptKind) : Prop :=
  ∃ skillCtx, w.life sid = some ⟨.interrupted, some (.ofValue (Agent.interruptedState i kind skillCtx))⟩

/-- The session awaits the approval `id`. -/
def Waits (w : World) (sid : SessionId) (id : ApprovalId) : Prop :=
  ∃ i kind, Suspended w sid i kind ∧ i.approvalId = id

/-- An interrupt of the session is pending that is read back, with the approval `id`. -/
def Expects (w : World) (sid : SessionId) (id : ApprovalId) : Prop :=
  ∃ l state payload, w.life sid = some l ∧ l.pending = some (.ofValue state) ∧ state.approvalId = id ∧
    state.payload = .ok payload

theorem Suspended.expects_iff {i : HitlInterrupt} {kind : InterruptKind} {id : ApprovalId} (h : Suspended w sid i kind) :
    Expects w sid id ↔ ReadsBack i kind ∧ i.approvalId = id := by
  obtain ⟨skillCtx, hl⟩ := h
  constructor
  · rintro ⟨l, state, payload, hl', hp, hid, hpayload⟩
    obtain rfl := Option.some.inj (hl.symm.trans hl')
    obtain rfl : Agent.interruptedState i kind skillCtx = state := by simpa [JsonText.ofValue] using hp
    exact ⟨(Agent.payload_eq_ok hpayload).1, (Agent.approvalId_interruptedState i kind skillCtx).symm.trans hid⟩
  · rintro ⟨hreads, rfl⟩
    exact ⟨_, _, _, hl, rfl, Agent.approvalId_interruptedState i kind skillCtx,
      (Agent.payload_interruptedState i kind skillCtx).trans (if_pos hreads)⟩

/-- What the session persists of its interrupt is read back. -/
def Shallow (w : World) (sid : SessionId) : Prop := ∀ i kind, Suspended w sid i kind → ReadsBack i kind

/-- One approval is pending at a time. -/
theorem Expects.unique {id id' : ApprovalId} (h : Expects w sid id) (h' : Expects w sid id') : id = id' := by
  obtain ⟨l, state, _, hl, hp, rfl, -⟩ := h
  obtain ⟨l', state', _, hl', hp', rfl, -⟩ := h'
  obtain rfl := Option.some.inj (hl.symm.trans hl')
  have hstate : state = state' := by simpa [JsonText.ofValue] using hp.symm.trans hp'
  rw [hstate]

theorem Waits.unique {id id' : ApprovalId} (h : Waits w sid id) (h' : Expects w sid id') : id = id' := by
  obtain ⟨i, kind, hs, rfl⟩ := h
  exact (hs.expects_iff.mp h').2

theorem Waits.of_life {w' : World} {id : ApprovalId} (h : Waits w sid id) (hlife : w'.life sid = w.life sid) :
    Waits w' sid id := by
  obtain ⟨i, kind, ⟨skillCtx, hl⟩, hid⟩ := h
  exact ⟨i, kind, ⟨skillCtx, hlife.trans hl⟩, hid⟩

/-- What is awaited can be approved if it is read back, -/
theorem Waits.expects {id : ApprovalId} (h : Waits w sid id) (hshallow : Shallow w sid) : Expects w sid id := by
  obtain ⟨i, kind, hs, rfl⟩ := h
  exact hs.expects_iff.mpr ⟨hshallow i kind hs, rfl⟩

/-- and only then. -/
theorem Expects.shallow {id : ApprovalId} (h : Expects w sid id) : Shallow w sid :=
  fun _ _ hs => (hs.expects_iff.mp h).1

/-- How a request to resume goes that names session `sid` and approval `id`. -/
inductive Resumed (agent : Agent) (uu : UuidTexts) (env : Env) (sid : SessionId) (id : ApprovalId)
    (decision : ApprovalDecision) (w : World) (c' : Config Reply World) (r : Response) : Prop where
  /-- It is refused: nothing changes and nothing is started. -/
  | refused (hstatus : r.status ≠ 200) (hr : suspension uu r = none) (hl : c'.state.life sid = w.life sid)
      (hquiet : ∀ x ∈ c'.trace, x.1.dispatch? = none) (hans : Answered ⟨w, []⟩ c' → ¬ Expects w sid id)
  /-- The pending state could not be consumed, or its status not be written. -/
  | halfway (hstatus : r.status ≠ 200) (hr : suspension uu r = none) (hpending : Expects w sid id)
      (hans : ¬ Answered ⟨w, []⟩ c')
  /-- The decision takes effect. -/
  | acted {owner : String} {resolved : Agent.Resolved} {c₁ : Config Reply World} (hpending : Expects w sid id)
      (hid : resolved.state.approvalId = id)
      (hreach : Reaches (handle env) (Request.OfCall sid) ⟨w, []⟩ c₁)
      (hl : c₁.state.life sid = some ⟨.active, none⟩)
      (hrun : (actAndAnswer agent uu owner sid resolved decision).run (handle env) c₁ = (.ok r, c'))
      (h : Acted uu sid ⟨w, []⟩ c' r)

variable (env) in
/-- The checks of a resume let its owner pass with the approval that the session awaits. -/
theorem resumeChecks_answered {owner : String} {id : ApprovalId} (howns : c.state.owns owner sid)
    (hexpects : Expects c.state sid id)
    (hans : Answered c ((Agent.resumeChecks owner sid id).run (handle env) c).2) :
    ∃ resolved, ((Agent.resumeChecks owner sid id).run (handle env) c).1 = .ok resolved := by
  obtain ⟨l, state, payload, hl, hp, hid, hpayload⟩ := hexpects
  have hlook : Reaches (handle env) Request.Idle c (c.after (handle env) (.sql (.selectSession sid))) :=
    .step trivial .refl
  have howner : env.storeError c.state.steps = none := by
    obtain ⟨k, hk⟩ : ∃ k, Agent.resumeChecks owner sid id = .ask (.sql (.selectSession sid)) k := ⟨_, rfl⟩
    rw [hk] at hans
    exact hans.ask.1
  have hstate : env.storeError (c.state.steps + 1) = none := by
    have hans' := hans
    rw [Agent.resumeChecks, Prog.run_bind_ok _ ((Agent.assertOwner_ok (u := ())).mpr ⟨howner, howns, rfl⟩)] at hans'
    have hrest := (hans'.parts hlook ((Prog.only_true _).reaches _)).2.ask.1
    rwa [Config.after_state, handle_steps] at hrest
  exact ⟨⟨state, payload⟩, congrArg Prod.fst (Agent.resumeChecks_ok.mpr
    ⟨⟨howner, hstate, howns, ⟨l, hl, hp⟩, hid, hpayload⟩, rfl⟩)⟩

/-- What is left of a request to resume, once the owner of the session is known. -/
def resumeFor (owner : String) (sid : SessionId) (id : ApprovalId) (decision : ApprovalDecision) : M Empty Response := do
  let r ← (agent.resume owner sid id decision).attempt
  answerResume agent uu owner sid r

theorem resumeFor_run (env : Env) {owner : String} {id : ApprovalId} (decision : ApprovalDecision) {c₀ : Config Reply World}
    (hr₀ : Reaches (handle env) Request.Idle ⟨w, []⟩ c₀) (howns : c₀.state.owns owner sid) :
    ∃ r c', (resumeFor agent uu owner sid id decision).run (handle env) c₀ = (.ok r, c') ∧
      Resumed agent uu env sid id decision w c' r := by
  have hl₀ : c₀.state.life sid = w.life sid := Agent.idle_life hr₀
  have hcall₀ : Reaches (handle env) (Request.OfCall sid) ⟨w, []⟩ c₀ := hr₀.mono fun _ h => .inl h.ofTurn
  have hexpects₀ : ∀ {id}, Expects w sid id → Expects c₀.state sid id := by
    intro id h
    rwa [Expects, hl₀]
  -- A request that fails in the agent is answered at once.
  have herr : ∀ {e c'}, (agent.resume owner sid id decision).run (handle env) c₀ = (.error e, c') →
      (resumeFor agent uu owner sid id decision).run (handle env) c₀ =
        (.ok ⟨statusForAgentError e, errorBody (e.display uu.print)⟩, c') := by
    intro e c' h
    rw [resumeFor, Prog.run_bind_ok _ (Prog.run_attempt ..), h]
    rfl
  have hrun := agent.resume_run env owner sid id decision c₀
  generalize hx : (agent.resume owner sid id decision).run (handle env) c₀ = x at hrun
  cases hrun with
  | @refused e c' hchecks =>
    have hr := Agent.resumeChecks_reaches hchecks
    refine ⟨_, _, herr hx, .refused (statusForAgentError_ne e .null) (suspension_errorBody ..)
      ((Agent.idle_life hr).trans hl₀) (fun x hx => ?_) fun hans hw => ?_⟩
    · obtain ⟨t, ht, hq⟩ := (hr₀.trans hr).trace
      exact (hq x (by simpa [ht] using hx)).dispatch
    · have hans₁ := (hans.parts hr₀ hr).2
      obtain ⟨resolved, hok⟩ := resumeChecks_answered env howns (hexpects₀ hw) (by rw [hchecks]; exact hans₁)
      rw [hchecks] at hok
      cases hok
  | @stuck resolved e c₁ c' hchecks hclear =>
    have hr := Agent.resumeChecks_reaches hchecks
    have hr' : Reaches (handle env) (Request.OfWrites sid none .active) c₁ c' := by
      have := (twoWrites_only sid none .active).reaches (h := handle env) c₁
      rwa [← resumeClear_eq, hclear] at this
    obtain ⟨hres, -⟩ := Agent.resumeChecks_ok.mp hchecks
    obtain ⟨l, hl, hp⟩ := hres.pending
    have hl₁ : c₁.state.life sid = some l := (Agent.idle_life hr).trans hl
    have hfails : FailedWrite c₁ c' := by
      cases Agent.resumeClear_end hclear with
      | untouched hf _ =>
        rcases hf with ⟨-, hf⟩ | hnone
        · exact hf
        · rw [hl₁] at hnone
          cases hnone
      | halfway _ _ hf _ _ => exact hf
    exact ⟨_, _, herr hx, .halfway (statusForAgentError_ne e .null) (suspension_errorBody ..)
      ⟨l, _, _, hl₀ ▸ hl, hp, hres.approval, hres.payload⟩ fun hans => (hans.parts (hr₀.trans hr) hr').2.not_failedWrite hfails⟩
  | @acted resolved c₁ c₂ hchecks hclear =>
    have hr := Agent.resumeChecks_reaches hchecks
    have hr' : Reaches (handle env) (Request.OfWrites sid none .active) c₁ c₂ := by
      have := (twoWrites_only sid none .active).reaches (h := handle env) c₁
      rwa [← resumeClear_eq, hclear] at this
    have hcall : Reaches (handle env) (Request.OfCall sid) c₀ c₂ :=
      (hr.mono fun _ h => .inl h.ofTurn).trans (hr'.mono fun _ h => .inr ⟨_, _, h⟩)
    obtain ⟨hres, -⟩ := Agent.resumeChecks_ok.mp hchecks
    obtain ⟨l, hl, hp⟩ := hres.pending
    have hlife : c₂.state.life sid = some ⟨.active, none⟩ := by
      cases Agent.resumeClear_end hclear with
      | done _ _ _ _ ha => exact ha
    obtain ⟨r, hr₂, hacted⟩ := actAndAnswer_run agent uu env resolved decision hlife (owns_of_call hcall howns)
    have hlast := (actAndAnswer_only agent uu owner resolved decision : Prog.Only (Request.OfCall sid) _).reaches
      (h := handle env) c₂
    have heq : (resumeFor agent uu owner sid id decision).run (handle env) c₀ =
        (actAndAnswer agent uu owner sid resolved decision).run (handle env) c₂ := by
      rw [resumeFor, actAndAnswer, Prog.run_bind_ok _ (Prog.run_attempt ..), Prog.run_bind_ok _ (Prog.run_attempt ..), hx]
    refine ⟨r, _, heq.trans (Prod.ext hr₂ rfl), .acted ⟨l, _, _, hl₀ ▸ hl, hp, hres.approval, hres.payload⟩ hres.approval (hcall₀.trans hcall) hlife
      (Prod.ext hr₂ rfl) (hacted.within uu (hcall₀.trans hcall) hlast)⟩

/-- A request to resume looks for the owner of the session first. -/
theorem aetherResume_eq {req : ResumeRequest} {id : ApprovalId} (htarget : req.target uu = some (sid, id)) :
    aetherResume agent uu req = .ask (.sql (.selectSession sid)) fun
      | .ok (some session) => resumeFor agent uu session.userId sid id (mapDecision req.decision)
      | .ok none => .ret ⟨404, errorBody "session not found"⟩
      | .error e => .ret ⟨500, errorBody ((AgentError.session (.database e)).display uu.print)⟩ := by
  simp only [ResumeRequest.target, bind, Option.bind_eq_some_iff] at htarget
  obtain ⟨_, hsid, _, hid, h⟩ := htarget
  cases h
  simp only [aetherResume, hsid, hid]
  refine congrArg (Prog.ask _) (funext fun r => ?_)
  match r with
  | .error e => rfl
  | .ok none => rfl
  | .ok (some session) => rfl

theorem resumeFor_only (owner : String) (id : ApprovalId) (decision : ApprovalDecision) :
    (resumeFor agent uu owner sid id decision).Only (Request.OfCall sid) := by
  exact Prog.Only.bind (Prog.Only.attempt (agent.resume_only ..)) fun r => answerResume_only agent uu owner r

theorem aetherResume_only {req : ResumeRequest} {id : ApprovalId} (htarget : req.target uu = some (sid, id)) :
    (aetherResume agent uu req).Only (Request.OfCall sid) := by
  rw [aetherResume_eq agent uu htarget]
  refine ⟨.inl (.inl trivial), fun r _ => ?_⟩
  match r with
  | .error e => trivial
  | .ok none => trivial
  | .ok (some session) => exact resumeFor_only agent uu session.userId id (mapDecision req.decision)

theorem aetherResume_run (env : Env) {req : ResumeRequest} {id : ApprovalId} (htarget : req.target uu = some (sid, id))
    (w : World) : ∃ r c', (aetherResume agent uu req).run (handle env) ⟨w, []⟩ = (.ok r, c') ∧
      Resumed agent uu env sid id (mapDecision req.decision) w c' r := by
  have hlook : Reaches (handle env) Request.Idle ⟨w, []⟩
      ((⟨w, []⟩ : Config Reply World).after (handle env) (.sql (.selectSession sid))) := .step trivial .refl
  -- A request that ends with the look leaves everything as it is.
  have hends : ∀ {r : Response}, r.status ≠ 200 → suspension uu r = none →
      (Answered ⟨w, []⟩ ((⟨w, []⟩ : Config Reply World).after (handle env) (.sql (.selectSession sid))) →
        ¬ Expects w sid id) → Resumed agent uu env sid id (mapDecision req.decision) w
        ((⟨w, []⟩ : Config Reply World).after (handle env) (.sql (.selectSession sid))) r :=
    fun hstatus hr hans => .refused hstatus hr (Agent.idle_life hlook) (fun x hx => by
      obtain rfl := List.mem_singleton.mp hx
      rfl) hans
  rw [aetherResume_eq agent uu htarget, Prog.run_ask]
  cases hs : env.storeError w.steps with
  | some e =>
    rw [handle_sql_error _ hs]
    refine ⟨_, _, rfl, hends (show (500 : Nat) ≠ 200 by decide) (suspension_errorBody ..) fun hans => ?_⟩
    rw [hans.storeError] at hs
    cases hs
  | none =>
    rw [handle_sql_ok _ hs]
    cases hrow : w.store.row? sid with
    | none =>
      simp only [Statement.exec, hrow, Option.map_none]
      refine ⟨_, _, rfl, hends (show (404 : Nat) ≠ 200 by decide) (suspension_errorBody ..) fun _ hw => ?_⟩
      obtain ⟨_, _, _, hl, -⟩ := hw
      rw [World.life, hrow] at hl
      cases hl
    | some row =>
      simp only [Statement.exec, hrow, Option.map_some]
      have howns : w.owns row.userId sid := by rw [World.owns, hrow]; rfl
      exact resumeFor_run agent uu env (mapDecision req.decision) hlook
        (owns_of_call (hlook.mono fun _ h => .inl h.ofTurn) howns)

end Aether

end AgentVerse
