import AgentVerse.Agent.Ownership

/-!
# Every call keeps to its user's sessions

Once the check of the owner has passed, the requests of a call are about its session (`Request.Within`). Every call
keeps the terms of `ownership` (`sessionProgram_safe`): the stages that a footprint is not enough for are the creation
of a session, the history of an invocation and the deletions of `delete_all_user_data`.
-/

namespace AgentVerse

open Effects

/-! ### Footprints after the check -/

/-- A request about a session of a user, or about none. -/
def Request.Within (userId : String) (sid : SessionId) (q : Request) : Prop := q.Free ∨ q.About userId sid

theorem Request.OfStrategy.free {q : Request} (hq : q.OfStrategy) : q.Free := by
  cases q <;> trivial

theorem Request.OfWrites.within {userId : String} {sid : SessionId} {x : Option (JsonText InterruptedState)}
    {status : SessionStatus} {q : Request} (hq : q.OfWrites sid x status) : q.Within userId sid := by
  cases q with
  | now => exact .inl trivial
  | sql st =>
    refine .inr ?_
    cases st with
    | updateInterruptedState s y => exact congrArg some hq.1
    | updateStatus s t now => exact congrArg some hq.1
    | _ => exact hq.elim
  | _ => exact hq.elim

namespace Agent

variable (agent : Agent) {userId : String} {sid : SessionId}

theorem resolveSkill_within (input : String) : (agent.resolveSkill sid input).Only (Request.Within userId sid) := by
  refine Prog.Only.bind (sess_only (SessionMemory.getSkillContext_only (.inr rfl))) fun existing => ?_
  cases existing with
  | some json => exact Prog.Only.bind (orJson_only json) fun _ => trivial
  | none =>
    dsimp only
    split
    · trivial
    · refine Prog.Only.bind (request_only (.inl trivial)) fun reg => ?_
      split
      · refine Prog.Only.bind (request_only (.inl trivial)) fun reg => ?_
        split
        · trivial
        · exact Prog.Only.bind (sess_only (SessionMemory.setSkillContext_only (.inr rfl))) fun _ => trivial
      · exact Prog.Only.bind (request_only (.inl trivial)) fun _ => trivial

theorem runPrepared_free (p : Prepared) : (agent.runPrepared userId sid p).Only Request.Free := by
  refine Prog.Only.bind ?_ fun longTerm => ?_
  · unfold longTermText
    split
    · refine ⟨trivial, fun r _ => ?_⟩
      cases r with
      | error e => trivial
      | ok memories => dsimp only; split <;> trivial
    · trivial
  · refine Prog.Meets.bind (Prog.Meets.mono (agent.strategyForInvoke_meets (W := fun _ => False) p.input
      (agent.activeToolNames p.skillCtx)) (fun _ _ h => h) (fun _ h => h.1.free) fun _ h => h) (fun strategy hs => ?_)
      fun _ _ => trivial
    obtain ⟨kind, tools, n, rfl, -⟩ := hs strategy rfl
    exact Prog.Only.mono (agent.runStrategy_only ..) fun _ h => h.free

theorem handleToolInterrupt_within (interrupt : HitlInterrupt) (skillCtx : Option SkillContext) :
    (handleToolInterrupt sid interrupt skillCtx).Only (Request.Within userId sid) :=
  Prog.Only.mono (handleToolInterrupt_only interrupt skillCtx) fun _ ⟨_, _, h⟩ => h.within

/-- What a finished turn asks: besides, its append to the working memory. -/
theorem keepTurn_within (input response : String) : (agent.keepTurn userId sid input response).Only
    fun q => q.Within userId sid ∨ ∃ m m', q = .cacheAppendTurn userId sid m m' := by
  refine Prog.Only.bind (sess_only (SessionMemory.append_only (.inl (.inl trivial)) (.inl (.inr rfl)) fun now =>
    .inl (.inr rfl))) fun _ => ?_
  refine Prog.Only.bind (request_only (.inr ⟨_, _, rfl⟩)) fun _ => ?_
  dsimp only
  split
  · exact Prog.Only.bind (request_only (.inl (.inl trivial))) fun _ => trivial
  · trivial

theorem applyTransition_within (notConfigured : String) (transition : PhaseTransition) :
    (agent.applyTransition notConfigured sid transition).Only (Request.Within userId sid) := by
  unfold applyTransition
  split
  · trivial
  · refine Prog.Only.bind (request_only (.inl trivial)) fun reg => ?_
    split
    · trivial
    · exact sess_only (SessionMemory.applyPhaseTransition_only (.inr rfl))

theorem resumeAct_within (resolved : Resolved) (decision : ApprovalDecision) :
    (agent.resumeAct sid resolved decision).Only (Request.Within userId sid) := by
  have hact : ∀ state history pending,
      (agent.resumeToolCallOrCheckpoint sid state decision history pending).Only (Request.Within userId sid) :=
    fun state history pending => Prog.Only.mono (agent.resumeToolCallOrCheckpoint_only ..) fun q h =>
      h.elim (fun h => .inl h.free) fun ⟨_, _, h⟩ => h.within
  obtain ⟨state, payload⟩ := resolved
  unfold resumeAct
  cases state with
  | pendingPhaseGate id transitionJson =>
    unfold resumePhaseGate
    cases decision with
    | rejected reason => trivial
    | _ =>
      exact Prog.Only.bind (orJson_only _) fun _ => Prog.Only.bind (agent.applyTransition_within ..) fun _ => trivial
  | pendingToolCall => cases payload <;> first | trivial | exact hact _ _ _
  | pendingCheckpoint => cases payload <;> first | trivial | exact hact _ _ _

theorem phaseGate_within : (agent.phaseGate sid).Only (Request.Within userId sid) := by
  unfold phaseGate
  split
  · trivial
  · exact Prog.Only.bind (sess_only (SessionMemory.getSkillContext_only (.inr rfl))) fun _ => trivial

theorem suspendAtGate_within (skillId : SkillId) (transition : PhaseTransition) :
    (suspendAtGate sid skillId transition).Only (Request.Within userId sid) := by
  refine ⟨.inl trivial, fun r _ => ?_⟩
  cases r with
  | error e => trivial
  | ok approvalId =>
    exact Prog.Only.bind (Prog.Only.mono (twoWrites_only ..) fun _ h => h.within) fun _ => trivial

/-- Deletions of listed sessions. -/
theorem deleteAll_about (sessions : List Session) :
    (deleteAll userId sessions).Only fun q => ∃ session ∈ sessions, q.About userId session.id := by
  induction sessions with
  | nil => trivial
  | cons session sessions ih =>
    have hhead : session ∈ session :: sessions := List.mem_cons_self
    refine Prog.Only.bind (sess_only (query_only ⟨session, hhead, rfl⟩)) fun _ => ?_
    refine Prog.Only.bind (request_only ⟨session, hhead, rfl, rfl⟩) fun _ => ?_
    exact Prog.Only.mono ih fun q ⟨s, hs, h⟩ => ⟨s, List.mem_cons_of_mem _ hs, h⟩

end Agent

/-! ### What a call knows -/

variable {ι : Type} {env : Env} {draw : Nat → Uuid} {calls : ι → SessionCall} {v : AgentView ι} {i : ι} {sid : SessionId}
  {userId : String}

/-- A property that the turns of all calls keep. -/
def Lasts (env : Env) (draw : Nat → Uuid) (calls : ι → SessionCall) (K : AgentView ι → Prop) : Prop :=
  ∀ v j q, OfCaller calls v j q → K v → K (v.after (handleDrawn env draw) j q)

theorem Lasts.stable {K : AgentView ι → Prop} (hK : Lasts env draw calls K) :
    (ownership draw calls).Stable (handleDrawn env draw) i K := fun v j q _ _ _ hq hv => hK v j q hq hv

theorem Lasts.and {K K' : AgentView ι → Prop} (hK : Lasts env draw calls K) (hK' : Lasts env draw calls K') :
    Lasts env draw calls fun v => K v ∧ K' v := fun v j q hq hv => ⟨hK v j q hq hv.1, hK' v j q hq hv.2⟩

theorem belongs_lasts : Lasts env draw calls (Belongs userId sid) := fun _ _ _ hq hv => hv.turn hq

theorem took_lasts : Lasts env draw calls fun v => TookHistory v i := fun _ _ _ _ hv => hv.after

theorem Belongs.named {call : SessionCall} (hcall : call.session? = some sid) (h : Belongs call.userId sid v) :
    Named call v := by
  intro s hs
  rw [hcall] at hs
  cases hs
  exact h.2

theorem session_eq {call : SessionCall} (hcall : call.session? = some sid) : ∀ s, call.session? = some s → s = sid := by
  intro s hs
  rw [hcall] at hs
  cases hs
  rfl

/-- The call has not asked anything. -/
def Unasked (i : ι) (v : AgentView ι) : Prop := ∀ x ∈ v.trace, x.1 ≠ i

theorem unasked_stable : (ownership draw calls).Stable (handleDrawn env draw) i (Unasked i) := by
  intro v j q hj _ _ _ hv x hx
  rcases List.mem_append.mp hx with hx | hx
  · exact hv x hx
  · rw [List.mem_singleton.mp hx]
    exact hj

section Stages

variable (hdraw : draw.Injective)

include hdraw

/-- A stage all of whose requests keep the terms. -/
theorem stage_safe {ε α : Type} {p : M ε α} {A : Request → Prop} {K : AgentView ι → Prop} (hK : Lasts env draw calls K)
    (hv : K v) (hp : p.Only A) (hA : ∀ v q, K v → A q → OfCaller calls v i q) :
    (ownership draw calls).Safe (handleDrawn env draw) i (After fun _ => K) p v := by
  have hsafe := Discipline.Safe.of_only (D := ownership draw calls) (h := handleDrawn env draw) (i := i) hp hK.stable hv
    fun v q hI hKv _ hq => ⟨hA v q hKv hq, hI.turn hdraw (hA v q hKv hq), hK v i q (hA v q hKv hq) hKv⟩
  refine hsafe.imp fun r v h => ?_
  cases r with
  | ok a => exact h
  | error e => trivial

/-- One request that keeps the terms, with what is known of its reply. -/
theorem request_safe {ε : Type} {q : Request} {K : AgentView ι → Prop} {E : Reply q → AgentView ι → Prop}
    (hK : (ownership draw calls).Stable (handleDrawn env draw) i K) (hv : K v)
    (hq : ∀ v, K v → OfCaller calls v i q)
    (hE : ∀ r, (ownership draw calls).Stable (handleDrawn env draw) i (E r))
    (hpost : ∀ v, Registered draw v → K v → E (handleDrawn env draw q v.state).1 (v.after (handleDrawn env draw) i q)) :
    (ownership draw calls).Safe (handleDrawn env draw) i (After E) (request q : M ε (Reply q)) v :=
  ⟨K, hK, hv, fun v' hI hKv _ => ⟨hq v' hKv, hI.turn hdraw (hq v' hKv),
    Discipline.Safe.ret (E := After E) (hE _) (hpost v' hI hKv)⟩⟩

/-- The check of the owner. -/
theorem assertOwner_safe (hcall : (calls i).session? = some sid) (hv : Unasked i v) :
    (ownership draw calls).Safe (handleDrawn env draw) i (After fun _ => Belongs (calls i).userId sid)
      (sess (SessionManager.assertOwner (calls i).userId sid)) v := by
  refine ⟨_, unasked_stable, hv, fun v' hI hKv _ => ?_⟩
  have hlook : OfCaller calls v' i (.sql (.selectSession sid)) := .look hcall hKv
  refine ⟨hlook, hI.turn hdraw hlook, ?_⟩
  cases he : env.storeError (v'.state.drawing draw).steps with
  | some e =>
    rw [handleDrawn, handle_sql_error (w := v'.state.drawing draw) _ he]
    exact after_fail _
  | none =>
    rw [handleDrawn, handle_sql_ok (w := v'.state.drawing draw) _ he]
    simp only [Statement.exec, World.drawing_store]
    cases hrow : v'.state.store.row? sid with
    | none => exact after_fail _
    | some row =>
      show (ownership draw calls).Safe (handleDrawn env draw) i _
        ((if row.userId = (calls i).userId then (.ret () : M SessionMemoryError Unit) else .fail (.notFound sid)).mapErr
          AgentError.session) _
      by_cases hu : row.userId = (calls i).userId
      · rw [if_pos hu]
        have hbelongs := hI.belongs (List.mem_of_find?_eq_some hrow)
        rw [hu, Store.row?_id hrow] at hbelongs
        exact Discipline.Safe.ret belongs_lasts.stable (hbelongs.turn hlook)
      · rw [if_neg hu]
        exact after_fail _

/-- A stage of a call on its session, after the check. -/
theorem within_safe {ε α : Type} {p : M ε α} (hcall : (calls i).session? = some sid)
    (hv : Belongs (calls i).userId sid v) (hp : p.Only (Request.Within (calls i).userId sid)) :
    (ownership draw calls).Safe (handleDrawn env draw) i (After fun _ => Belongs (calls i).userId sid) p v := by
  refine stage_safe hdraw belongs_lasts hv hp fun v q hK hq => ?_
  rcases hq with hq | hq
  · exact .free (hK.named hcall) hq
  · exact .about (session_eq hcall) hK.2 hq

/-! ### The history of an invocation -/

/-- What an invocation knows once it has its history. -/
theorem getCacheMemory_took (hcall : (calls i).session? = some sid) (hv : Belongs (calls i).userId sid v) :
    (ownership draw calls).Safe (handleDrawn env draw) i
      (After fun _ v => Belongs (calls i).userId sid v ∧ TookHistory v i)
      (Agent.getCacheMemory (calls i).userId sid) v := by
  have hboth : Lasts env draw calls fun v => Belongs (calls i).userId sid v ∧ TookHistory v i := belongs_lasts.and took_lasts
  refine ⟨_, belongs_lasts.stable, hv, fun v₁ hI₁ hK₁ _ => ?_⟩
  have hload : OfCaller calls v₁ i (.cacheLoad (calls i).userId sid) := .about (session_eq hcall) hK₁.2 ⟨rfl, rfl⟩
  refine ⟨hload, hI₁.turn hdraw hload, ?_⟩
  cases hr : (handleDrawn env draw (.cacheLoad (calls i).userId sid) v₁.state).1 with
  | some messages =>
    refine Discipline.Safe.ret hboth.stable ⟨hK₁.turn hload, happened_after.mpr (.inr ⟨rfl, ?_⟩)⟩
    rw [hr]
    rfl
  | none =>
    refine after_bind (hI₁.turn hdraw hload)
      (within_safe hdraw hcall (hK₁.turn hload) (Agent.sess_only (query_only (.inr rfl)))) fun history v₂ hI₂ hK₂ => ?_
    refine ⟨_, belongs_lasts.stable, hK₂, fun v₃ hI₃ hK₃ _ => ?_⟩
    have hstore : OfCaller calls v₃ i (.cacheStore (calls i).userId sid history) :=
      .about (session_eq hcall) hK₃.2 ⟨rfl, rfl⟩
    exact ⟨hstore, hI₃.turn hdraw hstore, Discipline.Safe.ret hboth.stable
      ⟨hK₃.turn hstore, happened_after.mpr (.inr ⟨rfl, rfl⟩)⟩⟩

variable (agent : Agent)

theorem openingContext_took {input : String} (hcall : (calls i).session? = some sid) (hI : Registered draw v)
    (hv : Belongs (calls i).userId sid v) : (ownership draw calls).Safe (handleDrawn env draw) i
      (After fun _ v => Belongs (calls i).userId sid v ∧ TookHistory v i)
      (agent.openingContext (calls i).userId sid input) v := by
  have hboth : Lasts env draw calls fun v => Belongs (calls i).userId sid v ∧ TookHistory v i := belongs_lasts.and took_lasts
  have hphase : (agent.phaseOpening sid).Only (Request.Within (calls i).userId sid) := by
    unfold Agent.phaseOpening
    split
    · exact Agent.sess_only (SessionMemory.getPhaseOpeningContext_only (.inr rfl))
    · trivial
  refine after_bind hI (within_safe hdraw hcall hv hphase) fun r v₁ hI₁ hK₁ => ?_
  cases r with
  | none =>
    exact after_bind hI₁ (getCacheMemory_took hdraw hcall hK₁) fun history v₂ _ hK₂ =>
      Discipline.Safe.ret hboth.stable hK₂
  | some ctx =>
    have hevict : ∀ v, Belongs (calls i).userId sid v → OfCaller calls v i (.cacheEvict (calls i).userId sid) :=
      fun v hK => .about (session_eq hcall) hK.2 ⟨rfl, rfl⟩
    refine after_bind hI₁ (request_safe hdraw belongs_lasts.stable hK₁ hevict (fun _ => hboth.stable) fun v _ hK =>
      ⟨hK.turn (hevict v hK), happened_after.mpr (.inr ⟨rfl, rfl⟩)⟩) fun _ v₂ hI₂ hK₂ => ?_
    refine after_bind hI₂ (stage_safe hdraw hboth hK₂ (Agent.sess_only
      (SessionMemory.setPhaseOpeningContext_only (A := (· = .sql (.updatePhaseOpening sid none))) rfl))
      fun v q hK hq => ?_) fun _ v₃ _ hK₃ => Discipline.Safe.ret hboth.stable hK₃
    subst hq
    exact .about (session_eq hcall) hK.1.2 rfl

theorem invoke_confined {input : String} (hcall : calls i = .invoke userId sid input) (hI : Registered draw v)
    (hv : Unasked i v) : (ownership draw calls).Safe (handleDrawn env draw) i (After fun _ _ => True)
      (agent.invoke userId sid input) v := by
  have hsession : (calls i).session? = some sid := by rw [hcall]; rfl
  obtain rfl : (calls i).userId = userId := by rw [hcall]; rfl
  have hboth : Lasts env draw calls fun v => Belongs (calls i).userId sid v ∧ TookHistory v i := belongs_lasts.and took_lasts
  -- after the history is taken, a turn may be appended to the working memory
  have hlate : ∀ v q, Belongs (calls i).userId sid v ∧ TookHistory v i →
      (q.Within (calls i).userId sid ∨ ∃ m m', q = .cacheAppendTurn (calls i).userId sid m m') → OfCaller calls v i q := by
    intro v q hK hq
    rcases hq with (hq | hq) | ⟨m, m', rfl⟩
    · exact .free (hK.1.named hsession) hq
    · exact .about (session_eq hsession) hK.1.2 hq
    · exact .append (hK.1.named hsession) (by rw [hcall]; rfl) hK.2
  have hstage : ∀ {ε α : Type} {p : M ε α} {v : AgentView ι}, Belongs (calls i).userId sid v ∧ TookHistory v i →
      p.Only (fun q => q.Within (calls i).userId sid ∨ ∃ m m', q = .cacheAppendTurn (calls i).userId sid m m') →
      (ownership draw calls).Safe (handleDrawn env draw) i
        (After fun _ v => Belongs (calls i).userId sid v ∧ TookHistory v i) p v :=
    fun hv hp => stage_safe hdraw hboth hv hp hlate
  unfold Agent.invoke Agent.prepare
  refine after_bind (E := fun _ v => Belongs (calls i).userId sid v ∧ TookHistory v i) hI ?_ fun p v₁ hI₁ hK₁ => ?_
  · refine after_bind hI (assertOwner_safe hdraw hsession hv) fun _ v₁ hI₁ hK₁ => ?_
    refine after_bind hI₁ (openingContext_took hdraw agent hsession hI₁ hK₁) fun x v₂ hI₂ hK₂ => ?_
    refine after_bind hI₂ (hstage hK₂ (Prog.Only.mono (agent.resolveSkill_within input) fun _ h => .inl h))
      fun y v₃ _ hK₃ => Discipline.Safe.ret hboth.stable hK₃
  · refine after_bind hI₁ (hstage hK₁ (Prog.Only.mono (agent.runPrepared_free p) fun _ h => .inl (.inl h)))
      fun outcome v₂ hI₂ hK₂ => ?_
    have hend : ∀ {p : M AgentError AgentOutput},
        p.Only (fun q => q.Within (calls i).userId sid ∨ ∃ m m', q = .cacheAppendTurn (calls i).userId sid m m') →
        (ownership draw calls).Safe (handleDrawn env draw) i (After fun _ _ => True) p v₂ := fun hp =>
      (hstage hK₂ hp).imp fun r _ _ => by cases r <;> trivial
    cases outcome with
    | done text => exact hend (agent.keepTurn_within ..)
    | interrupted interrupt =>
      exact hend (Prog.Only.mono (Agent.handleToolInterrupt_within interrupt p.skillCtx) fun _ h => .inl h)

/-! ### Sessions that are created or listed -/

omit hdraw in
theorem named_of_none {call : SessionCall} (hcall : call.session? = none) : Named call v := by
  intro s hs
  rw [hcall] at hs
  cases hs

omit hdraw in
theorem session_none {call : SessionCall} (hcall : call.session? = none) : ∀ s, call.session? = some s → s = sid := by
  intro s hs
  rw [hcall] at hs
  cases hs

omit hdraw in
/-- Nobody else inserts a session with an id that a call has drawn. -/
theorem drew_stable {id : Uuid} :
    (ownership draw calls).Stable (handleDrawn env draw) i fun v => Drew v i id ∧ ¬ Enrolled v id := by
  rintro v j q hj hI _ hq ⟨hdrew, hnew⟩
  refine ⟨drew_after.mpr (.inl hdrew), fun h => ?_⟩
  rcases enrolled_after.mp h with h | h
  · exact hnew h
  · exact hj (hI.once j i id (hq.new h).1 hdrew)

theorem createWith_safe (hcall : (calls i).session? = none) (ctx : Option (JsonText SkillContext))
    (hI : Registered draw v) : (ownership draw calls).Safe (handleDrawn env draw) i (After fun _ _ => True)
      (SessionMemory.createWith (calls i).userId ctx) v := by
  have htrue : Lasts env draw calls fun _ => True := fun _ _ _ _ _ => trivial
  refine after_bind hI (stage_safe hdraw htrue trivial (nowTimestamp_only (A := Request.Free) trivial) fun v q _ hq =>
    .free (named_of_none hcall) hq) fun now v₁ hI₁ _ => ?_
  refine after_bind (E := fun (id : Uuid) v => Drew v i id ∧ ¬ Enrolled v id) hI₁ (request_safe hdraw htrue.stable trivial
    (fun v _ => .free (named_of_none hcall) trivial) (fun _ => drew_stable) fun v hI _ => ⟨?_, ?_⟩) fun id v₂ hI₂ hK₂ => ?_
  · exact drew_after.mpr (.inr ⟨rfl, rfl, rfl⟩)
  · exact fun h => (enrolled_after.mp h).elim (hI.new hdraw) fun h => by cases h
  · refine after_bind (E := fun _ _ => True) hI₂ ?_ fun _ _ _ _ => Discipline.Safe.ret htrue.stable trivial
    refine ⟨_, drew_stable, hK₂, fun v₃ hI₃ hK₃ _ => ?_⟩
    have hinsert : OfCaller calls v₃ i (.sql (.insertSession (SessionMemory.newRow id (calls i).userId now ctx))) :=
      .create hcall rfl hK₃.1 hK₃.2
    refine ⟨hinsert, hI₃.turn hdraw hinsert, ?_⟩
    cases (handleDrawn env draw (.sql (.insertSession (SessionMemory.newRow id (calls i).userId now ctx))) v₃.state).1 with
    | error e => exact after_fail _
    | ok u => exact Discipline.Safe.ret htrue.stable trivial

theorem listByUser_belongs (hcall : (calls i).session? = none) :
    (ownership draw calls).Safe (handleDrawn env draw) i
      (After fun sessions v => ∀ session ∈ sessions, Belongs (calls i).userId session.id v)
      (sess (SessionMemory.listByUser (calls i).userId)) v := by
  have hlasts : ∀ sessions : List Session,
      Lasts env draw calls fun v => ∀ session ∈ sessions, Belongs (calls i).userId session.id v :=
    fun sessions v j q hq hv session hs => (hv session hs).turn hq
  refine ⟨fun _ => True, Discipline.stable_true, trivial, fun v' hI _ _ => ?_⟩
  have hlist : OfCaller calls v' i (.sql (.selectByUser (calls i).userId)) := .list hcall
  refine ⟨hlist, hI.turn hdraw hlist, ?_⟩
  cases he : env.storeError (v'.state.drawing draw).steps with
  | some e =>
    rw [handleDrawn, handle_sql_error (w := v'.state.drawing draw) _ he]
    exact after_fail _
  | none =>
    rw [handleDrawn, handle_sql_ok (w := v'.state.drawing draw) _ he]
    refine Discipline.Safe.ret (hlasts _).stable fun session hs => ?_
    obtain ⟨row, hrow, rfl⟩ := List.mem_map.mp ((List.mem_insertionSort _).mp hs)
    obtain ⟨hrow, hu⟩ := List.mem_filter.mp hrow
    have hbelongs := hI.belongs hrow
    rw [of_decide_eq_true hu] at hbelongs
    exact hbelongs.turn hlist

theorem deleteAllUserData_safe (hcall : (calls i).session? = none) (hI : Registered draw v) :
    (ownership draw calls).Safe (handleDrawn env draw) i (After fun _ _ => True)
      (Agent.deleteAllUserData (calls i).userId) v := by
  refine after_bind hI (listByUser_belongs hdraw hcall) fun sessions v₁ hI₁ hK₁ => ?_
  have hlasts : Lasts env draw calls fun v => ∀ session ∈ sessions, Belongs (calls i).userId session.id v :=
    fun v j q hq hv session hs => (hv session hs).turn hq
  refine (stage_safe hdraw hlasts hK₁ (Agent.deleteAll_about sessions) fun v q hK ⟨session, hs, hq⟩ => ?_).imp
    fun r _ _ => by cases r <;> trivial
  exact .about (session_none hcall) (hK session hs).2 hq

/-! ### All calls -/

omit hdraw in
theorem after_sess {D : Discipline ι Reply World} {h : Handler Reply World} {α : Type} {p : M SessionMemoryError α}
    {E : α → AgentView ι → Prop} (hp : D.Safe h i (After E) p v) : D.Safe h i (After E) (sess p) v :=
  hp.mapErr fun r _ hr => by cases r <;> exact hr

omit hdraw in
/-- A call that gives its result back. -/
theorem after_result {D : Discipline ι Reply World} {h : Handler Reply World} {ε α β : Type} {p : M ε α}
    (f : α → β) (hI : D.inv v) (hp : D.Safe h i (After fun _ _ => True) p v) :
    D.Safe h i (After fun _ _ => True) (p >>= fun a => .ret (f a)) v :=
  after_bind hI hp fun _ _ _ _ => Discipline.Safe.ret (E := After fun _ _ => True) (fun _ _ _ _ _ _ _ _ => trivial) trivial

theorem createSessionWithSkill_safe (hcall : (calls i).session? = none) (skillId : SkillId) (hI : Registered draw v) :
    (ownership draw calls).Safe (handleDrawn env draw) i (After fun _ _ => True)
      (agent.createSessionWithSkill (calls i).userId skillId) v := by
  have htrue : Lasts env draw calls fun _ => True := fun _ _ _ _ _ => trivial
  unfold Agent.createSessionWithSkill
  split
  · exact after_fail _
  · refine after_bind hI (stage_safe hdraw htrue trivial (request_only (A := Request.Free) trivial) fun v q _ hq =>
      .free (named_of_none hcall) hq) fun reg v₁ hI₁ _ => ?_
    split
    · exact after_fail _
    · exact after_sess (after_result _ hI₁ (createWith_safe hdraw hcall (some _) hI₁))

/-- A call that goes on with requests about its session. -/
theorem checked_safe {α : Type} {f : Unit → M AgentError α} (hcall : (calls i).session? = some sid)
    (hI : Registered draw v) (hv : Unasked i v) (hf : (f ()).Only (Request.Within (calls i).userId sid)) :
    (ownership draw calls).Safe (handleDrawn env draw) i (After fun _ => Belongs (calls i).userId sid)
      (sess (SessionManager.assertOwner (calls i).userId sid) >>= f) v :=
  after_bind hI (assertOwner_safe hdraw hcall hv) fun _ _ _ hK₁ => within_safe hdraw hcall hK₁ hf

theorem resume_safe {id : ApprovalId} {decision : ApprovalDecision} (hcall : (calls i).session? = some sid)
    (hI : Registered draw v) (hv : Unasked i v) : (ownership draw calls).Safe (handleDrawn env draw) i
      (After fun _ => Belongs (calls i).userId sid) (agent.resume (calls i).userId sid id decision) v := by
  refine after_bind hI (checked_safe hdraw hcall hI hv ?_) fun resolved v₁ _ hK₁ => within_safe hdraw hcall hK₁ ?_
  · refine Prog.Only.bind (Agent.sess_only (SessionMemory.getInterruptedState_only (.inr rfl))) fun existing => ?_
    cases existing with
    | none => trivial
    | some stateJson =>
      refine Prog.Only.bind (Agent.orJson_only stateJson) fun state => ?_
      split
      · trivial
      · split <;> trivial
  · exact Prog.Only.bind (Prog.Only.mono (twoWrites_only ..) fun _ h => h.within) fun _ =>
      agent.resumeAct_within resolved decision

theorem advancePhase_safe {output : String} (hcall : (calls i).session? = some sid) (hI : Registered draw v)
    (hv : Unasked i v) : (ownership draw calls).Safe (handleDrawn env draw) i
      (After fun _ => Belongs (calls i).userId sid) (agent.advancePhase (calls i).userId sid output) v := by
  refine checked_safe hdraw hcall hI hv ?_
  split
  · trivial
  · refine Prog.Only.bind agent.phaseGate_within fun gate => ?_
    cases gate with
    | none => exact Prog.Only.bind (agent.applyTransition_within ..) fun _ => trivial
    | some skillId => exact Prog.Only.bind (Agent.suspendAtGate_within skillId _) fun _ => trivial

/-- Every call keeps the terms. -/
theorem sessionProgram_safe (hI : Registered draw v) (hv : Unasked i v) :
    (ownership draw calls).Safe (handleDrawn env draw) i (After fun _ _ => True) (agent.sessionProgram (calls i)) v := by
  have hany : ∀ {α : Type} {p : M AgentError α} {E : α → AgentView ι → Prop} (f : α → SessionResult),
      (ownership draw calls).Safe (handleDrawn env draw) i (After E) p v →
      (ownership draw calls).Safe (handleDrawn env draw) i (After fun _ _ => True) (p >>= fun a => .ret (f a)) v :=
    fun f hp => after_result f hI (hp.imp fun r _ _ => by cases r <;> trivial)
  cases hcall : calls i with
  | createSession u =>
    obtain rfl : (calls i).userId = u := by rw [hcall]; rfl
    exact hany _ (after_sess (after_result _ hI (createWith_safe hdraw (by rw [hcall]; rfl) none hI)))
  | createSessionWithSkill u s =>
    obtain rfl : (calls i).userId = u := by rw [hcall]; rfl
    exact hany _ (createSessionWithSkill_safe hdraw agent (by rw [hcall]; rfl) s hI)
  | getSession u sid =>
    obtain rfl : (calls i).userId = u := by rw [hcall]; rfl
    exact hany _ (checked_safe hdraw (by rw [hcall]; rfl) hI hv (Agent.sess_only (query_only (.inr rfl))))
  | loadMessages u sid =>
    obtain rfl : (calls i).userId = u := by rw [hcall]; rfl
    exact hany _ (checked_safe hdraw (by rw [hcall]; rfl) hI hv (Agent.sess_only (query_only (.inr rfl))))
  | listSessions u =>
    obtain rfl : (calls i).userId = u := by rw [hcall]; rfl
    exact hany _ (listByUser_belongs hdraw (by rw [hcall]; rfl))
  | invoke u sid input => exact hany _ (invoke_confined hdraw agent hcall hI hv)
  | resume u sid id decision =>
    obtain rfl : (calls i).userId = u := by rw [hcall]; rfl
    exact hany _ (resume_safe hdraw agent (by rw [hcall]; rfl) hI hv)
  | advancePhase u sid output =>
    obtain rfl : (calls i).userId = u := by rw [hcall]; rfl
    exact hany _ (advancePhase_safe hdraw agent (by rw [hcall]; rfl) hI hv)
  | endSession u sid =>
    obtain rfl : (calls i).userId = u := by rw [hcall]; rfl
    refine hany (fun _ => .unit) (checked_safe hdraw (by rw [hcall]; rfl) hI hv ?_)
    exact Prog.Only.bind (Agent.sess_only (SessionMemory.updateStatus_only (.inl trivial) fun _ => .inr rfl)) fun _ =>
      request_only (.inr ⟨rfl, rfl⟩)
  | deleteAllUserData u =>
    obtain rfl : (calls i).userId = u := by rw [hcall]; rfl
    exact hany (fun _ => .unit) (deleteAllUserData_safe hdraw (by rw [hcall]; rfl) hI)

end Stages

end AgentVerse
