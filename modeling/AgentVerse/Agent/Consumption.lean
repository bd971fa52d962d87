import AgentVerse.Agent.OpeningOnce
import AgentVerse.Agent.Provenance
import AgentVerse.Agent.Spending

/-!
# An approval is consumed once

Concurrent resumes of one suspended session, in any interleaving of their requests. A resume reads the pending state
and clears it in two statements. As long as every clearing that the database accepts finds the approval still pending,
one resume at most gets past its clearing (`consumed_once`); two resumes that both read before either of them clears
both execute the pending calls (`consumed_twice`).
-/

namespace AgentVerse

open Effects

/-! ### Resumes of one approval -/

structure ResumeCall where
  userId : String
  decision : ApprovalDecision

variable {ι : Type}

/-- The resumes of session `sid` that answer the approval `id`. -/
def Agent.resumePool (agent : Agent) (sid : SessionId) (id : ApprovalId) (calls : ι → ResumeCall) (w : World) :
    Pool ι Reply World AgentError AgentOutput :=
  ⟨fun i => agent.resume (calls i).userId sid id (calls i).decision, ⟨w, []⟩⟩

/-- The session is suspended with `state`, whose approval id was drawn. -/
structure World.Suspended (w : World) (sid : SessionId) (state : InterruptedState) : Prop where
  stores : ∀ s, w.Stores sid s ↔ s = state
  drawn : state.approvalId < w.nextUuid

/-- The pending state of the session carries the approval `id`. -/
def World.carries (w : World) (sid : SessionId) (id : ApprovalId) : Prop :=
  (((w.store.row? sid).bind (·.interruptedState)).bind (·.fromStr.toOption)).map (·.approvalId) = some id

instance (w : World) (sid : SessionId) (id : ApprovalId) : Decidable (w.carries sid id) :=
  inferInstanceAs (Decidable (_ = _))

/-- `set_interrupted_state(session_id, None)`. -/
def Request.clearsPending (sid : SessionId) : Request → Bool
  | .sql (.updateInterruptedState s none) => s = sid
  | _ => false

/-- A clearing that the database accepts finds the approval still pending. -/
def FindsPending (env : Env) (sid : SessionId) (id : ApprovalId) (v : AgentView ι) (_ : ι) (q : Request) : Prop :=
  q.clearsPending sid = true → env.storeError v.state.steps = none → v.state.carries sid id

instance (env : Env) (sid : SessionId) (id : ApprovalId) (v : AgentView ι) (i : ι) (q : Request) :
    Decidable (FindsPending env sid id v i q) := by
  unfold FindsPending
  infer_instance

/-- The tasks of the calls that a decision on the state executes. -/
abbrev InterruptedState.decided (state : InterruptedState) (decision : ApprovalDecision) : List Dispatch :=
  (decidedCalls decision state.pendingCalls).map (·.task 0)

/-- A resume takes effect: it starts a tool or succeeds. -/
def Acts (P : Pool ι Reply World AgentError AgentOutput) (i : ι) : Prop :=
  Happened P.view i (fun x => x.1.dispatch?.isSome = true) ∨ ∃ out, (P.threads i).result? = some (.ok out)

/-- One resume at most takes effect, and it executes each of the calls it decides on at most once before it asks its
model. -/
structure ConsumedOnce [DecidableEq ι] (state : InterruptedState) (calls : ι → ResumeCall)
    (P : Pool ι Reply World AgentError AgentOutput) : Prop where
  one : ∀ i j, Acts P i → Acts P j → i = j
  executes : ∀ i, (executed (eventsOf i P.view.trace)).Subperm (state.decided (calls i).decision)

/-! ### Rows -/

section Rows

variable {env : Env} {w : World} {sid : SessionId}

theorem World.Suspended.awaited {state : InterruptedState} (h : w.Suspended sid state) : w.Stores sid state :=
  (h.stores state).mpr rfl

/-- An approval that the session carries is the one of a stored state. -/
theorem World.carries.stores {id : ApprovalId} (h : w.carries sid id) : ∃ s, w.Stores sid s ∧ s.approvalId = id := by
  unfold World.carries at h
  obtain ⟨s, hs, hid⟩ := Option.map_eq_some_iff.mp h
  obtain ⟨json, hjson, hread⟩ := Option.bind_eq_some_iff.mp hs
  obtain ⟨row, hrow, hpending⟩ := Option.bind_eq_some_iff.mp hjson
  refine ⟨s, ⟨row, List.mem_of_find?_eq_some hrow, Store.row?_id hrow, ?_⟩, hid⟩
  cases json with
  | printed s' =>
    rw [InterruptedState.fromStr_printed] at hread
    cases hread
    exact hpending
  | unreadable e => cases hread

/-- What is read of a session is stored. -/
theorem selected_stores {s : InterruptedState}
    (h : (handle env (.sql (.selectInterruptedState sid)) w).1 = .ok (some (some (.printed s)))) : w.Stores sid s := by
  cases hs : env.storeError w.steps with
  | some e => rw [handle_sql_error _ hs] at h; cases h
  | none =>
    rw [handle_sql_ok _ hs] at h
    obtain ⟨row, hrow, hpending⟩ := Option.map_eq_some_iff.mp (Except.ok.inj h)
    exact ⟨row, List.mem_of_find?_eq_some hrow, Store.row?_id hrow, hpending⟩

end Rows

/-! ### The invariant -/

variable {env : Env} {sid : SessionId} {state : InterruptedState} {v : AgentView ι} {i j : ι} {q : Request}

/-- A clearing that the database accepted. -/
def consumes (sid : SessionId) : Event → Bool
  | ⟨.sql (.updateInterruptedState s none), .ok _⟩ => s = sid
  | _ => false

/-- Thread `i` consumed the pending state. -/
def Consumed (sid : SessionId) (v : AgentView ι) (i : ι) : Prop := Happened v i fun x => consumes sid x = true

theorem eq_of_consumes {x : Event} (h : consumes sid x = true) :
    ∃ n, x = ⟨.sql (.updateInterruptedState sid none), .ok n⟩ := by
  unfold consumes at h
  split at h
  · cases of_decide_eq_true h
    exact ⟨_, rfl⟩
  · cases h

variable [DecidableEq ι]

/-- At most one resume has consumed the state, which is gone then for good, and only this one starts tools. -/
structure Consuming (sid : SessionId) (state : InterruptedState) (calls : ι → ResumeCall) (v : AgentView ι) : Prop where
  drawn : state.approvalId < v.state.nextUuid
  only : ∀ s, v.state.Stores sid s → s.approvalId = state.approvalId → s = state
  once : ∀ i j, Consumed sid v i → Consumed sid v j → i = j
  gone : ∀ i, Consumed sid v i → ∀ s, v.state.Stores sid s → s.approvalId ≠ state.approvalId
  acts : ∀ i, Happened v i (fun x => x.1.dispatch?.isSome = true) → Consumed sid v i
  executes : ∀ i, (executed (eventsOf i v.trace)).Subperm (state.decided (calls i).decision)

variable {calls : ι → ResumeCall}

/-- The terms of the resumes. They need to know nothing of each other. -/
def consumption (env : Env) (sid : SessionId) (state : InterruptedState) (calls : ι → ResumeCall) :
    Discipline ι Reply World :=
  ⟨Consuming sid state calls, FindsPending env sid state.approvalId, fun _ _ _ => True⟩

/-- A turn that writes no other state under the approval id, and starts tools only for the one that consumed the
state and within its decision. -/
theorem Consuming.turn (hI : Consuming sid state calls v) (hC : FindsPending env sid state.approvalId v j q)
    (hfresh : ∀ s, q.Plants sid s → s.approvalId ≠ state.approvalId)
    (hacts : q.dispatch?.isSome = true → Consumed sid v j)
    (hexecutes : (executed (eventsOf j (v.after (handle env) j q).trace)).Subperm
      (state.decided (calls j).decision)) :
    Consuming sid state calls (v.after (handle env) j q) := by
  have hstores : ∀ s, (handle env q v.state).2.Stores sid s → s.approvalId = state.approvalId → v.state.Stores sid s :=
    fun s hs hid => (handle_stores hs).resolve_right fun hplants => hfresh s hplants hid
  -- Who consumes the state is the first one, because the state was still there.
  have hfirst : consumes sid ⟨q, (handle env q v.state).1⟩ = true → (∀ i, ¬ Consumed sid v i) ∧
      ∀ s, ¬ (handle env q v.state).2.Stores sid s := by
    intro hc
    obtain ⟨n, hn⟩ := eq_of_consumes hc
    obtain rfl : q = .sql (.updateInterruptedState sid none) := congrArg Sigma.fst hn
    have hr : (handle env (.sql (.updateInterruptedState sid none)) v.state).1 = .ok n := eq_of_heq (Sigma.mk.inj hn).2
    refine ⟨fun i hi => ?_, cleared_stores hr⟩
    have hserved : env.storeError v.state.steps = none := by
      cases hs : env.storeError v.state.steps with
      | none => rfl
      | some e => rw [handle_sql_error _ hs] at hr; cases hr
    obtain ⟨s, hs, hid⟩ := (hC (decide_eq_true rfl) hserved).stores
    exact hI.gone i hi s hs hid
  exact {
    drawn := Nat.lt_of_lt_of_le hI.drawn (handle_nextUuid q v.state)
    only := fun s hs hid => hI.only s (hstores s hs hid) hid
    once := fun i k hi hk => by
      rcases happened_after.mp hi with hi | ⟨rfl, hc⟩
      · rcases happened_after.mp hk with hk | ⟨rfl, hc⟩
        · exact hI.once i k hi hk
        · exact absurd hi ((hfirst hc).1 i)
      · rcases happened_after.mp hk with hk | ⟨rfl, -⟩
        · exact absurd hk ((hfirst hc).1 k)
        · rfl
    gone := fun i hi s hs hid => by
      rcases happened_after.mp hi with hi | ⟨-, hc⟩
      · exact hI.gone i hi s (hstores s hs hid) hid
      · exact (hfirst hc).2 s hs
    acts := fun i hi => by
      rcases happened_after.mp hi with hi | ⟨rfl, hd⟩
      · exact (hI.acts i hi).after
      · exact (hacts hd).after
    executes := fun i => by
      by_cases hi : j = i
      · exact hi ▸ hexecutes
      · rw [View.after_trace, eventsOf_other hi]
        exact hI.executes i }

/-! ### What a resume executes -/

/-- Events after the first question to the model do not count. -/
theorem executed_append (t : List Event) (x : Event) :
    executed (t ++ [x]) = executed t ++ if t.any asksModel || asksModel x then [] else (ownTask x).toList := by
  unfold executed beforeModel
  induction t with
  | nil =>
    by_cases hx : asksModel x = true
    · simp [hx]
    · simp [hx, List.filterMap_cons]
      cases ownTask x <;> rfl
  | cons y t ih =>
    by_cases hy : asksModel y = true
    · simp [hy]
    · simp only [List.cons_append, List.takeWhile_cons, hy, List.any_cons, Bool.false_or] at ih ⊢
      simp only [Bool.not_false, if_true, List.filterMap_cons]
      cases ownTask y <;> simp [ih]

/-! ### The course of a resume -/

/-- What the environment answers: a state that is read under the approval id is the pending one, and other ids are
drawn. -/
structure Answers (sid : SessionId) (state : InterruptedState) (q : Request) (r : Reply q) : Prop where
  reads : ∀ s, (⟨q, r⟩ : Event) = ⟨.sql (.selectInterruptedState sid), .ok (some (some (.printed s)))⟩ →
    s.approvalId = state.approvalId → s = state
  draws : ∀ id, AgentVerse.draws id ⟨q, r⟩ → id ≠ state.approvalId

theorem Consuming.answers (hI : Consuming sid state calls v) (env : Env) (q : Request) :
    Answers sid state q (handle env q v.state).1 where
  reads s h hid := by
    obtain rfl : q = .sql (.selectInterruptedState sid) := congrArg Sigma.fst h
    exact hI.only s (selected_stores (eq_of_heq (Sigma.mk.inj h).2)) hid
  draws id h := fun heq => by
    have hdrawn : state.approvalId < v.state.nextUuid := hI.drawn
    rw [(draws_reply h).1, heq] at hdrawn
    exact Nat.lt_irrefl _ hdrawn

namespace Agent

/-- A resume that passes its checks read the pending state. -/
theorem resumeChecks_meets (userId : String) : (resumeChecks userId sid state.approvalId).Meets (Answers sid state)
    Request.Idle fun r => ∀ resolved, r = .ok resolved →
      resolved.state = state ∧ resolved.state.payload = .ok resolved.payload := by
  have hread : (sess (SessionMemory.getInterruptedState sid)).Meets (Answers sid state) Request.Idle fun r =>
      ∀ s, r = .ok (some (.printed s)) → s.approvalId = state.approvalId → s = state := by
    refine ⟨trivial, fun r hr => ?_⟩
    match r, hr with
    | .error e, _ => exact fun s h => by cases h
    | .ok none, _ => exact fun s h => by cases h
    | .ok (some none), _ => exact fun s h => by cases h
    | .ok (some (some (.unreadable e))), _ => exact fun s h => by cases h
    | .ok (some (some (.printed s))), hr =>
      intro s' h hid
      cases h
      exact hr.reads s rfl hid
  refine Prog.Meets.bind (P := AnyResult) (Prog.Meets.mono (sess_only (SessionManager.assertOwner_only trivial))
    (fun _ _ _ => trivial) (fun _ h => h) fun _ _ => trivial) (fun _ _ => ?_) fun e _ resolved h => by cases h
  refine Prog.Meets.bind hread (fun found hfound => ?_) fun e _ resolved h => by cases h
  match found, hfound with
  | none, _ => exact fun resolved h => by cases h
  | some (.unreadable e), _ => exact fun resolved h => by cases h
  | some (.printed s), hfound =>
    simp only [orJson, InterruptedState.fromStr_printed, Prog.ret_bind]
    split
    · exact fun resolved h => by cases h
    · rename_i hid
      cases hpay : s.payload with
      | error e => exact fun resolved h => by cases h
      | ok payload =>
        intro resolved h
        cases h
        exact ⟨hfound s rfl (by simpa using hid), hpay⟩

/-- A resumed run that is interrupted again is interrupted under another id. -/
theorem resumeAct_meets (agent : Agent) (resolved : Resolved) (decision : ApprovalDecision) :
    (agent.resumeAct sid resolved decision).Meets (Answers sid state)
      (fun q => ∀ s, q.Plants sid s → s.approvalId ≠ state.approvalId) AnyResult := by
  have hbarren : ∀ {ε α : Type} {p : M ε α}, p.Only Request.Barren → p.Meets (Answers sid state)
      (fun q => ∀ s, q.Plants sid s → s.approvalId ≠ state.approvalId) AnyResult := fun hp =>
    Prog.Meets.mono hp (fun _ _ _ => trivial) (fun _ h s hs => absurd hs (h sid s)) fun _ h => h
  have hcontinue : ∀ s messages, (agent.continueRun sid s messages).Meets (Answers sid state)
      (fun q => ∀ s, q.Plants sid s → s.approvalId ≠ state.approvalId) AnyResult := by
    intro s messages
    obtain ⟨kind, tools, n, hs, -⟩ := agent.strategyForResume_mayRun s.activeToolNames
    unfold continueRun
    rw [hs]
    refine Prog.Meets.bind (Prog.Meets.mono (agent.runStrategy_meets (W := fun _ => False)
      (fun q r _ => callsAvoid_false 1 q r) (fun _ _ _ _ _ _ h => h.elim) (fun _ _ _ _ _ _ _ _ _ _ h => h) tools n
      messages s.activeToolNames) (fun _ _ h => h) (fun q h s hs => absurd hs (h.1.barren sid s)) fun _ h => h)
      (fun outcome hout => ?_) fun _ _ => trivial
    cases outcome with
    | done text => trivial
    | interrupted i =>
      obtain ⟨policy, -, -, kind, pre, call, post, req, resp, hstopped, -, -⟩ := hout i rfl
      -- The id was drawn in this run, by the queue or, when it failed, by the hook.
      have hid : i.approvalId ≠ state.approvalId := by
        rcases hstopped.submitted with h | ⟨-, h⟩
        · exact h.draws i.approvalId rfl
        · exact h.draws i.approvalId rfl
      have hwrites : ∀ kind, (persistInterrupt sid (interruptedState i kind s.skillContext)).Meets (Answers sid state)
          (fun q => ∀ s, q.Plants sid s → s.approvalId ≠ state.approvalId) AnyResult := by
        intro kind
        refine Prog.Meets.mono (twoWrites_only ..) (fun _ _ _ => trivial) (fun q hq s' hs' => ?_) fun _ h => h
        have hstate : s' = interruptedState i kind s.skillContext := by
          simpa [JsonText.ofValue, eq_comm] using (hq.plants hs').2
        rw [hstate, approvalId_interruptedState]
        exact hid
      dsimp only
      unfold handleToolInterrupt
      cases i.kindJson.fromStr with
      | error e => trivial
      | ok kind => exact Prog.Meets.bind (hwrites kind) (fun _ _ => trivial) fun _ _ => trivial
  have hact : ∀ s history pending, (agent.resumeToolCallOrCheckpoint sid s decision history pending).Meets
      (Answers sid state) (fun q => ∀ s, q.Plants sid s → s.approvalId ≠ state.approvalId) AnyResult :=
    fun s history pending => Prog.Meets.bind
      (hbarren (Prog.Only.mono (agent.observation_only ..) fun _ h => h.barren)) (fun text _ => hcontinue s _)
      fun _ _ => trivial
  obtain ⟨s, payload⟩ := resolved
  unfold resumeAct
  cases s with
  | pendingPhaseGate id transitionJson =>
    exact hbarren (Prog.Only.mono (agent.resumePhaseGate_only (s := sid) transitionJson decision)
      fun _ h => h.ofTurn.barren)
  | pendingToolCall | pendingCheckpoint =>
    cases payload with
    | none => trivial
    | some p => exact hact _ _ _

end Agent

/-! ### The threads -/

/-- After the events `t`, what is `left` is within the budget, until the model is asked. -/
def Spared (budget left : List Dispatch) (t : List Event) : Prop :=
  t.any asksModel = true ∨ (executed t ++ left).Subperm budget

theorem executed_asked {budget : List Dispatch} {t : List Event} {x : Event}
    (hasked : (t.any asksModel || asksModel x) = true) (ht : (executed t).Subperm budget) :
    (executed (t ++ [x])).Subperm budget := by
  rwa [executed_append, if_pos hasked, List.append_nil]

/-- A request within the budget, or after the model was asked. -/
theorem Spared.append {budget left left' : List Dispatch} {t : List Event} (h : Spared budget left t)
    (ht : (executed t).Subperm budget) (hspend : spend q.ownTask? left = some left') (r : Reply q) :
    (executed (t ++ [⟨q, r⟩])).Subperm budget ∧ Spared budget left' (t ++ [⟨q, r⟩]) := by
  by_cases hasked : (t.any asksModel || asksModel ⟨q, r⟩) = true
  · exact ⟨executed_asked hasked ht, .inl (by simpa using hasked)⟩
  · have hbudget : (executed t ++ left).Subperm budget := h.resolve_left fun ht => hasked (by rw [ht]; rfl)
    have hperm : (executed (t ++ [⟨q, r⟩]) ++ left').Perm (executed t ++ left) := by
      rw [executed_append, if_neg hasked, List.append_assoc]
      exact (spend_perm hspend).append_left _
    have hsub : (executed (t ++ [⟨q, r⟩]) ++ left').Subperm budget := hperm.subperm.trans hbudget
    exact ⟨(List.sublist_append_left _ _).subperm.trans hsub, .inr hsub⟩

variable {ε α : Type} {p : M ε α}

theorem consumed_stable (i : ι) : (consumption env sid state calls).Stable (handle env) i fun v => Consumed sid v i :=
  fun _ _ _ _ _ _ _ h => h.after

theorem events_stable (i : ι) (K : List Event → Prop) :
    (consumption env sid state calls).Stable (handle env) i fun v => K (eventsOf i v.trace) := by
  intro v j q hj _ _ _ hK
  rw [View.after_trace, eventsOf_other hj]
  exact hK

/-- Once it has asked its model, a resume executes nothing more of its decision. -/
theorem asked_safe (hp : p.Meets (Answers sid state) (fun q => ∀ s, q.Plants sid s → s.approvalId ≠ state.approvalId)
    AnyResult) (hv : Consumed sid v i) (hasked : (eventsOf i v.trace).any asksModel = true) :
    (consumption env sid state calls).Safe (handle env) i (fun _ v => Consumed sid v i) p v := by
  refine Discipline.Safe.imp (fun _ _ h => h.2.1) (Discipline.Safe.of_spec hp
    ((consumed_stable i).and (events_stable i fun t => t.any asksModel = true)) ⟨hv, hasked⟩ ?_)
  rintro v q hI ⟨hv, hasked⟩ hC hfresh
  refine ⟨trivial, hI.turn hC hfresh (fun _ => hv) ?_, hI.answers env q, hv.after, ?_⟩
  · rw [View.after_trace, eventsOf_same]
    exact executed_asked (by rw [hasked]; rfl) (hI.executes i)
  · rw [View.after_trace, eventsOf_same, List.any_append, hasked]
    rfl

/-- A decision that takes effect. -/
theorem spending_safe {left : List Dispatch} (hp : p.Meets (Answers sid state)
      (fun q => ∀ s, q.Plants sid s → s.approvalId ≠ state.approvalId) AnyResult) (hspends : SpendsTasks p left)
    (hv : Consumed sid v i) (hleft : Spared (state.decided (calls i).decision) left (eventsOf i v.trace)) :
    (consumption env sid state calls).Safe (handle env) i (fun _ v => Consumed sid v i) p v := by
  induction p generalizing left v with
  | ret a => exact .ret (consumed_stable i) hv
  | fail e => exact .fail (consumed_stable i) hv
  | ask q k ih =>
    refine ⟨_, (consumed_stable i).and (events_stable i (Spared (state.decided (calls i).decision) left)), ⟨hv, hleft⟩,
      fun v' hI hK hC => ?_⟩
    obtain ⟨hv, hleft⟩ := hK
    have hrest := hp.2 _ (hI.answers env q)
    have hevents : eventsOf i (v'.after (handle env) i q).trace =
        eventsOf i v'.trace ++ [⟨q, (handle env q v'.state).1⟩] := by rw [View.after_trace, eventsOf_same]
    rcases hspends with hstop | ⟨left', hspend, hspends⟩
    · have hasked : ((eventsOf i v'.trace).any asksModel || asksModel ⟨q, (handle env q v'.state).1⟩) = true := by
        rw [asksModel, hstop, Bool.or_true]
      refine ⟨trivial, hI.turn hC hp.1 (fun _ => hv) (hevents ▸ executed_asked hasked (hI.executes i)), ?_⟩
      exact asked_safe hrest hv.after (by rw [hevents]; simpa using hasked)
    · obtain ⟨hexecutes, hspared⟩ := hleft.append (hI.executes i) hspend (handle env q v'.state).1
      refine ⟨trivial, hI.turn hC hp.1 (fun _ => hv) (hevents ▸ hexecutes), ?_⟩
      exact ih _ hrest (hspends _) hv.after (hevents ▸ hspared)

/-- Thread `i` has executed nothing yet. -/
def Idling (i : ι) (v : AgentView ι) : Prop := executed (eventsOf i v.trace) = []

theorem idling_stable (i : ι) : (consumption env sid state calls).Stable (handle env) i (Idling i) :=
  events_stable i fun t => executed t = []

/-- A request that starts nothing and suspends nothing. -/
theorem Idling.turn (hI : Consuming sid state calls v) (hv : Idling i v)
    (hC : FindsPending env sid state.approvalId v i q) (hbarren : q.Barren) (hd : q.dispatch? = none) :
    Consuming sid state calls (v.after (handle env) i q) ∧ Idling i (v.after (handle env) i q) := by
  have hidle : Idling i (v.after (handle env) i q) := by
    have htask : ownTask ⟨q, (handle env q v.state).1⟩ = none := by rw [ownTask, Request.ownTask?, hd]; rfl
    rw [Idling, View.after_trace, eventsOf_same, executed_append, hv, htask]
    simp
  refine ⟨hI.turn hC (fun s hs => absurd hs (hbarren sid s)) (fun h => ?_) ?_, hidle⟩
  · rw [hd] at h
    cases h
  · rw [hidle]
    exact List.nil_subperm

/-- The clearing of the state, and the write of the status after it. -/
theorem resumeClear_safe (hI : Consuming sid state calls v) (hv : Idling i v) :
    (consumption env sid state calls).Safe (handle env) i (After fun _ v => Consumed sid v i ∧ Idling i v)
      (Agent.resumeClear sid) v := by
  refine after_bind (E := fun _ v => Consumed sid v i ∧ Idling i v) hI ?_ fun _ v' _ hv' => ?_
  · refine ⟨Idling i, idling_stable i, hv, fun v' hI' hv' hC => ?_⟩
    obtain ⟨hinv, hidle⟩ := hv'.turn hI' hC (fun s st h => by cases h.2) rfl
    refine ⟨trivial, hinv, ?_⟩
    cases hr : (handle env (.sql (.updateInterruptedState sid none)) v'.state).1 with
    | error e => exact after_fail _
    | ok n =>
      have hconsumed : Consumed sid (v'.after (handle env) i (.sql (.updateInterruptedState sid none))) i :=
        happened_after.mpr (.inr ⟨rfl, by simp [consumes, hr]⟩)
      show Discipline.Safe _ _ _ _ (sess (SessionMemory.mustAffect sid n)) _
      unfold SessionMemory.mustAffect
      split
      · exact after_fail _
      · exact .ret ((consumed_stable i).and (idling_stable i)) ⟨hconsumed, hidle⟩
  · refine Discipline.Safe.imp (fun r _ h => ?_) (Discipline.Safe.of_only (A := fun q => q.Barren ∧ q.dispatch? = none)
      (Agent.sess_only (SessionMemory.updateStatus_only ⟨fun _ _ h => h, rfl⟩ fun _ => ⟨fun _ _ h => h, rfl⟩))
      ((consumed_stable i).and (idling_stable i)) hv' ?_)
    · cases r with
      | ok u => exact h
      | error e => trivial
    · rintro v q hI ⟨hconsumed, hidle⟩ hC ⟨hbarren, hd⟩
      obtain ⟨hinv, hidle⟩ := hidle.turn hI hC hbarren hd
      exact ⟨trivial, hinv, hconsumed.after, hidle⟩

/-- A resume succeeds only after it consumed the state. -/
theorem resume_safe_once (agent : Agent) (hI : Consuming sid state calls v) (hv : Idling i v) :
    (consumption env sid state calls).Safe (handle env) i (After fun _ v => Consumed sid v i)
      (agent.resume (calls i).userId sid state.approvalId (calls i).decision) v := by
  have hchecks : (consumption env sid state calls).Safe (handle env) i (After fun resolved v =>
      (resolved.state = state ∧ resolved.state.payload = .ok resolved.payload) ∧ Idling i v)
      (Agent.resumeChecks (calls i).userId sid state.approvalId) v := by
    refine Discipline.Safe.imp (fun r _ h => ?_) (Discipline.Safe.of_spec (Agent.resumeChecks_meets (calls i).userId)
      (idling_stable i) hv fun v q hI hidle hC hq => ?_)
    · cases r with
      | ok resolved => exact ⟨h.1 resolved rfl, h.2⟩
      | error e => trivial
    · obtain ⟨hinv, hidle⟩ := hidle.turn hI hC hq.barren hq.dispatch
      exact ⟨trivial, hinv, hI.answers env q, hidle⟩
  refine after_bind hI hchecks fun resolved v₁ hI₁ ⟨⟨hstate, hpay⟩, hidle₁⟩ => ?_
  refine after_bind hI₁ (resumeClear_safe hI₁ hidle₁) fun _ v₂ hI₂ ⟨hconsumed, hidle₂⟩ => ?_
  have hspends := agent.resumeAct_spends sid hpay (calls i).decision
  rw [hstate] at hspends
  refine Discipline.Safe.imp (fun r _ h => ?_) (spending_safe (agent.resumeAct_meets resolved (calls i).decision)
    hspends hconsumed (.inr ?_))
  · cases r with
    | ok out => exact h
    | error e => trivial
  · rw [show executed (eventsOf i v₂.trace) = [] from hidle₂]
    exact List.Subperm.refl _

/-! ### Runs -/

/-- In every interleaving of resumes of a suspended session in which every clearing that the database accepts finds the
approval still pending, one resume at most takes effect. -/
theorem consumed_once (env : Env) (agent : Agent) (sid : SessionId) (state : InterruptedState) (calls : ι → ResumeCall)
    (w : World) (h : w.Suspended sid state) (schedule : List ι)
    (hC : (agent.resumePool sid state.approvalId calls w).Conforms (handle env)
      (FindsPending env sid state.approvalId) schedule) :
    ConsumedOnce state calls ((agent.resumePool sid state.approvalId calls w).run (handle env) schedule) := by
  have hstart : Consuming sid state calls (agent.resumePool sid state.approvalId calls w).view := {
    drawn := h.drawn
    only := fun s hs _ => (h.stores s).mp hs
    once := fun i _ ⟨x, hx, _⟩ => by cases hx
    gone := fun i ⟨x, hx, _⟩ => by cases hx
    acts := fun i ⟨x, hx, _⟩ => by cases hx
    executes := fun _ => List.nil_subperm }
  have hsafe : ∀ i, (consumption env sid state calls).Safe (handle env) i (After fun _ v => Consumed sid v i)
      ((agent.resumePool sid state.approvalId calls w).threads i) (agent.resumePool sid state.approvalId calls w).view :=
    fun i => resume_safe_once agent hstart rfl
  have hinv := (Pool.run_safe (D := consumption env sid state calls) hstart hsafe hC).1
  have hacts : ∀ i, Acts ((agent.resumePool sid state.approvalId calls w).run (handle env) schedule) i →
      Consumed sid ((agent.resumePool sid state.approvalId calls w).run (handle env) schedule).view i := by
    rintro i (hd | ⟨out, hout⟩)
    · exact hinv.acts i hd
    · cases ht : ((agent.resumePool sid state.approvalId calls w).run (handle env) schedule).threads i with
      | ret out => exact (Pool.run_post (D := consumption env sid state calls) hstart hsafe hC i).1 out ht
      | fail e => rw [ht] at hout; cases hout
      | ask q k => rw [ht] at hout; cases hout
  exact ⟨fun i j hi hj => hinv.once i j (hacts i hi) (hacts j hj), hinv.executes⟩

/-- A deletion that waits for its approval. -/
def pendingDelete : InterruptedState :=
  .pendingToolCall 1 (.ofValue (.toolApproval "file_delete" .null)) (.ofValue [.ofText .user ""])
    (.ofValue [⟨"file_delete", "file_delete", .null⟩]) [] none

/-- A session that is suspended with a pending deletion. -/
def World.deleting : World :=
  { World.fresh ⟨[]⟩ 0 with
    store := ⟨[{ SessionMemory.newRow 0 "u" 0 none with
      status := .interrupted, interruptedState := some (.ofValue pendingDelete) }], [], 0⟩
    nextUuid := 2 }

/-- Two approvals of the same request. -/
def twoApprovals : Bool → ResumeCall := fun _ => ⟨"u", .approved⟩

theorem consumed_once_in_turn : ConsumedOnce pendingDelete twoApprovals
    ((Agent.plain.resumePool 0 1 twoApprovals .deleting).run (handle .answering)
      ([true, false, false, false] ++ List.replicate 20 true ++ List.replicate 20 false)) :=
  consumed_once .answering .plain 0 pendingDelete twoApprovals .deleting
    ⟨fun s => by simp [World.Stores, World.deleting, JsonText.ofValue, SessionMemory.newRow, eq_comm], by decide⟩ _
    (by decide +kernel)

/-- Two resumes that read the pending state before either of them clears it both delete the file. -/
theorem consumed_twice : ¬ ConsumedOnce pendingDelete twoApprovals
    ((Agent.plain.resumePool 0 1 twoApprovals .deleting).run (handle .answering)
      ([false, false, true, true] ++ List.replicate 20 false ++ List.replicate 20 true)) := by
  intro h
  have hacts : ∀ i, ∃ x ∈ ((Agent.plain.resumePool 0 1 twoApprovals .deleting).run (handle .answering)
      ([false, false, true, true] ++ List.replicate 20 false ++ List.replicate 20 true)).view.trace,
        x.1 = i ∧ x.2.1.dispatch?.isSome = true := by decide +kernel
  cases h.one false true (.inl (hacts false)) (.inl (hacts true))

end AgentVerse
