import AgentVerse.Agent.InvokeReplies
import AgentVerse.Effects.Notes

/-!
# The opening context is used once

Every invocation keeps the terms of `openingOnce`. If no invocation looks for the context while another one is about to
clear it, and nothing that the environment answers spoils an invocation that cleared it, then exactly one recorded turn
carries it (`opening_used_once`). Otherwise it is lost or used twice (`opening_misused`).
-/

namespace AgentVerse

open Effects

variable {ι : Type} {env : Env} {sid : SessionId} {ctx : String} {calls : ι → TurnCall} {v v' : AgentView ι} {i j : ι}
  {q : Request}

/-! ### What a thread knows -/

/-- Nothing that concerns thread `i` happened between two views. -/
structure Unmoved (sid : SessionId) (ctx : String) (calls : ι → TurnCall) (i : ι) (v v' : AgentView ι) : Prop where
  took : Took sid v i → Took sid v' i
  asked : AskedClear sid v' i ↔ AskedClear sid v i
  cleared : Cleared sid v' i ↔ Cleared sid v i
  recorded : Recorded sid ctx (calls i) v' i ↔ Recorded sid ctx (calls i) v i
  someone : (∃ j, Cleared sid v j) → ∃ j, Cleared sid v' j

theorem unmoved_other (hj : j ≠ i) : Unmoved sid ctx calls i v (v.after (handle env) j q) where
  took := Happened.after
  asked := happened_other hj
  cleared := happened_other hj
  recorded := happened_other hj
  someone h := h.imp fun _ hk => hk.after

/-- The requests of a thread between those that matter. -/
def Request.Between (sid : SessionId) (q : Request) : Prop := q.Idle ∨ q.Aside sid

theorem Request.Between.ofTurns (hq : q.Between sid) : OfTurns sid ctx calls v i q := by
  rcases hq with hq | hq
  · cases q with
    | sql st =>
      cases st with
      | selectPhaseOpening s =>
        by_cases hs : s = sid
        · subst hs
          exact .look
        · exact .aside hs
      | _ => first | exact .aside trivial | exact hq.elim
    | _ => exact .aside trivial
  · exact .aside hq

theorem Request.Between.unmoved (hq : q.Between sid) : Unmoved sid ctx calls i v (v.after (handle env) j q) := by
  have hevents : ∀ r : Reply q, q.asksClear sid = false ∧ clearsContext sid ⟨q, r⟩ = false ∧
      recordsContext sid ctx (calls i) ⟨q, r⟩ = false := by
    intro r
    rcases hq with hq | hq
    · cases q with
      | sql st => cases st <;> first | exact ⟨rfl, rfl, rfl⟩ | exact hq.elim
      | _ => exact ⟨rfl, rfl, rfl⟩
    · exact (hq.events ctx (calls i) r).2
  obtain ⟨hask, hclear, hrecord⟩ := hevents (handle env q v.state).1
  exact {
    took := Happened.after
    asked := happened_not (by simp [hask])
    cleared := happened_not (by simp [hclear])
    recorded := happened_not (by simp [hrecord])
    someone := fun h => h.imp fun _ hk => hk.after }

/-- Thread `i` has not tried to clear the context and recorded no turn with it. -/
def Fresh (sid : SessionId) (ctx : String) (calls : ι → TurnCall) (i : ι) (v : AgentView ι) : Prop :=
  ¬ AskedClear sid v i ∧ ¬ Recorded sid ctx (calls i) v i

/-- Thread `i` has cleared the context and has to record its turn. -/
def Carries (sid : SessionId) (ctx : String) (calls : ι → TurnCall) (i : ι) (v : AgentView ι) : Prop :=
  Cleared sid v i ∧ ¬ Recorded sid ctx (calls i) v i

/-- The context is used: by a turn of thread `i`, or by someone else. -/
def Settled (sid : SessionId) (ctx : String) (calls : ι → TurnCall) (used : Prop) (i : ι) (v : AgentView ι) : Prop :=
  (Cleared sid v i → Recorded sid ctx (calls i) v i) ∧ (used → ∃ j, Cleared sid v j)

theorem Cleared.asked (h : Cleared sid v i) : AskedClear sid v i := h.mono fun x hx => by
  obtain ⟨q, r⟩ := x
  cases q with
  | sql st => cases st <;> cases r <;> first | exact hx | cases hx
  | _ => cases hx

/-- A property of thread `i` that only what concerns the thread can change. -/
def Steady (sid : SessionId) (ctx : String) (calls : ι → TurnCall) (i : ι) (K : AgentView ι → Prop) : Prop :=
  ∀ v v', Unmoved sid ctx calls i v v' → K v → K v'

theorem Steady.stable {K : AgentView ι → Prop} (hK : Steady sid ctx calls i K) :
    (openingOnce sid ctx calls).Stable (handle env) i K :=
  fun v _ _ hj _ _ _ => hK v _ (unmoved_other hj)

theorem fresh_steady : Steady sid ctx calls i (Fresh sid ctx calls i) := fun _ _ h hK =>
  ⟨fun hx => hK.1 (h.asked.mp hx), fun hx => hK.2 (h.recorded.mp hx)⟩

theorem carries_steady : Steady sid ctx calls i (Carries sid ctx calls i) := fun _ _ h hK =>
  ⟨h.cleared.mpr hK.1, fun hx => hK.2 (h.recorded.mp hx)⟩

theorem settled_steady {used : Prop} : Steady sid ctx calls i (Settled sid ctx calls used i) := fun _ _ h hK =>
  ⟨fun hx => h.recorded.mpr (hK.1 (h.cleared.mp hx)), fun hu => h.someone (hK.2 hu)⟩

theorem Steady.and {K K' : AgentView ι → Prop} (hK : Steady sid ctx calls i K) (hK' : Steady sid ctx calls i K') :
    Steady sid ctx calls i fun v => K v ∧ K' v :=
  fun v v' h hv => ⟨hK v v' h hv.1, hK' v v' h hv.2⟩

theorem steady_const (p : Prop) : Steady sid ctx calls i fun _ : AgentView ι => p := fun _ _ _ h => h

/-- Requests between those that matter change nothing that a thread knows. -/
theorem between_safe {ε α : Type} {p : M ε α} {K : AgentView ι → Prop} (hK : Steady sid ctx calls i K) (hv : K v)
    (hp : p.Only (Request.Between sid)) :
    (openingOnce sid ctx calls).Safe (handle env) i (fun _ v => K v) p v :=
  Discipline.Safe.of_only hp hK.stable hv fun _ _ hI hKv hC hq =>
    ⟨hq.ofTurns, hI.turn hC hq.ofTurns, hK _ _ hq.unmoved hKv⟩

/-! ### The stages of an invocation -/

/-- What a thread knows after a stage that ended well. -/
def After {ε α : Type} (E : α → AgentView ι → Prop) : Except ε α → AgentView ι → Prop
  | .ok a, v => E a v
  | .error _, _ => True

theorem after_ret {ε α : Type} {E : α → AgentView ι → Prop} {a : α} (hE : Steady sid ctx calls i (E a)) (hv : E a v) :
    (openingOnce sid ctx calls).Safe (handle env) i (After E) (.ret a : M ε α) v :=
  Discipline.Safe.ret hE.stable hv

theorem after_fail {ε α : Type} {h : Handler Reply World} {D : Discipline ι Reply World} {E : α → AgentView ι → Prop}
    (e : ε) : D.Safe h i (After E) (.fail e : M ε α) v :=
  Discipline.Safe.fail (fun _ _ _ _ _ _ _ _ => trivial) trivial

theorem after_bind {ε α β : Type} {h : Handler Reply World} {D : Discipline ι Reply World} {p : M ε α} {f : α → M ε β}
    {E : α → AgentView ι → Prop} {E' : β → AgentView ι → Prop} (hI : D.inv v) (hp : D.Safe h i (After E) p v)
    (hf : ∀ a v', D.inv v' → E a v' → D.Safe h i (After E') (f a) v') : D.Safe h i (After E') (p >>= f) v :=
  Discipline.Safe.bind hI hp hf fun e _ _ _ => after_fail e

/-- A stage that only asks requests between those that matter. -/
theorem after_between {ε α : Type} {p : M ε α} {K : AgentView ι → Prop} (hK : Steady sid ctx calls i K) (hv : K v)
    (hp : p.Only (Request.Between sid)) :
    (openingOnce sid ctx calls).Safe (handle env) i (After fun _ => K) p v :=
  (between_safe hK hv hp).imp fun r _ h => by
    cases r with
    | ok a => exact h
    | error e => trivial

/-- What a thread knows after its look for a context. -/
structure Looked (sid : SessionId) (ctx : String) (calls : ι → TurnCall) (used : Prop) (i : ι) (r : Option String)
    (v : AgentView ι) : Prop where
  fresh : Fresh sid ctx calls i v
  found : ∀ c, r = some c → c = ctx ∧ Took sid v i
  missed : r = none → used → ∃ j, Cleared sid v j

theorem looked_steady {used : Prop} {r : Option String} : Steady sid ctx calls i (Looked sid ctx calls used i r) :=
  fun _ _ h hK => {
    fresh := fresh_steady _ _ h hK.fresh
    found := fun c hc => ⟨(hK.found c hc).1, h.took (hK.found c hc).2⟩
    missed := fun hr hu => h.someone (hK.missed hr hu) }

variable (agent : Agent)

/-- The look for a context. -/
theorem phaseOpening_safe (hv : Fresh sid ctx calls i v) :
    (openingOnce sid ctx calls).Safe (handle env) i (After (Looked sid ctx calls agent.skills.isSome i))
      (agent.phaseOpening sid) v := by
  unfold Agent.phaseOpening
  by_cases hskills : agent.skills.isSome = true
  · rw [if_pos hskills]
    have hlook : ∀ v : AgentView ι, OfTurns sid ctx calls v i (.sql (.selectPhaseOpening sid)) := fun _ => .look
    refine ⟨_, fresh_steady.stable, hv, fun v' hI hK hC => ⟨hlook v', hI.turn hC (hlook v'), ?_⟩⟩
    have hbetween : Request.Between sid (.sql (.selectPhaseOpening sid)) := .inl trivial
    have hfresh : Fresh sid ctx calls i (v'.after (handle env) i (.sql (.selectPhaseOpening sid))) :=
      fresh_steady _ _ hbetween.unmoved hK
    have hcolumn : (v'.after (handle env) i (.sql (.selectPhaseOpening sid))).state.opening sid = v'.state.opening sid :=
      opening_keeps (Request.Idle.keeps (q := .sql (.selectPhaseOpening sid)) trivial) v'.state
    cases hr : (handle env (.sql (.selectPhaseOpening sid)) v'.state).1 with
    | error e => exact after_fail _
    | ok row =>
      cases row with
      | none => exact after_fail _
      | some c =>
        have hc : v'.state.opening sid = c := opening_read hr
        cases c with
        | none =>
          refine after_ret looked_steady ⟨hfresh, fun c hc => (nomatch hc), fun _ _ => ?_⟩
          exact (hI.clearing hc).imp fun _ hk => hk.after
        | some c =>
          refine after_ret looked_steady ⟨hfresh, fun c' hc' => ?_, fun h => nomatch h⟩
          obtain rfl := Option.some.inj hc'
          refine ⟨?_, happened_after.mpr (.inr ⟨rfl, by simp [takesContext, hr]⟩)⟩
          rcases hI.stored with hs | hs
          · exact Option.some.inj (hc.symm.trans hs)
          · rw [hs] at hc
            cases hc
  · rw [if_neg hskills]
    exact after_ret looked_steady ⟨hv, fun c hc => (nomatch hc), fun _ hu => absurd hu hskills⟩

/-- The clearing of a context that was found. -/
theorem clearContext_safe (hv : Fresh sid ctx calls i v ∧ Took sid v i) :
    (openingOnce sid ctx calls).Safe (handle env) i (After fun _ => Carries sid ctx calls i)
      (sess (SessionMemory.setPhaseOpeningContext sid none)) v := by
  have hsteady : Steady sid ctx calls i fun v => Fresh sid ctx calls i v ∧ Took sid v i :=
    fresh_steady.and fun _ _ h hK => h.took hK
  refine ⟨_, hsteady.stable, hv, fun v' hI' hK hC => ?_⟩
  have hclear : OfTurns sid ctx calls v' i (.sql (.updatePhaseOpening sid none)) := .clear hK.2 hK.1.1
  refine ⟨hclear, hI'.turn hC hclear, ?_⟩
  cases hr : (handle env (.sql (.updatePhaseOpening sid none)) v'.state).1 with
  | error e => exact after_fail _
  | ok n =>
    have hcarries : Carries sid ctx calls i (v'.after (handle env) i (.sql (.updatePhaseOpening sid none))) := by
      refine ⟨happened_after.mpr (.inr ⟨rfl, by simp [clearsContext, hr]⟩), fun hrec => hK.1.2 ?_⟩
      exact (happened_not (by simp [recordsContext])).mp hrec
    exact after_between carries_steady hcarries (Agent.sess_only (SessionMemory.mustAffect_only sid n))

/-- What an invocation knows about its input. -/
structure Effective (sid : SessionId) (ctx : String) (calls : ι → TurnCall) (used : Prop) (input : String) (i : ι)
    (effective : String) (v : AgentView ι) : Prop where
  known : effective = ctx ++ "\n\n" ++ input ∧ Carries sid ctx calls i v ∨
    effective = input ∧ Fresh sid ctx calls i v
  missed : used → ∃ j, Cleared sid v j

theorem effective_steady {used : Prop} {input effective : String} :
    Steady sid ctx calls i (Effective sid ctx calls used input i effective) := fun _ _ h hK => {
  known := hK.known.imp (fun hk => ⟨hk.1, carries_steady _ _ h hk.2⟩) fun hk => ⟨hk.1, fresh_steady _ _ h hk.2⟩
  missed := fun hu => h.someone (hK.missed hu) }

/-- The history and the effective input. -/
theorem openingContext_safe {userId input : String} (hI : Opening sid ctx calls v) (hv : Fresh sid ctx calls i v) :
    (openingOnce sid ctx calls).Safe (handle env) i
      (After fun x => Effective sid ctx calls agent.skills.isSome input i x.2)
      (agent.openingContext userId sid input) v := by
  refine after_bind hI (phaseOpening_safe agent hv) fun r v' hI' hlooked => ?_
  cases r with
  | some c =>
    obtain ⟨rfl, htook⟩ := hlooked.found c rfl
    have hsteady : Steady sid c calls i fun v => Fresh sid c calls i v ∧ Took sid v i :=
      fresh_steady.and fun _ _ h hK => h.took hK
    refine after_bind hI' (after_between hsteady ⟨hlooked.fresh, htook⟩ (request_only (.inl trivial)))
      fun _ v'' hI'' hK => ?_
    refine after_bind hI'' (clearContext_safe hK) fun _ v₃ _ hcarries => ?_
    exact after_ret effective_steady ⟨.inl ⟨rfl, hcarries⟩, fun _ => ⟨i, hcarries.1⟩⟩
  | none =>
    have hready : Effective sid ctx calls agent.skills.isSome input i input v' :=
      ⟨.inr ⟨rfl, hlooked.fresh⟩, hlooked.missed rfl⟩
    have hcache : (Agent.getCacheMemory userId sid).Only (Request.Between sid) := by
      refine ⟨.inl trivial, fun r _ => ?_⟩
      cases r with
      | some messages => trivial
      | none =>
        exact Prog.Only.bind (Agent.sess_only (query_only (.inl trivial))) fun _ =>
          Prog.Only.bind (request_only (.inl trivial)) fun _ => trivial
    exact after_bind hI' (after_between effective_steady hready hcache) fun history v'' _ hK => after_ret effective_steady hK

/-- A turn with the plain input does not carry the context. -/
theorem recordsContext_plain {userId input response : String} {now : Int} (hcall : calls i = .invoke userId sid input) :
    recordsContext sid ctx (calls i)
      ⟨.sql (.appendMessages sid [.ofText .user input, .ofText .assistant response] now), .ok ()⟩ = false := by
  have hne : Message.ofText .user input ≠ Message.ofText .user (ctx ++ "\n\n" ++ input) := by
    intro heq
    have htext : input = ctx ++ "\n\n" ++ input := by simpa [Message.ofText] using heq
    have hlen := congrArg String.length htext
    simp only [String.length_append] at hlen
    have htwo : "\n\n".length = 2 := rfl
    omega
  simp [recordsContext, hcall, hne]

/-- The recording of a turn. -/
theorem appendTurn_safe {used : Prop} {userId input effective response : String}
    (hcall : calls i = .invoke userId sid input) (hI : Opening sid ctx calls v)
    (hv : Effective sid ctx calls used input i effective v) :
    (openingOnce sid ctx calls).Safe (handle env) i (After fun _ => Settled sid ctx calls used i)
      (sess (SessionMemory.appendTurn sid (.ofText .user effective) (.ofText .assistant response))) v := by
  unfold sess SessionMemory.appendTurn SessionMemory.append
  rw [Prog.mapErr_bind]
  refine after_bind hI (after_between effective_steady hv (Prog.Only.mapErr (query_only (.inl trivial))))
    fun session v₁ hI₁ hK₁ => ?_
  cases session with
  | none => exact after_fail _
  | some session =>
    dsimp only
    rw [Prog.mapErr_bind]
    refine after_bind hI₁ (after_between effective_steady hK₁ (Prog.Only.mapErr (nowTimestamp_only (.inl trivial))))
      fun now v₂ hI₂ hK₂ => ?_
    refine ⟨_, effective_steady.stable, hK₂, fun v₃ hI₃ hK₃ hC => ?_⟩
    have hrecord : OfTurns sid ctx calls v₃ i
        (.sql (.appendMessages sid [.ofText .user effective, .ofText .assistant response] now)) := by
      refine .record fun hrec => ?_
      rcases hK₃.known with ⟨-, hcarries⟩ | ⟨rfl, -⟩
      · exact hcarries
      · rw [recordsContext_plain hcall] at hrec
        cases hrec
    refine ⟨hrecord, hI₃.turn hC hrecord, ?_⟩
    cases hr : (handle env (.sql (.appendMessages sid [.ofText .user effective, .ofText .assistant response] now))
        v₃.state).1 with
    | error e => exact after_fail _
    | ok u =>
      refine after_ret settled_steady ⟨fun hcleared => ?_, fun hu => (hK₃.missed hu).imp fun _ hk => hk.after⟩
      have hcleared : Cleared sid v₃ i := (happened_not (by simp [clearsContext])).mp hcleared
      rcases hK₃.known with ⟨rfl, -⟩ | ⟨-, hfresh⟩
      · refine happened_after.mpr (.inr ⟨rfl, ?_⟩)
        simp [recordsContext, hcall, hr]
      · exact absurd hcleared.asked hfresh.1

theorem keepTurn_safe {used : Prop} {userId input effective response : String}
    (hcall : calls i = .invoke userId sid input) (hI : Opening sid ctx calls v)
    (hv : Effective sid ctx calls used input i effective v) :
    (openingOnce sid ctx calls).Safe (handle env) i (After fun _ => Settled sid ctx calls used i)
      (agent.keepTurn userId sid effective response) v := by
  refine after_bind hI (appendTurn_safe hcall hI hv) fun _ v' hI' hK => ?_
  refine after_bind hI' (after_between settled_steady hK (request_only (.inl trivial))) fun _ v'' hI'' hK' => ?_
  dsimp only
  split
  · exact after_bind hI'' (after_between settled_steady hK' (request_only (.inl trivial))) fun _ v₃ _ hK'' =>
      after_ret settled_steady hK''
  · exact after_ret settled_steady hK'

/-- What an invocation of the session leaves. -/
def Delivered (sid : SessionId) (ctx : String) (calls : ι → TurnCall) (used : Prop) (i : ι) :
    AgentOutput → AgentView ι → Prop
  | .done _, v => Settled sid ctx calls used i v
  | .interrupted .., _ => True

theorem delivered_steady {used : Prop} (out : AgentOutput) : Steady sid ctx calls i (Delivered sid ctx calls used i out) := by
  cases out with
  | done text => exact settled_steady
  | interrupted id kind => exact fun _ _ _ _ => trivial

theorem invoke_settles {userId input : String} (hcall : calls i = .invoke userId sid input)
    (hI : Opening sid ctx calls v) (hv : Fresh sid ctx calls i v) :
    (openingOnce sid ctx calls).Safe (handle env) i (After (Delivered sid ctx calls agent.skills.isSome i))
      (agent.invoke userId sid input) v := by
  refine after_bind (E := fun (p : Agent.Prepared) => Effective sid ctx calls agent.skills.isSome input i p.input) hI ?_
    fun p v' hI' hready => ?_
  · refine after_bind hI (after_between fresh_steady hv
      (Agent.sess_only (SessionManager.assertOwner_only (.inl trivial)))) fun _ v₁ hI₁ hK₁ => ?_
    refine after_bind hI₁ (openingContext_safe agent hI₁ hK₁) fun x v₂ hI₂ hK₂ => ?_
    refine after_bind hI₂ (after_between effective_steady hK₂ ?_) fun y v₃ _ hK₃ => after_ret effective_steady hK₃
    exact Prog.Only.mono (agent.resolveSkill_binds input) fun q hq => by
      rcases hq with hq | ⟨x, rfl⟩
      · exact .inl hq.idle
      · exact .inr trivial
  · refine after_bind hI' (after_between effective_steady hready ?_) fun outcome v'' hI'' hready' => ?_
    · exact Prog.Only.mono (agent.runPrepared_works userId p) fun q hq => hq.imp Request.Reads.idle Request.OfStrategy.aside
    · cases outcome with
      | done text =>
        refine (keepTurn_safe agent hcall hI'' hready').imp fun r v h => ?_
        cases r with
        | error e => trivial
        | ok out => cases out <;> first | exact h | trivial
      | interrupted interrupt =>
        dsimp only
        unfold Agent.handleToolInterrupt
        split
        · exact after_fail _
        · refine after_bind hI'' (after_between (steady_const True) trivial (Prog.Only.mono (twoWrites_only ..) ?_))
            fun _ v₃ _ _ => after_ret (delivered_steady _) trivial
          exact fun q hq => .inr hq.aside


/-! ### Calls and runs -/

/-- A call that leaves the opening context of the session alone. -/
theorem besides_safe {p : M AgentError AgentOutput} (hv : Fresh sid ctx calls i v)
    (hp : p.Only fun q => q.Between sid ∨ ∃ s x y, q = .sql (.updatePhaseTransition s x y)) :
    (openingOnce sid ctx calls).Safe (handle env) i (fun _ v => Fresh sid ctx calls i v) p v := by
  refine Discipline.Safe.of_only hp fresh_steady.stable hv fun v q hI hKv hC hq => ?_
  have hbetween : q.Between sid := by
    rcases hq with hq | ⟨s, x, y, rfl⟩
    · exact hq
    · exact .inr hC
  exact ⟨hbetween.ofTurns, hI.turn hC hbetween.ofTurns, fresh_steady _ _ hbetween.unmoved hKv⟩

theorem Request.OfCall.besides {s : SessionId} (hq : q.OfCall s) (hs : s ≠ sid) :
    q.Between sid ∨ ∃ s x y, q = .sql (.updatePhaseTransition s x y) := by
  rcases hq with hq | ⟨x, status, hq⟩
  · cases q with
    | sql st =>
      cases st with
      | updatePhaseTransition s' x y => exact .inr ⟨s', x, y, rfl⟩
      | updatePhaseOpening s' x => exact .inl (.inr (by rw [hq]; exact hs))
      | appendMessages s' ms now => exact .inl (.inr (by rw [hq]; exact hs))
      | updateSkillContext s' x => exact .inl (.inr trivial)
      | _ => exact .inl (.inl (hq.resolve_right fun h => h))
    | _ => exact .inl (hq.imp_right Request.OfStrategy.aside)
  · exact .inl (.inr hq.aside)

theorem Request.OfResume.besides {s : SessionId} (hq : q.OfResume s) :
    q.Between sid ∨ ∃ s x y, q = .sql (.updatePhaseTransition s x y) := by
  rcases hq with hq | hq | ⟨x, status, hq⟩
  · exact .inl (.inr hq.aside)
  · rcases hq with hq | ⟨x, y, rfl⟩
    · exact .inl (.inl hq.idle)
    · exact .inr ⟨s, x, y, rfl⟩
  · exact .inl (.inr hq.aside)

/-- What a call leaves: only an invocation of the session clears the context, and one that ended with a text has
recorded it. -/
structure TurnCall.Leaves (agent : Agent) (sid : SessionId) (ctx : String) (calls : ι → TurnCall) (i : ι)
    (r : Except AgentError AgentOutput) (v : AgentView ι) : Prop where
  invoked : Cleared sid v i → ∃ userId input, calls i = .invoke userId sid input
  recorded : ∀ text, r = .ok (.done text) → Cleared sid v i → Recorded sid ctx (calls i) v i
  used : ∀ text, r = .ok (.done text) → ∀ userId input, calls i = .invoke userId sid input → agent.skills.isSome →
    ∃ j, Cleared sid v j

theorem turnProgram_safe (hI : Opening sid ctx calls v) (hv : Fresh sid ctx calls i v) :
    (openingOnce sid ctx calls).Safe (handle env) i (TurnCall.Leaves agent sid ctx calls i)
      (agent.turnProgram (calls i)) v := by
  have hbesides : ∀ {p : M AgentError AgentOutput}, (∀ userId input, calls i ≠ .invoke userId sid input) →
      (p.Only fun q => q.Between sid ∨ ∃ s x y, q = .sql (.updatePhaseTransition s x y)) →
      (openingOnce sid ctx calls).Safe (handle env) i (TurnCall.Leaves agent sid ctx calls i) p v :=
    fun hother hp => (besides_safe hv hp).imp fun r v hfresh => {
      invoked := fun hc => absurd hc.asked hfresh.1
      recorded := fun _ _ hc => absurd hc.asked hfresh.1
      used := fun _ _ userId input hcall => absurd hcall (hother userId input) }
  cases hcall : calls i with
  | resume userId s approvalId decision =>
    exact hbesides (fun userId' input h => by rw [hcall] at h; cases h)
      (Prog.Only.mono (agent.resume_resumes ..) fun _ hq => hq.besides)
  | invoke userId s input =>
    by_cases hs : s = sid
    · subst hs
      refine (invoke_settles agent hcall hI hv).imp fun r v h => {
        invoked := fun _ => ⟨userId, input, hcall⟩
        recorded := fun text hr => by subst hr; exact h.1
        used := fun text hr _ _ _ hused => by subst hr; exact h.2 hused }
    · refine hbesides (fun userId' input' h => ?_) (Prog.Only.mono (agent.invoke_only ..) fun _ hq => hq.besides hs)
      rw [hcall] at h
      cases h
      exact hs rfl

section Runs

variable [DecidableEq ι]

/-- Invocations and resumptions that have not begun. -/
def Agent.turnPool (agent : Agent) (calls : ι → TurnCall) (w : World) : Pool ι Reply World AgentError AgentOutput :=
  ⟨fun i => agent.turnProgram (calls i), ⟨w, []⟩⟩

/-- The context is used once: no two recorded turns carry it, it is there until one does as soon as all calls are
through, and a call that failed did not take it. -/
structure UsedOnce (agent : Agent) (sid : SessionId) (ctx : String) (calls : ι → TurnCall)
    (P : Pool ι Reply World AgentError AgentOutput) : Prop where
  atMostOnce : (recordedTurns sid ctx calls P.view).length ≤ 1
  settled : (∀ i, ∀ q k, P.threads i ≠ .ask q k) →
    P.view.state.opening sid = some ctx ∧ recordedTurns sid ctx calls P.view = [] ∧
        (agent.skills.isSome → ∀ i userId input text, calls i = .invoke userId sid input →
          P.threads i ≠ .ret (.done text)) ∨
      P.view.state.opening sid = none ∧ (recordedTurns sid ctx calls P.view).length = 1
  failed : ∀ i e, P.threads i = .fail e → ¬ Cleared sid P.view i

theorem Cleared.turns (h : Cleared sid v i) : ∃ y ∈ turns i v.trace, clearsContext sid y = true := by
  obtain ⟨x, hx, rfl, hclear⟩ := h
  exact ⟨x.2, List.mem_filterMap.mpr ⟨x, hx, by simp⟩, hclear⟩

/-- In every interleaving in which no invocation looks for the context while another one is about to clear it, and in
which nothing that the environment answers spoils an invocation that cleared it, the context is used once. -/
theorem opening_used_once (env : Env) (agent : Agent) (sid : SessionId) (ctx : String) (calls : ι → TurnCall)
    (w : World) (hstart : w.opening sid = some ctx) (schedule : List ι)
    (hC : (agent.turnPool calls w).Conforms (handle env) (Undisturbed sid) schedule)
    (hspoilt : ∀ i userId input, calls i = .invoke userId sid input →
      Cleared sid ((agent.turnPool calls w).run (handle env) schedule).view i →
        ¬ agent.Spoilt sid input (turns i ((agent.turnPool calls w).run (handle env) schedule).view.trace)) :
    UsedOnce agent sid ctx calls ((agent.turnPool calls w).run (handle env) schedule) := by
  have hnot : ∀ i p, ¬ Happened (agent.turnPool calls w).view i p := fun i p h => by
    simp [Agent.turnPool, Happened] at h
  have hI : Opening sid ctx calls (agent.turnPool calls w).view := {
    stored := .inl hstart
    cleared := fun i hi => absurd hi (hnot i _)
    clearing := fun hnone => by rw [show (agent.turnPool calls w).view.state.opening sid = _ from hstart] at hnone; cases hnone
    cleared_once := fun i j hi => absurd hi (hnot i _)
    held := fun i hi => absurd hi (hnot i _)
    held_once := fun i j hi => absurd hi (hnot i _)
    recorded := .inl rfl }
  have hsafe : ∀ i, (openingOnce sid ctx calls).Safe (handle env) i (TurnCall.Leaves agent sid ctx calls i)
      ((agent.turnPool calls w).threads i) (agent.turnPool calls w).view :=
    fun i => turnProgram_safe agent hI ⟨hnot i _, hnot i _⟩
  have hI' := (Pool.run_safe hI hsafe hC).1
  have hleaves : ∀ i x, (((agent.turnPool calls w).run (handle env) schedule).threads i).result? = some x →
      TurnCall.Leaves agent sid ctx calls i x ((agent.turnPool calls w).run (handle env) schedule).view := by
    intro i x hx
    obtain ⟨hret, hfail⟩ := Pool.run_post hI hsafe hC i
    cases hthread : ((agent.turnPool calls w).run (handle env) schedule).threads i with
    | ret out =>
      rw [hthread] at hx
      cases hx
      exact hret out hthread
    | fail e =>
      rw [hthread] at hx
      cases hx
      exact hfail e hthread
    | ask q k =>
      rw [hthread] at hx
      cases hx
  -- A call that cleared the context is an invocation that was not spoilt, so that it ends with a text.
  have hdone : ∀ i x, (((agent.turnPool calls w).run (handle env) schedule).threads i).result? = some x →
      Cleared sid ((agent.turnPool calls w).run (handle env) schedule).view i → ∃ text, x = .ok (.done text) := by
    intro i x hx hcleared
    by_contra hnot
    obtain ⟨userId, input, hcall⟩ := (hleaves i x hx).invoked hcleared
    have hplays : (agent.turnProgram (calls i)).Plays _ x := Pool.plays_of_result (P := agent.turnPool calls w) rfl hx
    rw [hcall] at hplays
    exact hspoilt i userId input hcall hcleared
      (Agent.invoke_spoilt hplays hcleared.turns fun text htext => hnot ⟨text, htext⟩)
  clear hspoilt
  generalize (agent.turnPool calls w).run (handle env) schedule = P at hdone hI' hleaves
  refine ⟨?_, fun hquiet => ?_, fun i e hfail hcleared => ?_⟩
  · -- No more than one turn with the context was recorded.
    rcases hI'.recorded with h | h
    · simp [h]
    · exact le_of_eq h.1
  · rcases hI'.stored with hstored | hnone
    · refine .inl ⟨hstored, ?_, fun hskills i userId input text hcall hthread => ?_⟩
      · refine hI'.recorded.resolve_right ?_
        rintro ⟨_, i, hi, _⟩
        rw [hI'.cleared i hi] at hstored
        cases hstored
      · have hresult : (P.threads i).result? = some (.ok (.done text)) := by rw [hthread]; rfl
        obtain ⟨j, hj⟩ := (hleaves i _ hresult).used text rfl userId input hcall hskills
        rw [hI'.cleared j hj] at hstored
        cases hstored
    · refine .inr ⟨hnone, ?_⟩
      obtain ⟨i, hi⟩ := hI'.clearing hnone
      obtain ⟨x, hx⟩ : ∃ x, (P.threads i).result? = some x := by
        cases hthread : P.threads i with
        | ask q k => exact absurd hthread (hquiet i q k)
        | ret out => exact ⟨_, rfl⟩
        | fail e => exact ⟨_, rfl⟩
      obtain ⟨text, rfl⟩ := hdone i x hx hi
      obtain ⟨y, hy, rfl, hrec⟩ := (hleaves i _ hx).recorded text rfl hi
      refine (hI'.recorded.resolve_left fun hnil => ?_).1
      have hmem : y ∈ recordedTurns sid ctx calls P.view := List.mem_filter.mpr ⟨hy, hrec⟩
      rw [hnil] at hmem
      cases hmem
  · have hresult : (P.threads i).result? = some (.error e) := by rw [hfail]; rfl
    obtain ⟨text, htext⟩ := hdone i _ hresult hcleared
    cases htext

end Runs

/-! ### Two invocations after a transition -/

instance (sid : SessionId) (v : AgentView ι) [DecidableEq ι] (i : ι) (q : Request) : Decidable (Undisturbed sid v i q) := by
  unfold Undisturbed
  split <;> infer_instance

instance (sid : SessionId) (v : AgentView ι) [DecidableEq ι] (i : ι) : Decidable (Cleared sid v i) := by
  unfold Cleared Happened
  infer_instance

/-- A session after a phase transition. -/
def World.opened : World :=
  { World.fresh ⟨[.draft]⟩ 0 with
    store := ⟨[{ SessionMemory.newRow 0 "u" 0 none with phaseOpeningContext := some "plan" }], [], 0⟩
    nextUuid := 1 }

def twoInvocations : Bool → TurnCall
  | false => .invoke "u" 0 "first"
  | true => .invoke "u" 0 "second"

/-- A stored skill context. -/
def storedSkill : Event → Bool
  | ⟨.sql (.selectSkillContext _), .ok (some (some _))⟩ => true
  | _ => false

/-- The first invocation finds the context, and is not spoilt: its statements are served and the model answers. -/
theorem opening_used_in_turn : UsedOnce .gated 0 "plan" twoInvocations
    ((Agent.gated.turnPool twoInvocations .opened).run (handle (.steady fun _ _ => .ofText "done"))
      (List.replicate 20 false ++ List.replicate 20 true)) := by
  refine opening_used_once _ .gated 0 "plan" twoInvocations .opened rfl _ (by decide +kernel)
    fun i userId input hcall hcleared hspoilt => ?_
  have hfirst : ¬ Cleared 0 ((Agent.gated.turnPool twoInvocations .opened).run
      (handle (.steady fun _ _ => .ofText "done")) (List.replicate 20 false ++ List.replicate 20 true)).view true := by
    decide +kernel
  obtain rfl : i = false := by
    cases i with
    | false => rfl
    | true => exact absurd hcleared hfirst
  generalize ht : turns false ((Agent.gated.turnPool twoInvocations .opened).run
    (handle (.steady fun _ _ => .ofText "done")) (List.replicate 20 false ++ List.replicate 20 true)).view.trace = t at hspoilt
  have hserved : ∀ x ∈ t, failsTurn x = false ∧ storedSkill x = false := by
    rw [← ht]
    decide +kernel
  have hreplies : repliesOf t = [.ok (.ofText "done")] := by
    rw [← ht]
    decide +kernel
  cases hspoilt with
  | failed h =>
    obtain ⟨x, hx, hfails⟩ := h
    rw [(hserved x hx).1] at hfails
    cases hfails
  | uncompiled hskills h =>
    cases hskills
    obtain ⟨_, _, _, _, _, hroute, _⟩ := h
    cases hroute
  | unselected _ h =>
    obtain ⟨router, hrouter, _⟩ := h
    cases hrouter
  | @stopped cfg hskills told htold kind sk rs hselects h =>
    cases hskills
    obtain ⟨opening, skillCtx, summaries, longTerm⟩ := told
    cases htold.skill with
    | bound hstored _ => exact Bool.noConfusion (hserved _ hstored).2
    | routed _ hroute _ => cases hroute
    | unrouted =>
      rw [hreplies] at hselects
      cases hselects with
      | routed hrouter _ => cases hrouter
      | fixed _ =>
        have hanswer : readReply Agent.gated.ext (Agent.gated.askedAbout (HitlContext.new 0 none))
            (.ok (.ofText "done")) = .answer := by rfl
        obtain hmust | ⟨e, he⟩ | ⟨r, hr, hread⟩ | ⟨hlength, -⟩ | ⟨r, hr, kind, hread, -⟩ := h
        · exact hmust rfl
        · cases he
        · cases List.mem_singleton.mp hr
          cases hanswer.symm.trans hread
        · cases hlength
        · cases List.mem_singleton.mp hr
          cases hanswer.symm.trans hread

/-- A model that is not there. -/
def Env.silentModel : Env :=
  { Env.steady (fun _ _ => .ofText "") with generate := fun _ _ _ => .error (.invalidResponse "unavailable") }

/-- A context that is cleared before the model fails is lost, and two invocations that look before either of them
clears both use it. -/
theorem opening_misused :
    ¬ UsedOnce .gated 0 "plan" twoInvocations
        ((Agent.gated.turnPool twoInvocations .opened).run (handle .silentModel) (List.replicate 20 false)) ∧
      ¬ UsedOnce .gated 0 "plan" twoInvocations
        ((Agent.gated.turnPool twoInvocations .opened).run (handle (.steady fun _ _ => .ofText "done"))
          ([false, false, true, true] ++ List.replicate 20 false ++ List.replicate 20 true)) := by
  constructor
  · intro h
    have hfailed : (((Agent.gated.turnPool twoInvocations .opened).run (handle .silentModel)
        (List.replicate 20 false)).threads false).result? =
          some (.error (.llm (.model (.invalidResponse "unavailable")))) := by decide +kernel
    have hcleared : Cleared 0 ((Agent.gated.turnPool twoInvocations .opened).run (handle .silentModel)
        (List.replicate 20 false)).view false := by decide +kernel
    cases hthread : ((Agent.gated.turnPool twoInvocations .opened).run (handle .silentModel)
        (List.replicate 20 false)).threads false with
    | fail e => exact h.failed false e hthread hcleared
    | ret out => rw [hthread] at hfailed; cases hfailed
    | ask q k => rw [hthread] at hfailed; cases hfailed
  · intro h
    have htwo : 1 < (recordedTurns 0 "plan" twoInvocations
        ((Agent.gated.turnPool twoInvocations .opened).run (handle (.steady fun _ _ => .ofText "done"))
          ([false, false, true, true] ++ List.replicate 20 false ++ List.replicate 20 true)).view).length := by
      decide +kernel
    exact absurd h.atMostOnce (Nat.not_le.mpr htwo)

end AgentVerse
