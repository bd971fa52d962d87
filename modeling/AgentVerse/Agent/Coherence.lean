import AgentVerse.Agent.Binding
import AgentVerse.Agent.OpeningOnce
import AgentVerse.Agent.Tiers

/-!
# The cache agrees with the store

Every invocation keeps the terms of `inStep`. In every interleaving in which the writes to the cache are in step with
the store, a conversation that the cache returns between calls is the transcript of its session (`tiers_coherent`).
Otherwise turns are lost from the cache, or all turns before the last one (`tiers_differ`).
-/

namespace AgentVerse

open Effects

variable {ι : Type} [DecidableEq ι] {env : Env} {sid : SessionId} {v : AgentView ι} {i : ι} {q : Request}

/-! ### What a thread knows -/

/-- No turn of thread `i` is behind the cache. -/
def CaughtUp (i : ι) (v : AgentView ι) : Prop := ∀ sid, ∀ t ∈ behind sid v, t.1 ≠ i

/-- Thread `i` acts for the owner of its session, and none of its turns is behind the cache. -/
structure Onward (userId : String) (sid : SessionId) (i : ι) (v : AgentView ι) : Prop where
  owner : v.state.owns userId sid
  caughtUp : CaughtUp i v

/-- Thread `i` has recorded a turn that it has to append to the cache. -/
structure Owes (userId : String) (sid : SessionId) (m m' : Message) (i : ι) (v : AgentView ι) : Prop where
  owner : v.state.owns userId sid
  turn : ∀ t ∈ behind sid v, t.1 = i → t.2 = [m, m']
  elsewhere : ∀ s, s ≠ sid → ∀ t ∈ behind s v, t.1 ≠ i

/-- Thread `i` has read the messages of its session. -/
structure Holds (userId : String) (sid : SessionId) (ms : List Message) (i : ι) (v : AgentView ι) : Prop where
  onward : Onward userId sid i v
  read : ms ++ messagesOf (unread sid v i) = v.state.store.transcript sid

/-- A property of thread `i` that neither the turns of others nor its own requests apart from the tiers change. -/
def Lasting (env : Env) (i : ι) (K : AgentView ι → Prop) : Prop :=
  ∀ v j q, j ≠ i ∨ q.Apart → OfTiers v j q → K v → K (v.after (handle env) j q)

theorem Lasting.stable {K : AgentView ι → Prop} (hK : Lasting env i K) : inStep.Stable (handle env) i K :=
  fun v j q hj _ _ hG hv => hK v j q (.inl hj) hG hv

/-- What is known of the turns of thread `i` behind the cache. -/
theorem behind_lasting {p : List Message → Prop} : Lasting env i fun v => ∀ t ∈ behind sid v, t.1 = i → p t.2 := by
  intro v j q hjq _ hv
  rcases hjq with hj | hq
  · exact behind_other hj hv
  · rw [hq.behind]
    exact hv

theorem owns_lasting {userId : String} : Lasting env i fun v => v.state.owns userId sid :=
  fun _ _ _ _ hG hv => hG.owns.mpr hv

theorem caughtUp_lasting : Lasting env i (CaughtUp i) :=
  fun v j q hjq hG hv sid => behind_lasting (p := fun _ => False) v j q hjq hG (hv sid)

theorem onward_lasting {userId : String} : Lasting env i (Onward userId sid i) :=
  fun v j q hjq hG hv => ⟨owns_lasting v j q hjq hG hv.owner, caughtUp_lasting v j q hjq hG hv.caughtUp⟩

theorem owes_lasting {userId : String} {m m' : Message} : Lasting env i (Owes userId sid m m' i) :=
  fun v j q hjq hG hv => {
    owner := owns_lasting v j q hjq hG hv.owner
    turn := behind_lasting (p := fun ms => ms = [m, m']) v j q hjq hG hv.turn
    elsewhere := fun s hs => behind_lasting (p := fun _ => False) v j q hjq hG (hv.elsewhere s hs) }

/-- Others record turns after the ones that were read. -/
theorem holds_stable {userId : String} {ms : List Message} :
    inStep.Stable (handle env) i (Holds userId sid ms i) := by
  intro v j q hj _ _ hG hv
  refine ⟨onward_lasting v j q (.inl hj) hG hv.onward, ?_⟩
  rw [unread_other hj, messagesOf_append, ← List.append_assoc, hv.read]
  exact hG.transcript.symm

/-! ### The stages of an invocation -/

/-- What a thread knows after a stage. -/
def Ends {ε α : Type} (i : ι) (E : α → AgentView ι → Prop) : Except ε α → AgentView ι → Prop
  | .ok a, v => E a v
  | .error _, v => CaughtUp i v

theorem ends_ret {ε α : Type} {E : α → AgentView ι → Prop} {a : α} (hE : Lasting env i (E a)) (hv : E a v) :
    inStep.Safe (handle env) i (Ends i E) (.ret a : M ε α) v :=
  Discipline.Safe.ret hE.stable hv

theorem ends_fail {ε α : Type} {E : α → AgentView ι → Prop} {e : ε} (hv : CaughtUp i v) :
    inStep.Safe (handle env) i (Ends i E) (.fail e : M ε α) v :=
  Discipline.Safe.fail caughtUp_lasting.stable hv

theorem ends_bind {ε α β : Type} {p : M ε α} {f : α → M ε β} {E : α → AgentView ι → Prop}
    {E' : β → AgentView ι → Prop} (hI : Tiers v) (hp : inStep.Safe (handle env) i (Ends i E) p v)
    (hf : ∀ a v', Tiers v' → E a v' → inStep.Safe (handle env) i (Ends i E') (f a) v') :
    inStep.Safe (handle env) i (Ends i E') (p >>= f) v :=
  Discipline.Safe.bind hI hp hf fun _ _ _ hv => ends_fail hv

/-- A stage apart from the tiers. -/
theorem ends_apart {ε α : Type} {p : M ε α} {K : AgentView ι → Prop} (hK : Lasting env i K)
    (hcaught : ∀ v, K v → CaughtUp i v) (hv : K v) (hp : p.Only Request.Apart) :
    inStep.Safe (handle env) i (Ends i fun _ => K) p v := by
  have hsafe := Discipline.Safe.of_only (D := inStep) (h := handle env) (i := i) hp hK.stable hv
    fun v q hI hKv hC hq => ⟨.apart hq, hI.turn hC (.apart hq), hK v i q (.inr hq) (.apart hq) hKv⟩
  refine hsafe.imp fun r v h => ?_
  cases r with
  | ok a => exact h
  | error e => exact hcaught v h

theorem Request.Reads.apart (hq : q.Reads) : q.Apart := by
  cases q with
  | sql st => cases st <;> trivial
  | _ => trivial

theorem Request.OfStrategy.apart (hq : q.OfStrategy) : q.Apart := by
  cases q <;> trivial

theorem Request.OfWrites.apart {x : Option (JsonText InterruptedState)} {status : SessionStatus}
    (hq : q.OfWrites sid x status) : q.Apart := by
  cases q with
  | sql st => cases st <;> trivial
  | _ => trivial

theorem Request.OfResume.apart (hq : q.OfResume sid) : q.Apart := by
  rcases hq with hq | hq | ⟨x, status, hq⟩
  · exact hq.apart
  · rcases hq with hq | ⟨x, y, rfl⟩
    · exact hq.apart
    · trivial
  · exact hq.apart

/-- What the read of a session says about its owner. -/
theorem owns_read {w : World} {userId : String} {session : Session}
    (hr : (handle env (.sql (.selectSession sid)) w).1 = .ok (some session)) (hu : session.userId = userId) :
    w.owns userId sid := by
  cases he : env.storeError w.steps with
  | some e => rw [handle_sql_error _ he] at hr; cases hr
  | none =>
    rw [handle_sql_ok _ he] at hr
    cases hrow : w.store.row? sid with
    | none => simp [Statement.exec, hrow] at hr
    | some row =>
      simp only [Statement.exec, hrow, Option.map_some, Except.ok.injEq, Option.some.injEq] at hr
      rw [World.owns, hrow, ← hu, ← hr]
      rfl

/-- The messages that are read are the transcript. -/
theorem transcript_read {w : World} {ms : List Message}
    (hr : (handle env (.sql (.selectMessages sid)) w).1 = .ok ms) : w.store.transcript sid = ms := by
  cases he : env.storeError w.steps with
  | some e => rw [handle_sql_error _ he] at hr; cases hr
  | none =>
    rw [handle_sql_ok _ he] at hr
    exact Except.ok.inj hr

/-- The check of the owner. -/
theorem assertOwner_onward {userId : String} (hv : CaughtUp i v) :
    inStep.Safe (handle env) i (Ends i fun _ => Onward userId sid i) (sess (SessionManager.assertOwner userId sid)) v := by
  refine ⟨_, caughtUp_lasting.stable, hv, fun v' hI hK hC => ?_⟩
  have hread : Request.Apart (.sql (.selectSession sid)) := trivial
  have hcaught : CaughtUp i (v'.after (handle env) i (.sql (.selectSession sid))) :=
    caughtUp_lasting v' i _ (.inr hread) (.apart hread) hK
  refine ⟨.apart hread, hI.turn hC (.apart hread), ?_⟩
  cases hr : (handle env (.sql (.selectSession sid)) v'.state).1 with
  | error e => exact ends_fail hcaught
  | ok row =>
    cases row with
    | none => exact ends_fail hcaught
    | some session =>
      show inStep.Safe (handle env) i _ ((if session.userId = userId then .ret () else .fail (.notFound sid) :
        M SessionMemoryError Unit).mapErr AgentError.session) _
      by_cases hu : session.userId = userId
      · rw [if_pos hu]
        refine ends_ret onward_lasting ⟨?_, hcaught⟩
        exact (OfTiers.apart (v := v') (i := i) hread).owns.mpr (owns_read hr hu)
      · rw [if_neg hu]
        exact ends_fail hcaught

/-- The read of the messages and the store into the cache. -/
theorem getCacheMemory_onward {userId : String} (hv : Onward userId sid i v) :
    inStep.Safe (handle env) i (Ends i fun _ => Onward userId sid i) (Agent.getCacheMemory userId sid) v := by
  have hload : Request.Apart (.cacheLoad userId sid) := trivial
  refine ⟨_, onward_lasting.stable, hv, fun v₁ hI₁ hK₁ hC₁ => ⟨.apart hload, hI₁.turn hC₁ (.apart hload), ?_⟩⟩
  have hv₂ : Onward userId sid i (v₁.after (handle env) i (.cacheLoad userId sid)) :=
    onward_lasting v₁ i _ (.inr hload) (.apart hload) hK₁
  cases (handle env (.cacheLoad userId sid) v₁.state).1 with
  | some messages => exact ends_ret onward_lasting hv₂
  | none =>
    have hread : Request.Apart (.sql (.selectMessages sid)) := trivial
    refine ⟨_, onward_lasting.stable, hv₂, fun v₃ hI₃ hK₃ hC₃ => ⟨.apart hread, hI₃.turn hC₃ (.apart hread), ?_⟩⟩
    have hv₄ : Onward userId sid i (v₃.after (handle env) i (.sql (.selectMessages sid))) :=
      onward_lasting v₃ i _ (.inr hread) (.apart hread) hK₃
    cases hr : (handle env (.sql (.selectMessages sid)) v₃.state).1 with
    | error e => exact ends_fail hv₄.caughtUp
    | ok history =>
      have hholds : Holds userId sid history i (v₃.after (handle env) i (.sql (.selectMessages sid))) := by
        refine ⟨hv₄, ?_⟩
        rw [unread_read (by simp [readsMessages, hr]), View.after_state, hread.transcript, transcript_read hr]
        exact List.append_nil _
      refine ⟨_, holds_stable, hholds, fun v₅ hI₅ hK₅ hC₅ => ?_⟩
      have hstore : OfTiers v₅ i (.cacheStore userId sid history) := .store hK₅.onward.owner hK₅.read
      refine ⟨hstore, hI₅.turn hC₅ hstore, ends_ret onward_lasting ⟨hstore.owns.mpr hK₅.onward.owner, fun s => ?_⟩⟩
      rw [behind_after]
      exact hK₅.onward.caughtUp s

/-- The recording of a turn. -/
theorem appendTurn_owes {userId : String} {m m' : Message} (hI : Tiers v) (hv : Onward userId sid i v) :
    inStep.Safe (handle env) i (Ends i fun _ => Owes userId sid m m' i) (sess (SessionMemory.appendTurn sid m m')) v := by
  unfold sess SessionMemory.appendTurn SessionMemory.append
  rw [Prog.mapErr_bind]
  refine ends_bind hI (ends_apart onward_lasting (fun _ h => h.caughtUp) hv (Prog.Only.mapErr (query_only trivial)))
    fun session v₁ hI₁ hK₁ => ?_
  cases session with
  | none => exact ends_fail hK₁.caughtUp
  | some session =>
    dsimp only
    rw [Prog.mapErr_bind]
    refine ends_bind hI₁ (ends_apart onward_lasting (fun _ h => h.caughtUp) hK₁
      (Prog.Only.mapErr (nowTimestamp_only trivial))) fun now v₂ hI₂ hK₂ => ?_
    refine ⟨_, onward_lasting.stable, hK₂, fun v₃ hI₃ hK₃ hC₃ => ?_⟩
    have hrecord : OfTiers v₃ i (.sql (.appendMessages sid [m, m'] now)) := .record (hK₃.caughtUp sid)
    refine ⟨hrecord, hI₃.turn hC₃ hrecord, ?_⟩
    cases hr : (handle env (.sql (.appendMessages sid [m, m'] now)) v₃.state).1 with
    | error e =>
      refine ends_fail fun s => ?_
      rw [behind_after, hr]
      exact hK₃.caughtUp s
    | ok u =>
      have hbehind : ∀ s, behind s (v₃.after (handle env) i (.sql (.appendMessages sid [m, m'] now))) =
          behind s v₃ ++ if sid = s then [(i, [m, m'])] else [] := by
        intro s
        rw [behind_after, hr]
        by_cases hs : sid = s <;> simp [behindStep, recordedTurn?, Request.cachesTurn, hs]
      refine ends_ret owes_lasting ⟨hrecord.owns.mpr hK₃.owner, fun t ht hti => ?_, fun s hs => ?_⟩
      · rw [hbehind, if_pos rfl] at ht
        rcases List.mem_append.mp ht with ht | ht
        · exact absurd hti (hK₃.caughtUp sid t ht)
        · rw [List.mem_singleton.mp ht]
      · rw [hbehind, if_neg (Ne.symm hs), List.append_nil]
        exact hK₃.caughtUp s

/-- The append to the cache. -/
theorem cacheTurn_caughtUp {userId : String} {m m' : Message} (hv : Owes userId sid m m' i v) :
    inStep.Safe (handle env) i (Ends i fun _ => CaughtUp i)
      (request (.cacheAppendTurn userId sid m m') : M AgentError Unit) v := by
  refine ⟨_, owes_lasting.stable, hv, fun v₁ hI₁ hK₁ hC₁ => ?_⟩
  have hcache : OfTiers v₁ i (.cacheAppendTurn userId sid m m') := .cache hK₁.owner hK₁.turn
  refine ⟨hcache, hI₁.turn hC₁ hcache, ends_ret caughtUp_lasting fun s t ht => ?_⟩
  rw [behind_after] at ht
  by_cases hs : sid = s
  · subst hs
    simp only [behindStep, recordedTurn?, Request.cachesTurn, decide_true, if_true] at ht
    simpa using (List.mem_filter.mp ht).2
  · simp only [behindStep, recordedTurn?, Request.cachesTurn, hs, decide_false] at ht
    exact hK₁.elsewhere s (Ne.symm hs) t ht

variable (agent : Agent)

theorem keepTurn_caughtUp {userId input response : String} (hI : Tiers v) (hv : Onward userId sid i v) :
    inStep.Safe (handle env) i (Ends i fun _ => CaughtUp i) (agent.keepTurn userId sid input response) v := by
  refine ends_bind hI (appendTurn_owes hI hv) fun _ v₁ hI₁ hK₁ => ?_
  refine ends_bind hI₁ (cacheTurn_caughtUp hK₁) fun _ v₂ hI₂ hK₂ => ?_
  dsimp only
  split
  · exact ends_bind hI₂ (ends_apart caughtUp_lasting (fun _ h => h) hK₂ (request_only trivial)) fun _ v₃ _ hK₃ =>
      ends_ret caughtUp_lasting hK₃
  · exact ends_ret caughtUp_lasting hK₂

theorem openingContext_onward {userId input : String} (hI : Tiers v) (hv : Onward userId sid i v) :
    inStep.Safe (handle env) i (Ends i fun _ => Onward userId sid i) (agent.openingContext userId sid input) v := by
  have hquiet : ∀ {α : Type} {p : M AgentError α} {v : AgentView ι}, Onward userId sid i v → p.Only Request.Apart →
      inStep.Safe (handle env) i (Ends i fun _ => Onward userId sid i) p v :=
    fun hv hp => ends_apart onward_lasting (fun _ h => h.caughtUp) hv hp
  refine ends_bind hI (hquiet hv ?_) fun r v₁ hI₁ hK₁ => ?_
  · unfold Agent.phaseOpening
    split
    · exact Agent.sess_only (SessionMemory.getPhaseOpeningContext_only trivial)
    · trivial
  · cases r with
    | some ctx =>
      refine ends_bind hI₁ (hquiet hK₁ (request_only trivial)) fun _ v₂ hI₂ hK₂ => ?_
      exact ends_bind hI₂ (hquiet hK₂ (Agent.sess_only (SessionMemory.setPhaseOpeningContext_only trivial)))
        fun _ v₃ _ hK₃ => ends_ret onward_lasting hK₃
    | none =>
      exact ends_bind hI₁ (getCacheMemory_onward hK₁) fun _ v₂ _ hK₂ => ends_ret onward_lasting hK₂

theorem invoke_caughtUp {userId input : String} (hI : Tiers v) (hv : CaughtUp i v) :
    inStep.Safe (handle env) i (Ends i fun _ => CaughtUp i) (agent.invoke userId sid input) v := by
  have hquiet : ∀ {α : Type} {p : M AgentError α} {v : AgentView ι}, Onward userId sid i v → p.Only Request.Apart →
      inStep.Safe (handle env) i (Ends i fun _ => Onward userId sid i) p v :=
    fun hv hp => ends_apart onward_lasting (fun _ h => h.caughtUp) hv hp
  refine ends_bind (E := fun _ => Onward userId sid i) hI ?_ fun p v₁ hI₁ hK₁ => ?_
  · refine ends_bind hI (assertOwner_onward hv) fun _ v₁ hI₁ hK₁ => ?_
    refine ends_bind hI₁ (openingContext_onward agent hI₁ hK₁) fun x v₂ hI₂ hK₂ => ?_
    refine ends_bind hI₂ (hquiet hK₂ ?_) fun y v₃ _ hK₃ => ends_ret onward_lasting hK₃
    exact Prog.Only.mono (agent.resolveSkill_binds input) fun q hq => by
      rcases hq with hq | ⟨x, rfl⟩
      · exact hq.apart
      · trivial
  · refine ends_bind hI₁ (hquiet hK₁ ?_) fun outcome v₂ hI₂ hK₂ => ?_
    · exact Prog.Only.mono (agent.runPrepared_works userId p) fun q hq =>
        hq.elim Request.Reads.apart Request.OfStrategy.apart
    · cases outcome with
      | done text => exact keepTurn_caughtUp agent hI₂ hK₂
      | interrupted interrupt =>
        refine ends_apart caughtUp_lasting (fun _ h => h) hK₂.caughtUp ?_
        exact Prog.Only.mono (Agent.handleToolInterrupt_only interrupt _) fun q ⟨x, status, hq⟩ => hq.apart

theorem turnProgram_caughtUp (call : TurnCall) (hI : Tiers v) (hv : CaughtUp i v) :
    inStep.Safe (handle env) i (Ends i fun _ => CaughtUp i) (agent.turnProgram call) v := by
  cases call with
  | invoke userId s input => exact invoke_caughtUp agent hI hv
  | resume userId s approvalId decision =>
    exact ends_apart caughtUp_lasting (fun _ h => h) hv
      (Prog.Only.mono (agent.resume_resumes ..) fun q hq => hq.apart)

/-! ### Runs -/

/-- The turns behind the cache are turns of threads that have begun. -/
theorem behind_begun {t : ι × List Message} (ht : t ∈ behind sid v) : ∃ x ∈ v.trace, x.1 = t.1 := by
  have hfold : ∀ (l : List (ι × Event)) (b : List (ι × List Message)), t ∈ l.foldl (behindStep sid) b →
      t ∈ b ∨ ∃ x ∈ l, x.1 = t.1 := by
    intro l
    induction l with
    | nil => exact fun b h => .inl h
    | cons x l ih =>
      intro b h
      rcases ih _ h with h | ⟨y, hy, hyt⟩
      · unfold behindStep at h
        split at h
        · rename_i hrec
          rcases List.mem_append.mp h with h | h
          · exact .inl h
          · rw [List.mem_singleton.mp h]
            exact .inr ⟨x, List.mem_cons_self, (recordedTurn?_thread hrec).symm⟩
        · split at h
          · exact .inl (List.mem_of_mem_filter h)
          · exact .inl h
      · exact .inr ⟨y, List.mem_cons_of_mem x hy, hyt⟩
  exact (hfold v.trace [] ht).resolve_left fun h => nomatch h

/-- Every call has ended or has not begun. -/
def Quiescent {κ : Type} (P : Pool κ Reply World AgentError AgentOutput) : Prop :=
  ∀ i, (P.threads i).result?.isSome ∨ ∀ x ∈ P.view.trace, x.1 ≠ i

theorem Quiescent.of_ended {κ : Type} {P : Pool κ Reply World AgentError AgentOutput} (h : ∀ i, (P.threads i).result?.isSome) :
    Quiescent P := fun i => .inl (h i)

/-- Whenever the cache is asked for a conversation and has it, it is the one in the store. -/
def World.Coherent (w : World) (ttl : Nat) : Prop :=
  ∀ elapsed userId sid ms, { w with clock := w.clock + elapsed }.cached ttl (userId, sid) = some ms →
    ms = w.store.transcript sid

/-- In every interleaving in which the writes to the cache are in step with the store, the cache agrees with the store
between calls. -/
theorem tiers_coherent (env : Env) (agent : Agent) (calls : ι → TurnCall) (w : World) (hcache : w.cache = [])
    (schedule : List ι) (hC : (agent.turnPool calls w).Conforms (handle env) InStep schedule)
    (hquiet : Quiescent ((agent.turnPool calls w).run (handle env) schedule)) :
    ((agent.turnPool calls w).run (handle env) schedule).view.state.Coherent env.cacheTtl := by
  have hI : Tiers (agent.turnPool calls w).view := {
    once := fun sid => List.nodup_nil
    owned := fun e he => by rw [show (agent.turnPool calls w).view.state.cache = [] from hcache] at he; cases he
    current := fun e he => by rw [show (agent.turnPool calls w).view.state.cache = [] from hcache] at he; cases he }
  have hsafe : ∀ i, inStep.Safe (handle env) i (Ends i fun _ => CaughtUp i) ((agent.turnPool calls w).threads i)
      (agent.turnPool calls w).view :=
    fun i => turnProgram_caughtUp agent (calls i) hI fun sid t ht => nomatch ht
  have hI' := (Pool.run_safe hI hsafe hC).1
  have hpost := Pool.run_post hI hsafe hC
  generalize (agent.turnPool calls w).run (handle env) schedule = P at hquiet hI' hpost
  have hnone : ∀ sid, behind sid P.view = [] := by
    intro sid
    refine List.eq_nil_iff_forall_not_mem.mpr fun t ht => ?_
    rcases hquiet t.1 with hended | hbegun
    · cases hthread : P.threads t.1 with
      | ret out => exact (hpost t.1).1 out hthread sid t ht rfl
      | fail e => exact (hpost t.1).2 e hthread sid t ht rfl
      | ask q k => rw [hthread] at hended; cases hended
    · obtain ⟨x, hx, hxt⟩ := behind_begun ht
      exact hbegun x hx hxt
  intro elapsed userId sid ms hms
  unfold World.cached at hms
  split at hms
  · rename_i e hlookup
    split at hms
    · cases hms
      have hcurrent := hI'.current _ (mem_of_lookup hlookup)
      rw [hnone, messagesOf_nil, List.append_nil] at hcurrent
      exact hcurrent
    · cases hms
  · cases hms

/-! ### Two calls at once -/

instance (v : AgentView ι) (i : ι) : (q : Request) → Decidable (InStep v i q)
  | .cacheStore _ s _ => inferInstanceAs (Decidable (behind s v = unread s v i))
  | .cacheAppendTurn u s _ _ => inferInstanceAs (Decidable ((behind s v).head?.map (·.1) = some i ∧
      ((v.state.cache.lookup (u, s)).isSome ∨ v.state.store.transcript s = messagesOf (behind s v))))
  | .now | .newUuid | .sql _ | .cacheLoad .. | .cacheEvict .. | .submit .. | .resolve .. | .poll _ | .sweepExpired
  | .readSkills | .readSummaries | .generate .. | .joinSet .. | .executeRaw _ | .enterSubagent _ | .deadline
  | .retrieve .. | .longtermWrite .. => .isTrue trivial

/-- Two sessions of a user, the first one with a message. -/
def World.twoSessions : World :=
  { World.fresh ⟨[]⟩ 0 with
    store := ⟨[SessionMemory.newRow 0 "u" 0 none, SessionMemory.newRow 1 "u" 0 none],
      [⟨1, 0, .ofText .user "before", 1, 0⟩], 1⟩
    nextUuid := 2 }

/-- Two invocations of one session, one of which ends while the other one is in flight. -/
theorem tiers_coherent_nested : ((Agent.plain.turnPool twoInvocations .twoSessions).run (handle .answering)
    (List.replicate 5 false ++ List.replicate 20 true ++ List.replicate 20 false)).view.state.Coherent 0 :=
  tiers_coherent .answering .plain twoInvocations .twoSessions rfl _ (by decide +kernel)
    (.of_ended (by decide +kernel))

/-- An invocation of each session. -/
def oneEach : Bool → TurnCall
  | false => .invoke "u" 0 "first"
  | true => .invoke "u" 1 "second"

/-- Every request takes time, and conversations stay in the cache for a short time. -/
def Env.slow : Env := { Env.answering with cacheTtl := 3, elapse := fun _ => 1 }

/-- Messages that were read before another call recorded and cached its turn replace the cached conversation; and an
invocation of another session sweeps the conversation of one in flight, which then appends its turn to nothing. -/
theorem tiers_differ :
    (Quiescent ((Agent.plain.turnPool twoInvocations .twoSessions).run (handle .answering)
        (List.replicate 3 false ++ List.replicate 20 true ++ List.replicate 20 false)) ∧
      ¬ ((Agent.plain.turnPool twoInvocations .twoSessions).run (handle .answering)
        (List.replicate 3 false ++ List.replicate 20 true ++ List.replicate 20 false)).view.state.Coherent 0) ∧
    Quiescent ((Agent.plain.turnPool oneEach .twoSessions).run (handle .slow)
        (List.replicate 4 false ++ List.replicate 20 true ++ List.replicate 20 false)) ∧
      ¬ ((Agent.plain.turnPool oneEach .twoSessions).run (handle .slow)
        (List.replicate 4 false ++ List.replicate 20 true ++ List.replicate 20 false)).view.state.Coherent 3 := by
  refine ⟨⟨.of_ended (by decide +kernel), fun h => ?_⟩, .of_ended (by decide +kernel), fun h => ?_⟩
  · have hms := h 0 "u" 0 [.ofText .user "before", .ofText .user "first", .ofText .assistant "done"] (by decide +kernel)
    exact absurd hms (by decide +kernel)
  · have hms := h 0 "u" 0 [.ofText .user "first", .ofText .assistant "done"] (by decide +kernel)
    exact absurd hms (by decide +kernel)

end AgentVerse
