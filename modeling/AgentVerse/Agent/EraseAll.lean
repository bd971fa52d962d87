import Mathlib.Data.Fintype.Basic
import AgentVerse.Agent.Coherence
import AgentVerse.Agent.Erasure

/-!
# Erasing all data of a user

Every thread keeps the terms of `erasure`. If no call is about to write to the cache when its session is evicted, then
nothing is left of the listed sessions once `delete_all_user_data` is through (`erased_completely`). Otherwise the cache
keeps a conversation of a session that no longer exists (`conversation_left`).
-/

namespace AgentVerse

open Effects

variable {ι : Type} {env : Env} {agent : Agent} {calls : ι → TurnCall} {userId : String} {sid : SessionId}
  {v : ErasureView ι} {i : ι} {j : Option ι} {q : Request}

/-! ### What a thread knows -/

/-- A property of thread `j` that only its own requests change. -/
def OwnKnowledge (env : Env) (j : Option ι) (K : ErasureView ι → Prop) : Prop :=
  ∀ v k q, k ≠ j → K v → K (v.after (handle env) k q)

theorem OwnKnowledge.stable {K : ErasureView ι → Prop} (hK : OwnKnowledge env j K) :
    (erasure agent calls userId).Stable (handle env) j K := fun v k q hk _ _ _ hv => hK v k q hk hv

theorem OwnKnowledge.and {K K' : ErasureView ι → Prop} (hK : OwnKnowledge env j K) (hK' : OwnKnowledge env j K') :
    OwnKnowledge env j fun v => K v ∧ K' v := fun v k q hk hv => ⟨hK v k q hk hv.1, hK' v k q hk hv.2⟩

theorem OwnKnowledge.imp {p : Prop} {K : ErasureView ι → Prop} (hK : OwnKnowledge env j K) :
    OwnKnowledge env j fun v => p → K v := fun v k q hk hv hp => hK v k q hk (hv hp)

theorem happened_own {p : Event → Prop} : OwnKnowledge env j fun v => Happened v j p :=
  fun _ _ _ _ hv => hv.after

theorem not_happened_own {p : Event → Prop} : OwnKnowledge env j fun v => ¬ Happened v j p :=
  fun _ _ _ hk hv hx => hv ((happened_other hk).mp hx)

/-- The call has appended no turn to the cache. -/
def Uncached (sid : SessionId) (i : ι) (v : ErasureView ι) : Prop :=
  ¬ Happened v (some i) fun x => x.1.cachesTurn sid = true

/-- The call has not come to the end of its history. -/
def Unended (sid : SessionId) (i : ι) (v : ErasureView ι) : Prop :=
  ¬ Happened v (some i) fun x => endsHistory sid x = true

theorem uncached_own : OwnKnowledge env (some i) (Uncached sid i) := not_happened_own

theorem loading_own : OwnKnowledge env (some i) fun v => Loading agent calls sid v i :=
  happened_own.and not_happened_own

theorem recording_own : OwnKnowledge env (some i) fun v => Recording sid v i := happened_own.and not_happened_own

theorem Request.OffCache.caches (hq : q.OffCache) : q.cachesTurn sid = false := by
  cases q <;> first | rfl | exact hq.elim

theorem uncached_after (hq : q.cachesTurn sid = false) (hv : Uncached sid i v) :
    Uncached sid i (v.after (handle env) j q) := by
  refine fun hx => hv ((happened_not ?_).mp hx)
  rw [hq]
  exact Bool.false_ne_true

/-- A stage that neither touches the cache nor creates sessions. -/
theorem after_offCache {ε α : Type} {p : M ε α} {K : ErasureView ι → Prop} (hK : OwnKnowledge env j K)
    (hown : ∀ v q, q.OffCache → K v → K (v.after (handle env) j q)) (hv : K v) (hp : p.Only Request.OffCache) :
    (erasure agent calls userId).Safe (handle env) j (After fun _ => K) p v := by
  have hsafe := Discipline.Safe.of_only (D := erasure agent calls userId) (h := handle env) (i := j) hp hK.stable hv
    fun v q hI hKv hC hq => ⟨.offCache hq, hI.turn hC (.offCache hq), hown v q hq hKv⟩
  refine hsafe.imp fun r v h => ?_
  cases r with
  | ok a => exact h
  | error e => trivial

theorem after_uncached {ε α : Type} {p : M ε α} (hv : Uncached sid i v) (hp : p.Only Request.OffCache) :
    (erasure agent calls userId).Safe (handle env) (some i) (After fun _ => Uncached sid i) p v :=
  after_offCache uncached_own (fun _ _ hq hK => uncached_after hq.caches hK) hv hp

/-! ### The stages of an invocation -/

/-- What an invocation knows after the check of its owner. -/
structure Checked (agent : Agent) (calls : ι → TurnCall) (sid : SessionId) (i : ι) (v : ErasureView ι) : Prop where
  uncached : Uncached sid i v
  unended : Unended sid i v
  started : agent.skills.isNone → Happened v (some i) fun x => startsHistory agent sid (calls i) x = true

theorem checked_own : OwnKnowledge env (some i) (Checked agent calls sid i) := fun v k q hk hv => {
  uncached := uncached_own v k q hk hv.uncached
  unended := not_happened_own v k q hk hv.unended
  started := fun h => (hv.started h).after }

theorem unended_after (hq : ∀ r : Reply q, endsHistory sid ⟨q, r⟩ = false) (hv : Unended sid i v) :
    Unended sid i (v.after (handle env) j q) := by
  refine fun hx => hv ((happened_not ?_).mp hx)
  rw [hq]
  exact Bool.false_ne_true

theorem assertOwner_checked {u input : String} (hcall : calls i = .invoke u sid input)
    (hv : Uncached sid i v ∧ Unended sid i v) :
    (erasure agent calls userId).Safe (handle env) (some i) (After fun _ => Checked agent calls sid i)
      (sess (SessionManager.assertOwner u sid)) v := by
  refine ⟨_, (uncached_own.and not_happened_own).stable, hv, fun v' hI hK hC => ?_⟩
  have hread : Request.OffCache (.sql (.selectSession sid)) := trivial
  refine ⟨.offCache hread, hI.turn hC (.offCache hread), ?_⟩
  cases hr : (handle env (.sql (.selectSession sid)) v'.state).1 with
  | error e => exact after_fail _
  | ok row =>
    cases row with
    | none => exact after_fail _
    | some session =>
      show (erasure agent calls userId).Safe (handle env) _ _
        ((if session.userId = u then .ret () else .fail (.notFound sid) :
          M SessionMemoryError Unit).mapErr AgentError.session) _
      by_cases hu : session.userId = u
      · rw [if_pos hu]
        refine Discipline.Safe.ret checked_own.stable {
          uncached := uncached_after hread.caches hK.1
          unended := unended_after (fun _ => rfl) hK.2
          started := fun hskills => happened_after.mpr (.inr ⟨rfl, ?_⟩) }
        simp [startsHistory, hcall, hr, hu, hskills]
      · rw [if_neg hu]
        exact after_fail _

variable (agent) in
theorem phaseOpening_loading {u input : String} (hcall : calls i = .invoke u sid input)
    (hv : Checked agent calls sid i v) :
    (erasure agent calls userId).Safe (handle env) (some i)
      (After fun r v => Uncached sid i v ∧ (r = none → Loading agent calls sid v i)) (agent.phaseOpening sid) v := by
  have hpost : ∀ r : Option String, OwnKnowledge env (some i)
      fun v => Uncached sid i v ∧ (r = none → Loading agent calls sid v i) :=
    fun _ => uncached_own.and loading_own.imp
  unfold Agent.phaseOpening
  by_cases hskills : agent.skills.isSome = true
  · rw [if_pos hskills]
    refine ⟨_, checked_own.stable, hv, fun v' hI hK hC => ?_⟩
    have hread : Request.OffCache (.sql (.selectPhaseOpening sid)) := trivial
    refine ⟨.offCache hread, hI.turn hC (.offCache hread), ?_⟩
    cases hr : (handle env (.sql (.selectPhaseOpening sid)) v'.state).1 with
    | error e => exact after_fail _
    | ok row =>
      cases row with
      | none => exact after_fail _
      | some c =>
        refine Discipline.Safe.ret (hpost c).stable ⟨uncached_after hread.caches hK.uncached, ?_⟩
        rintro rfl
        refine ⟨happened_after.mpr (.inr ⟨rfl, ?_⟩), unended_after (fun _ => rfl) hK.unended⟩
        simp [startsHistory, hcall, hr]
  · rw [if_neg hskills]
    refine Discipline.Safe.ret (hpost none).stable ⟨hv.uncached, fun _ => ⟨hv.started ?_, hv.unended⟩⟩
    simpa using hskills

theorem getCacheMemory_uncached {u : String} (hv : Uncached sid i v ∧ Loading agent calls sid v i) :
    (erasure agent calls userId).Safe (handle env) (some i) (After fun _ => Uncached sid i)
      (Agent.getCacheMemory u sid) v := by
  have hloading : OwnKnowledge env (some i) fun v => Uncached sid i v ∧ Loading agent calls sid v i :=
    uncached_own.and loading_own
  have hload : Request.OffCache (.cacheLoad u sid) := trivial
  refine ⟨_, hloading.stable, hv, fun v₁ hI₁ hK₁ hC₁ => ⟨.offCache hload, hI₁.turn hC₁ (.offCache hload), ?_⟩⟩
  have huncached : Uncached sid i (v₁.after (handle env) (some i) (.cacheLoad u sid)) :=
    uncached_after hload.caches hK₁.1
  cases hr : (handle env (.cacheLoad u sid) v₁.state).1 with
  | some messages => exact Discipline.Safe.ret uncached_own.stable huncached
  | none =>
    have hmissed : Loading agent calls sid (v₁.after (handle env) (some i) (.cacheLoad u sid)) i := by
      refine ⟨hK₁.2.1.after, fun hx => hK₁.2.2 ((happened_not ?_).mp hx)⟩
      simp [hr, endsHistory]
    have hread : Request.OffCache (.sql (.selectMessages sid)) := trivial
    refine ⟨_, hloading.stable, ⟨huncached, hmissed⟩, fun v₂ hI₂ hK₂ hC₂ =>
      ⟨.offCache hread, hI₂.turn hC₂ (.offCache hread), ?_⟩⟩
    cases hr' : (handle env (.sql (.selectMessages sid)) v₂.state).1 with
    | error e => exact after_fail _
    | ok history =>
      have hfound : Loading agent calls sid (v₂.after (handle env) (some i) (.sql (.selectMessages sid))) i := by
        refine ⟨hK₂.2.1.after, fun hx => hK₂.2.2 ((happened_not ?_).mp hx)⟩
        simp [hr', endsHistory]
      refine ⟨_, hloading.stable, ⟨uncached_after hread.caches hK₂.1, hfound⟩, fun v₃ hI₃ hK₃ hC₃ => ?_⟩
      have hstore : OfErasure agent calls userId v₃ (some i) (.cacheStore u sid history) := .load hK₃.2
      exact ⟨hstore, hI₃.turn hC₃ hstore, Discipline.Safe.ret uncached_own.stable (uncached_after rfl hK₃.1)⟩

variable (agent)

theorem openingContext_uncached {u input : String} (hcall : calls i = .invoke u sid input)
    (hI : Erasing agent calls userId v) (hv : Checked agent calls sid i v) :
    (erasure agent calls userId).Safe (handle env) (some i) (After fun _ => Uncached sid i)
      (agent.openingContext u sid input) v := by
  refine after_bind hI (phaseOpening_loading agent hcall hv) fun r v₁ hI₁ hK₁ => ?_
  cases r with
  | none =>
    exact after_bind hI₁ (getCacheMemory_uncached ⟨hK₁.1, hK₁.2 rfl⟩) fun history v₂ _ hK₂ =>
      Discipline.Safe.ret uncached_own.stable hK₂
  | some ctx =>
    refine after_bind (E := fun _ => Uncached sid i) hI₁ ?_ fun _ v₂ hI₂ hK₂ => ?_
    · refine ⟨_, uncached_own.stable, hK₁.1, fun v₂ hI₂ hK₂ hC₂ => ⟨.evict, hI₂.turn hC₂ .evict, ?_⟩⟩
      exact Discipline.Safe.ret uncached_own.stable (uncached_after rfl hK₂)
    · refine after_bind hI₂ (after_uncached hK₂ (Agent.sess_only (SessionMemory.setPhaseOpeningContext_only trivial)))
        fun _ v₃ _ hK₃ => Discipline.Safe.ret uncached_own.stable hK₃

theorem Request.OfStrategy.offCache (hq : q.OfStrategy) : q.OffCache := by
  cases q <;> trivial

theorem Request.Reads.offCache (hq : q.Reads) : q.OffCache := by
  cases q with
  | sql st => cases st <;> trivial
  | _ => trivial

theorem Request.OfWrites.offCache {x : Option (JsonText InterruptedState)} {status : SessionStatus}
    (hq : q.OfWrites sid x status) : q.OffCache := by
  cases q with
  | sql st => cases st <;> trivial
  | _ => trivial

theorem Request.OfResume.offCache (hq : q.OfResume sid) : q.OffCache := by
  rcases hq with hq | hq | ⟨x, status, hq⟩
  · exact hq.offCache
  · rcases hq with hq | ⟨x, y, rfl⟩
    · exact hq.offCache
    · trivial
  · exact hq.offCache

/-- The recording of a turn. -/
theorem appendTurn_recording {m m' : Message} (hI : Erasing agent calls userId v) (hv : Uncached sid i v) :
    (erasure agent calls userId).Safe (handle env) (some i) (After fun _ v => Recording sid v i)
      (sess (SessionMemory.appendTurn sid m m')) v := by
  unfold sess SessionMemory.appendTurn SessionMemory.append
  rw [Prog.mapErr_bind]
  refine after_bind hI (after_uncached hv (Prog.Only.mapErr (query_only trivial))) fun session v₁ hI₁ hK₁ => ?_
  cases session with
  | none => exact after_fail _
  | some session =>
    dsimp only
    rw [Prog.mapErr_bind]
    refine after_bind hI₁ (after_uncached hK₁ (Prog.Only.mapErr (nowTimestamp_only trivial)))
      fun now v₂ hI₂ hK₂ => ?_
    refine ⟨_, uncached_own.stable, hK₂, fun v₃ hI₃ hK₃ hC₃ => ?_⟩
    have hrecord : Request.OffCache (.sql (.appendMessages sid [m, m'] now)) := trivial
    refine ⟨.offCache hrecord, hI₃.turn hC₃ (.offCache hrecord), ?_⟩
    cases hr : (handle env (.sql (.appendMessages sid [m, m'] now)) v₃.state).1 with
    | error e => exact after_fail _
    | ok u =>
      refine Discipline.Safe.ret recording_own.stable ⟨happened_after.mpr (.inr ⟨rfl, ?_⟩), uncached_after rfl hK₃⟩
      simp [recordsTurn, hr]

/-- A call may end at any point. -/
theorem after_true {ε α : Type} {p : M ε α} (hp : p.Only Request.OffCache) :
    (erasure agent calls userId).Safe (handle env) j (After fun _ _ => True) p v :=
  after_offCache (fun _ _ _ _ _ => trivial) (fun _ _ _ _ => trivial) trivial hp

theorem keepTurn_through {u input response : String} (hI : Erasing agent calls userId v) (hv : Uncached sid i v) :
    (erasure agent calls userId).Safe (handle env) (some i) (After fun _ _ => True)
      (agent.keepTurn u sid input response) v := by
  refine after_bind hI (appendTurn_recording agent hI hv) fun _ v₁ hI₁ hK₁ => ?_
  refine after_bind (E := fun _ _ => True) hI₁ ?_ fun _ v₂ _ _ => after_true agent ?_
  · refine ⟨_, recording_own.stable, hK₁, fun v₂ hI₂ hK₂ hC₂ => ?_⟩
    have hcache : OfErasure agent calls userId v₂ (some i)
        (.cacheAppendTurn u sid (.ofText .user input) (.ofText .assistant response)) := .record hK₂
    exact ⟨hcache, hI₂.turn hC₂ hcache, after_true agent trivial⟩
  · dsimp only
    split
    · exact Prog.Only.bind (request_only trivial) fun _ => trivial
    · trivial

theorem invoke_through {u input : String} (hcall : calls i = .invoke u sid input)
    (hI : Erasing agent calls userId v) (hv : Uncached sid i v ∧ Unended sid i v) :
    (erasure agent calls userId).Safe (handle env) (some i) (After fun _ _ => True) (agent.invoke u sid input) v := by
  refine after_bind (E := fun _ => Uncached sid i) hI ?_ fun p v₁ hI₁ hK₁ => ?_
  · refine after_bind hI (assertOwner_checked hcall hv) fun _ v₁ hI₁ hK₁ => ?_
    refine after_bind hI₁ (openingContext_uncached agent hcall hI₁ hK₁) fun x v₂ hI₂ hK₂ => ?_
    refine after_bind hI₂ (after_uncached hK₂ ?_) fun y v₃ _ hK₃ => Discipline.Safe.ret uncached_own.stable hK₃
    exact Prog.Only.mono (agent.resolveSkill_binds input) fun q hq => by
      rcases hq with hq | ⟨x, rfl⟩
      · exact hq.offCache
      · trivial
  · refine after_bind hI₁ (after_uncached hK₁ ?_) fun outcome v₂ hI₂ hK₂ => ?_
    · exact Prog.Only.mono (agent.runPrepared_works u p) fun q hq =>
        hq.elim Request.Reads.offCache Request.OfStrategy.offCache
    · cases outcome with
      | done text => exact keepTurn_through agent hI₂ hK₂
      | interrupted interrupt =>
        exact after_true agent (Prog.Only.mono (Agent.handleToolInterrupt_only interrupt _) fun q ⟨x, status, hq⟩ => hq.offCache)

theorem turnProgram_through (hI : Erasing agent calls userId v) (hv : ∀ p, ¬ Happened v (some i) p) :
    (erasure agent calls userId).Safe (handle env) (some i) (After fun _ _ => True) (agent.turnProgram (calls i)) v := by
  cases hcall : calls i with
  | invoke u s input => exact invoke_through agent hcall hI ⟨hv _, hv _⟩
  | resume u s approvalId decision =>
    exact after_true agent (Prog.Only.mono (agent.resume_resumes ..) fun q hq => hq.offCache)

variable {agent}

/-! ### The deletion -/

/-- What the deletion knows while these sessions are left. -/
structure Remaining (userId : String) (sessions : List Session) (v : ErasureView ι) : Prop where
  evicted : ∀ sid, Listed userId sid v → Evicted userId sid v ∨ ∃ s ∈ sessions, s.id = sid
  linked : ∀ s ∈ sessions, v.state.store.Linked s.id

theorem remaining_own {sessions : List Session} :
    OwnKnowledge env (none : Option ι) (Remaining userId sessions) := fun _ _ _ hk hv => {
  evicted := fun sid h => (hv.evicted sid ((happened_other hk).mp h)).imp_left Happened.after
  linked := fun s hs => linked_after (hv.linked s hs) }

theorem remaining_after {sessions : List Session} (hq : ∀ (sid : SessionId) (r : Reply q), listsSession userId sid ⟨q, r⟩ = false)
    (hv : Remaining userId sessions v) : Remaining userId sessions (v.after (handle env) j q) where
  evicted sid h := by
    refine (hv.evicted sid ((happened_not ?_).mp h)).imp_left Happened.after
    rw [hq]
    exact Bool.false_ne_true
  linked s hs := linked_after (hv.linked s hs)

/-- Every listed session is evicted. -/
def AllEvicted (userId : String) (v : ErasureView ι) : Prop := ∀ sid, Listed userId sid v → Evicted userId sid v

theorem allEvicted_own : OwnKnowledge env (none : Option ι) (AllEvicted userId) := fun _ _ _ hk hv sid h =>
  (hv sid ((happened_other hk).mp h)).after

theorem deleteAll_evicts {sessions : List Session} (hI : Erasing agent calls userId v)
    (hv : Remaining userId sessions v) :
    (erasure agent calls userId).Safe (handle env) none (After fun _ => AllEvicted userId)
      (Agent.deleteAll userId sessions) v := by
  induction sessions generalizing v with
  | nil =>
    refine Discipline.Safe.ret allEvicted_own.stable fun sid h => (hv.evicted sid h).resolve_right ?_
    simp
  | cons session sessions ih =>
    refine ⟨_, remaining_own.stable, hv, fun v₁ hI₁ hK₁ hC₁ => ?_⟩
    have hdelete : Request.OffCache (.sql (.deleteSession session.id)) := trivial
    refine ⟨.offCache hdelete, hI₁.turn hC₁ (.offCache hdelete), ?_⟩
    have hK₂ : Remaining userId (session :: sessions) (v₁.after (handle env) none (.sql (.deleteSession session.id))) :=
      remaining_after (fun _ _ => rfl) hK₁
    cases hr : (handle env (.sql (.deleteSession session.id)) v₁.state).1 with
    | error e => exact after_fail _
    | ok r =>
      have hrow := deleteSession_row hr
      have hstable : (erasure agent calls userId).Stable (handle env) none fun v =>
          Remaining userId (session :: sessions) v ∧ v.state.store.row? session.id = none :=
        fun v k q hk hI hC hG hv => ⟨remaining_own v k q hk hv.1, row_none_after hv.2 hG.noInsert⟩
      refine ⟨_, hstable, ⟨hK₂, hrow⟩, fun v₃ hI₃ hK₃ hC₃ => ?_⟩
      have hlinked := hK₃.1.linked session List.mem_cons_self
      have herase : OfErasure agent calls userId v₃ none (.cacheEvict userId session.id) := .erase hK₃.2 (hlinked hK₃.2)
      refine ⟨herase, hI₃.turn hC₃ herase, ih (hI₃.turn hC₃ herase) ?_⟩
      have hK₄ : Remaining userId (session :: sessions) (v₃.after (handle env) none (.cacheEvict userId session.id)) :=
        remaining_after (fun _ _ => rfl) hK₃.1
      refine ⟨fun sid h => ?_, fun s hs => hK₄.linked s (List.mem_cons_of_mem _ hs)⟩
      rcases hK₄.evicted sid h with h | ⟨s, hs, rfl⟩
      · exact .inl h
      · rcases List.mem_cons.mp hs with rfl | hs
        · exact .inl (happened_after.mpr (.inr ⟨rfl, by simp [Request.evicts]⟩))
        · exact .inr ⟨s, hs, rfl⟩

/-- The sessions that are listed have rows. -/
theorem listed_row {w : World} {sessions : List Session}
    (hr : (handle env (.sql (.selectByUser userId)) w).1 = .ok sessions) {s : Session} (hs : s ∈ sessions) :
    (handle env (.sql (.selectByUser userId)) w).2.store.row? s.id ≠ none := by
  rw [Request.Idle.store (q := .sql (.selectByUser userId)) trivial]
  cases he : env.storeError w.steps with
  | some e => rw [handle_sql_error _ he] at hr; cases hr
  | none =>
    rw [handle_sql_ok _ he] at hr
    obtain rfl : w.store.sessionsOf userId = sessions := Except.ok.inj hr
    obtain ⟨row, hrow, rfl⟩ := List.mem_map.mp ((List.mem_insertionSort _).mp hs)
    intro hnone
    exact Store.row?_eq_none.mp hnone row (List.mem_of_mem_filter hrow) rfl

theorem deleteAllUserData_evicts (hI : Erasing agent calls userId v) (hv : ∀ p, ¬ Happened v (none : Option ι) p) :
    (erasure agent calls userId).Safe (handle env) none (After fun _ => AllEvicted userId)
      (Agent.deleteAllUserData userId) v := by
  refine after_bind (E := fun sessions => Remaining userId sessions) hI ?_ fun sessions v₁ hI₁ hK₁ =>
    deleteAll_evicts hI₁ hK₁
  have hnone : OwnKnowledge env (none : Option ι) fun v => ∀ sid, ¬ Listed userId sid v :=
    fun v k q hk hv sid h => hv sid ((happened_other hk).mp h)
  refine ⟨_, hnone.stable, fun sid => hv _, fun v₁ hI₁ hK₁ hC₁ => ?_⟩
  have hlist : Request.OffCache (.sql (.selectByUser userId)) := trivial
  refine ⟨.offCache hlist, hI₁.turn hC₁ (.offCache hlist), ?_⟩
  cases hr : (handle env (.sql (.selectByUser userId)) v₁.state).1 with
  | error e => exact after_fail _
  | ok sessions =>
    refine Discipline.Safe.ret remaining_own.stable ⟨fun sid h => .inr ?_, fun s hs hnone => absurd hnone (listed_row hr hs)⟩
    rcases happened_after.mp h with h | ⟨-, h⟩
    · exact absurd h (hK₁ sid)
    · simpa [listsSession, hr] using h

/-! ### Runs -/

section Runs

variable [DecidableEq ι]

/-- A deletion and calls that have not begun. -/
def Agent.erasurePool (agent : Agent) (userId : String) (calls : ι → TurnCall) (w : World) :
    Pool (Option ι) Reply World AgentError Unit where
  threads
    | none => deleteAllUserData userId
    | some i => do
      let _ ← agent.turnProgram (calls i)
      return ()
  view := ⟨w, []⟩

/-- Once the deletion has succeeded and the calls have ended, nothing is left of the sessions it listed. -/
def LeavesNothing (userId : String) (P : Pool (Option ι) Reply World AgentError Unit) : Prop :=
  (P.threads none).result? = some (.ok ()) → (∀ i, (P.threads (some i)).result?.isSome) →
    ∀ sid, Listed userId sid P.view → P.view.state.Erased userId sid

/-- In every interleaving in which no call is about to write to the cache when its session is evicted, the deletion
leaves nothing. -/
theorem erased_completely (env : Env) (agent : Agent) (userId : String) (calls : ι → TurnCall) (w : World)
    (schedule : List (Option ι))
    (hC : (agent.erasurePool userId calls w).Conforms (handle env) (NoneWriting agent calls) schedule) :
    LeavesNothing userId ((agent.erasurePool userId calls w).run (handle env) schedule) := by
  have hnot : ∀ j p, ¬ Happened (agent.erasurePool userId calls w).view j p := fun j p ⟨x, hx, _⟩ => nomatch hx
  have hI : Erasing agent calls userId (agent.erasurePool userId calls w).view :=
    ⟨fun sid h => absurd h (hnot _ _), fun sid h => absurd h (hnot _ _)⟩
  have hsafe : ∀ j, (erasure agent calls userId).Safe (handle env) j
      (After fun _ v => j = none → AllEvicted userId v) ((agent.erasurePool userId calls w).threads j)
      (agent.erasurePool userId calls w).view := by
    intro j
    cases j with
    | none =>
      refine (deleteAllUserData_evicts hI (hnot none)).imp fun r v h => ?_
      cases r with
      | ok a => exact fun _ => h
      | error e => trivial
    | some i =>
      refine after_bind hI (turnProgram_through agent hI (hnot (some i))) fun _ v' _ _ => ?_
      exact Discipline.Safe.ret (fun _ _ _ _ _ _ _ _ h => nomatch h) fun h => nomatch h
  have hI' := (Pool.run_safe hI hsafe hC).1
  have hpost := (Pool.run_post hI hsafe hC none).1
  generalize (agent.erasurePool userId calls w).run (handle env) schedule = P at hI' hpost
  intro hdone _ sid hlisted
  cases hthread : P.threads none with
  | ret a => exact hI'.erased sid (hpost a hthread rfl sid hlisted)
  | fail e => rw [hthread] at hdone; cases hdone
  | ask q k => rw [hthread] at hdone; cases hdone

end Runs

/-! ### A call in flight -/

instance (p : Event → Bool) (v : ErasureView ι) (j : Option ι) [DecidableEq ι] : Decidable (Happened v j fun x => p x = true) := by
  unfold Happened
  infer_instance

instance (userId : String) (sid : SessionId) (v : ErasureView ι) [DecidableEq ι] : Decidable (Listed userId sid v) := by
  unfold Listed
  infer_instance

instance (agent : Agent) (calls : ι → TurnCall) (v : ErasureView ι) [DecidableEq ι] [Fintype ι] (j : Option ι) (q : Request) :
    Decidable (NoneWriting agent calls v j q) := by
  unfold NoneWriting Loading Recording
  split <;> infer_instance

/-- An invocation of the first of two sessions. -/
def oneInvocation : Unit → TurnCall := fun _ => .invoke "u" 0 "first"

/-- The data of the user are deleted while the model is at work. -/
theorem erased_at_work :
    ((Agent.plain.erasurePool "u" oneInvocation .twoSessions).run (handle .answering)
      (List.replicate 6 (some ()) ++ List.replicate 20 none ++ List.replicate 20 (some ()))).view.state.Erased "u" 0 :=
  erased_completely .answering .plain "u" oneInvocation .twoSessions _ (by decide +kernel) (by decide +kernel)
    (by decide +kernel) 0 (by decide +kernel)

/-- Messages that are read before the deletion and put into the cache after it stay there; so does a turn that is
recorded before the deletion and appended to the cache after it. -/
theorem conversation_left :
    ¬ LeavesNothing "u" ((Agent.plain.erasurePool "u" oneInvocation .twoSessions).run (handle .answering)
        (List.replicate 3 (some ()) ++ List.replicate 20 none ++ List.replicate 20 (some ()))) ∧
      ¬ LeavesNothing "u" ((Agent.plain.erasurePool "u" oneInvocation .twoSessions).run (handle .answering)
        (List.replicate 9 (some ()) ++ List.replicate 20 none ++ List.replicate 20 (some ()))) := by
  constructor
  · intro h
    have hgone := (h (by decide +kernel) (by decide +kernel) 0 (by decide +kernel)).cache
    exact absurd hgone (by decide +kernel)
  · intro h
    have hgone := (h (by decide +kernel) (by decide +kernel) 0 (by decide +kernel)).cache
    exact absurd hgone (by decide +kernel)

end AgentVerse
