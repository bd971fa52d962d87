import AgentVerse.Agent.Tiers
import AgentVerse.Session.Cascade

/-!
# Erasing the sessions of a user

`delete_all_user_data` lists the sessions of a user, deletes each of them from the store and then evicts it from the
cache, while calls on these sessions are in flight. What is left of a session once it is evicted stays gone unless a
call was about to write its conversation into the cache at that moment (`NoneWriting`): no call gets to such a point
later on, because every way there reads or appends to the row of the session (`Erasing.turn`).
-/

namespace AgentVerse

open Effects

variable {ι : Type}

/-! ### Calls on their way to the cache -/

/-- An invocation has passed the check of its owner and, in an agent with skills, found no opening context: it goes on
to the cache. -/
def startsHistory (agent : Agent) (sid : SessionId) : TurnCall → Event → Bool
  | .invoke userId _ _, ⟨.sql (.selectSession s), .ok (some session)⟩ =>
    s = sid && session.userId = userId && agent.skills.isNone
  | .invoke .., ⟨.sql (.selectPhaseOpening s), .ok (some none)⟩ => s = sid
  | _, _ => false

/-- The history is there, in the cache too, or could not be read. -/
def endsHistory (sid : SessionId) : Event → Bool
  | ⟨.cacheLoad _ s, some _⟩ => s = sid
  | ⟨.cacheStore _ s _, _⟩ => s = sid
  | ⟨.sql (.selectMessages s), .error _⟩ => s = sid
  | _ => false

/-- A turn is recorded in the store. -/
def recordsTurn (sid : SessionId) : Event → Bool
  | ⟨.sql (.appendMessages s _ _), .ok _⟩ => s = sid
  | _ => false

/-- The session is evicted from the cache. -/
def Request.evicts (userId : String) (sid : SessionId) : Request → Bool
  | .cacheEvict u s => u = userId && s = sid
  | _ => false

/-- The sessions of the user are listed, this one among them. -/
def listsSession (userId : String) (sid : SessionId) : Event → Bool
  | ⟨.sql (.selectByUser u), .ok sessions⟩ => u = userId && sessions.any fun s => s.id = sid
  | _ => false

/-- Thread `none` erases, thread `some i` runs a call. -/
abbrev ErasureView (ι : Type) : Type := AgentView (Option ι)

/-- Call `i` is between its check and the store of the history into the cache. -/
def Loading (agent : Agent) (calls : ι → TurnCall) (sid : SessionId) (v : ErasureView ι) (i : ι) : Prop :=
  Happened v (some i) (fun x => startsHistory agent sid (calls i) x = true) ∧
    ¬ Happened v (some i) fun x => endsHistory sid x = true

/-- Call `i` is between the record of its turn in the store and its append to the cache. -/
def Recording (sid : SessionId) (v : ErasureView ι) (i : ι) : Prop :=
  Happened v (some i) (fun x => recordsTurn sid x = true) ∧
    ¬ Happened v (some i) fun x => x.1.cachesTurn sid = true

def Evicted (userId : String) (sid : SessionId) (v : ErasureView ι) : Prop :=
  Happened v none fun x => x.1.evicts userId sid = true

def Listed (userId : String) (sid : SessionId) (v : ErasureView ι) : Prop :=
  Happened v none fun x => listsSession userId sid x = true

/-- When a session is evicted, no call is about to write its conversation into the cache. -/
def NoneWriting (agent : Agent) (calls : ι → TurnCall) (v : ErasureView ι) : Option ι → Request → Prop
  | none, .cacheEvict _ sid => ∀ i, ¬ Loading agent calls sid v i ∧ ¬ Recording sid v i
  | _, _ => True

/-! ### Nothing is left -/

/-- Nothing is left of a session in either tier. -/
structure World.Erased (w : World) (userId : String) (sid : SessionId) : Prop where
  row : w.store.row? sid = none
  messages : w.store.rows sid = []
  cache : ∀ e ∈ w.cache, e.1 ≠ (userId, sid)

/-- A request that neither creates sessions nor touches the cache, except to read it. -/
def Request.OffCache : Request → Prop
  | .cacheStore .. | .cacheAppendTurn .. | .cacheEvict .. | .sql (.insertSession _) => False
  | _ => True

variable {env : Env} {agent : Agent} {calls : ι → TurnCall} {userId : String} {sid : SessionId} {v : ErasureView ι}
  {j : Option ι} {i : ι} {q : Request}

/-! ### What the calls find -/

/-- A session without a row is not found. -/
theorem startsHistory_missing {w : World} (h : w.store.row? sid = none) (call : TurnCall) :
    startsHistory agent sid call ⟨q, (handle env q w).1⟩ = false := by
  cases call with
  | resume => cases q <;> rfl
  | invoke u s' input =>
    cases q with
    | sql st =>
      cases he : env.storeError w.steps with
      | some e => rw [handle_sql_error st he]; cases st <;> rfl
      | none =>
        rw [handle_sql_ok st he]
        cases st with
        | selectSession s =>
          by_cases hs : s = sid
          · subst hs
            simp [Statement.exec, h, startsHistory]
          · simp only [Statement.exec]
            cases hrow : w.store.row? s <;> simp [startsHistory, hs]
        | selectPhaseOpening s =>
          by_cases hs : s = sid
          · subst hs
            simp [Statement.exec, h, startsHistory]
          · simp only [Statement.exec]
            cases hrow : w.store.row? s with
            | none => simp [startsHistory]
            | some row => cases hctx : row.phaseOpeningContext <;> simp [startsHistory, hs, hctx]
        | _ => rfl
    | _ => rfl

/-- Nothing is recorded in a session without a row. -/
theorem recordsTurn_missing {w : World} (h : w.store.row? sid = none) :
    recordsTurn sid ⟨q, (handle env q w).1⟩ = false := by
  cases q with
  | sql st =>
    cases he : env.storeError w.steps with
    | some e => rw [handle_sql_error st he]; cases st <;> rfl
    | none =>
      rw [handle_sql_ok st he]
      cases st with
      | appendMessages s ms now =>
        by_cases hs : s = sid
        · subst hs
          simp [Statement.exec, Store.appendMessages, h, recordsTurn]
        · simp only [Statement.exec]
          cases (w.store.appendMessages s ms now).1 <;> simp [recordsTurn, hs]
      | _ => rfl
  | _ => rfl

/-- Without the row of its session, no call sets out for the cache. -/
theorem writing_missing (hrow : v.state.store.row? sid = none) (h : ¬ Loading agent calls sid v i ∧ ¬ Recording sid v i) :
    ¬ Loading agent calls sid (v.after (handle env) j q) i ∧ ¬ Recording sid (v.after (handle env) j q) i := by
  constructor
  · rintro ⟨hstarts, hends⟩
    refine h.1 ⟨(happened_not ?_).mp hstarts, fun hx => hends hx.after⟩
    rw [startsHistory_missing hrow]
    exact Bool.false_ne_true
  · rintro ⟨hrecords, hcaches⟩
    refine h.2 ⟨(happened_not ?_).mp hrecords, fun hx => hcaches hx.after⟩
    rw [recordsTurn_missing hrow]
    exact Bool.false_ne_true

/-! ### The requests of the threads -/

/-- What the threads ask. -/
inductive OfErasure (agent : Agent) (calls : ι → TurnCall) (userId : String) (v : ErasureView ι) :
    Option ι → Request → Prop where
  | offCache {j : Option ι} {q : Request} (hq : q.OffCache) : OfErasure agent calls userId v j q
  | evict {i : ι} {u : String} {sid : SessionId} : OfErasure agent calls userId v (some i) (.cacheEvict u sid)
  | erase {sid : SessionId} (hrow : v.state.store.row? sid = none) (hmessages : v.state.store.rows sid = []) :
    OfErasure agent calls userId v none (.cacheEvict userId sid)
  | load {i : ι} {u : String} {sid : SessionId} {ms : List Message} (h : Loading agent calls sid v i) :
    OfErasure agent calls userId v (some i) (.cacheStore u sid ms)
  | record {i : ι} {u : String} {sid : SessionId} {m m' : Message} (h : Recording sid v i) :
    OfErasure agent calls userId v (some i) (.cacheAppendTurn u sid m m')

/-- Nothing is left of the evicted sessions, and no call is about to write to the cache for them. -/
structure Erasing (agent : Agent) (calls : ι → TurnCall) (userId : String) (v : ErasureView ι) : Prop where
  erased : ∀ sid, Evicted userId sid v → v.state.Erased userId sid
  quiet : ∀ sid, Evicted userId sid v → ∀ i, ¬ Loading agent calls sid v i ∧ ¬ Recording sid v i

/-- The terms of the threads. -/
def erasure (agent : Agent) (calls : ι → TurnCall) (userId : String) : Discipline (Option ι) Reply World :=
  ⟨Erasing agent calls userId, NoneWriting agent calls, OfErasure agent calls userId⟩

theorem Request.OffCache.cache (hq : q.OffCache) {w : World} {e : (String × SessionId) × CacheEntry}
    (he : e ∈ (handle env q w).2.cache) : e ∈ w.cache := by
  cases q with
  | sql st => rwa [handle_cache] at he
  | cacheStore | cacheAppendTurn | cacheEvict => exact hq.elim
  | _ =>
    refine Request.Apart.cache ?_ w he
    trivial

theorem OfErasure.noInsert (hq : OfErasure agent calls userId v j q) (row : SessionRow) :
    q ≠ .sql (.insertSession row) := by
  rintro rfl
  cases hq with
  | offCache hq => exact hq

/-- The cache gets no entry for an evicted session. -/
theorem OfErasure.cache (hI : Erasing agent calls userId v) (hq : OfErasure agent calls userId v j q)
    (hevicted : Evicted userId sid v) : ∀ e ∈ (v.after (handle env) j q).state.cache, e.1 ≠ (userId, sid) := by
  intro e he
  have hcache := (hI.erased sid hevicted).cache
  cases hq with
  | offCache hq => exact hcache e (hq.cache he)
  | evict => exact hcache e (List.mem_of_mem_filter he)
  | erase => exact hcache e (List.mem_of_mem_filter he)
  | @load i u s ms h =>
    rcases World.mem_cachePut he with ⟨hkey, -⟩ | ⟨-, he⟩
    · rw [hkey]
      intro heq
      obtain rfl : s = sid := congrArg Prod.snd heq
      exact (hI.quiet s hevicted i).1 h
    · exact hcache e (List.mem_of_mem_filter he)
  | @record i u s m m' h =>
    have hput : ∀ ms, e ∈ ((v.state.tick env).cachePut (u, s) ms).cache → e.1 ≠ (userId, sid) := by
      intro ms he
      rcases World.mem_cachePut he with ⟨hkey, -⟩ | ⟨-, he⟩
      · rw [hkey]
        intro heq
        obtain rfl : s = sid := congrArg Prod.snd heq
        exact (hI.quiet s hevicted i).2 h
      · exact hcache e he
    simp only [View.after_state, handle, answer] at he
    split at he
    · exact hput _ he
    · exact hput _ he

/-- A turn of a thread. -/
theorem Erasing.turn (hI : Erasing agent calls userId v) (hC : NoneWriting agent calls v j q)
    (hq : OfErasure agent calls userId v j q) : Erasing agent calls userId (v.after (handle env) j q) := by
  -- a session that was evicted before this turn, or is evicted in it
  have hcases : ∀ sid, Evicted userId sid (v.after (handle env) j q) →
      Evicted userId sid v ∨ j = none ∧ q = .cacheEvict userId sid := by
    intro sid h
    refine (happened_after.mp h).imp_right fun ⟨hj, hq⟩ => ⟨hj, ?_⟩
    cases q with
    | cacheEvict u s =>
      simp only [Request.evicts, Bool.and_eq_true, decide_eq_true_eq] at hq
      rw [hq.1, hq.2]
    | _ => cases hq
  have hrow : ∀ sid, Evicted userId sid (v.after (handle env) j q) → v.state.store.row? sid = none := by
    intro sid h
    rcases hcases sid h with h | ⟨rfl, rfl⟩
    · exact (hI.erased sid h).row
    · cases hq with
      | offCache hq => exact hq.elim
      | erase hrow => exact hrow
  have hmessages : ∀ sid, Evicted userId sid (v.after (handle env) j q) → v.state.store.rows sid = [] := by
    intro sid h
    rcases hcases sid h with h | ⟨rfl, rfl⟩
    · exact (hI.erased sid h).messages
    · cases hq with
      | offCache hq => exact hq.elim
      | erase hrow hmessages => exact hmessages
  refine ⟨fun sid h => ?_, fun sid h i => ?_⟩
  · have hgone : (v.after (handle env) j q).state.store.row? sid = none := row_none_after (hrow sid h) hq.noInsert
    refine ⟨hgone, linked_after (fun _ => hmessages sid h) hgone, ?_⟩
    rcases hcases sid h with h | ⟨rfl, rfl⟩
    · exact hq.cache hI h
    · intro e he
      simpa using (List.mem_filter.mp he).2
  · refine writing_missing (hrow sid h) ?_
    rcases hcases sid h with h | ⟨rfl, rfl⟩
    · exact hI.quiet sid h i
    · exact hC i

end AgentVerse
