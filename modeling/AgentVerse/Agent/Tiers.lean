import AgentVerse.Agent.Opening
import AgentVerse.Session.Ledger

/-!
# The two tiers of a conversation

A finished turn is first recorded in the store and then appended to the cache, and a call that misses in the cache
reads the messages of its session from the store before it puts them into the cache. Between two such steps other calls
take theirs. This file follows, in any interleaving, the turns that are recorded but not cached yet (`behind`): as long
as every write to the cache is in step with the store (`InStep`), a cached conversation with the turns behind it is the
transcript (`Tiers`).
-/

namespace AgentVerse

open Effects

variable {ι : Type}

/-! ### Turns on their way -/

/-- The turn that an event records, with its thread. -/
def recordedTurn? (sid : SessionId) : ι × Event → Option (ι × List Message)
  | (i, ⟨.sql (.appendMessages s ms _), .ok _⟩) => if s = sid then some (i, ms) else none
  | _ => none

/-- A turn is appended to the cache. -/
def Request.cachesTurn (sid : SessionId) : Request → Bool
  | .cacheAppendTurn _ s _ _ => s = sid
  | _ => false

/-- The messages are read from the store. -/
def readsMessages (sid : SessionId) : Event → Bool
  | ⟨.sql (.selectMessages s), .ok _⟩ => s = sid
  | _ => false

/-- The messages of turns. -/
def messagesOf (turns : List (ι × List Message)) : List Message := turns.flatMap (·.2)

@[simp] theorem messagesOf_append (l l' : List (ι × List Message)) :
    messagesOf (l ++ l') = messagesOf l ++ messagesOf l' := List.flatMap_append

@[simp] theorem messagesOf_cons (t : ι × List Message) (l : List (ι × List Message)) :
    messagesOf (t :: l) = t.2 ++ messagesOf l := List.flatMap_cons

@[simp] theorem messagesOf_nil : messagesOf ([] : List (ι × List Message)) = [] := rfl

/-! ### Requests that leave the tiers alone -/

/-- A request that adds nothing to the cache, and neither adds nor removes messages or sessions. -/
def Request.Apart : Request → Prop
  | .cacheStore .. | .cacheAppendTurn .. => False
  | .sql (.appendMessages ..) | .sql (.updateWatermark ..) | .sql (.deleteExpired ..) | .sql (.insertSession _)
  | .sql (.deleteSession _) | .sql (.deleteEndedSessions _) => False
  | _ => True

variable {env : Env} {sid : SessionId} {v : AgentView ι} {i j : ι} {q : Request}

theorem Request.Apart.quiet (hq : q.Apart) (sid : SessionId) : q.Quiet sid := by
  cases q with
  | sql st => cases st <;> trivial
  | _ => trivial

theorem Request.Apart.recorded (hq : q.Apart) (r : Reply q) : recordedTurn? sid (j, ⟨q, r⟩) = none := by
  cases q with
  | sql st => cases st <;> first | rfl | exact hq.elim
  | _ => rfl

theorem recordedTurn?_thread {t : ι × List Message} {e : Event} (h : recordedTurn? sid (j, e) = some t) : t.1 = j := by
  unfold recordedTurn? at h
  split at h
  · rename_i heq
    split at h
    · cases heq
      cases h
      rfl
    · cases h
  · cases h

theorem recordedTurn?_session {t : ι × List Message} {s : SessionId} {ms : List Message} {now : Int}
    {r : Except String Unit} (h : recordedTurn? sid (j, ⟨.sql (.appendMessages s ms now), r⟩) = some t) : s = sid := by
  cases r with
  | error e => cases h
  | ok u =>
    by_contra hs
    simp [recordedTurn?, hs] at h

/-- A statement leaves the cache as it is. -/
theorem handle_cache (st : Statement) (w : World) : (handle env (.sql st) w).2.cache = w.cache := by
  simp only [handle, answer]
  split <;> rfl

theorem Request.Apart.caches (hq : q.Apart) : q.cachesTurn sid = false := by
  cases q <;> first | rfl | exact hq.elim

theorem Request.Apart.transcript (hq : q.Apart) (w : World) :
    (handle env q w).2.store.transcript sid = w.store.transcript sid :=
  Store.transcript_congr ((hq.quiet sid).rows w)

theorem Request.Apart.cache (hq : q.Apart) (w : World) {e : (String × SessionId) × CacheEntry}
    (he : e ∈ (handle env q w).2.cache) : e ∈ w.cache := by
  cases q with
  | sql st =>
    simp only [handle, answer] at he
    split at he <;> exact he
  | cacheStore | cacheAppendTurn => exact hq.elim
  | cacheEvict u s => exact List.mem_of_mem_filter he
  | submit | resolve | poll | sweepExpired =>
    simp only [handle, answer, queueOp] at he
    split at he <;> exact he
  | _ => exact he

theorem Request.Apart.owns (hq : q.Apart) {w : World} {u : String} {s : SessionId} :
    (handle env q w).2.owns u s ↔ w.owns u s := by
  have hkeeps : q.Keeps (·.userId) s := by
    cases q with
    | sql st =>
      cases st with
      | appendMessages | updateWatermark | deleteExpired | insertSession | deleteSession | deleteEndedSessions =>
        exact hq.elim
      | updateStatus | updateSkillContext | updatePhaseOpening | updatePhaseTransition | updateInterruptedState =>
        intro s' f hf _ row
        simp only [Statement.update?, Option.some.injEq, Prod.mk.injEq] at hf
        obtain ⟨-, rfl⟩ := hf
        rfl
      | _ => intro s' f hf; cases hf
    | _ => trivial
  unfold World.owns
  rw [hkeeps.row w]

theorem append_owns {w : World} {u : String} {s : SessionId} {ms : List Message} {now : Int} :
    (handle env (.sql (.appendMessages sid ms now)) w).2.owns u s ↔ w.owns u s := by
  have hkeeps : Request.Keeps (·.userId) s (.sql (.appendMessages sid ms now)) := by
    intro s' f hf
    cases hf
  unfold World.owns
  rw [hkeeps.row w]

/-! ### Turns behind the cache -/

variable [DecidableEq ι]

/-- The turns behind the cache, after one more event. -/
def behindStep (sid : SessionId) (b : List (ι × List Message)) (x : ι × Event) : List (ι × List Message) :=
  match recordedTurn? sid x with
  | some t => b ++ [t]
  | none => if x.2.1.cachesTurn sid then b.filter fun t => t.1 ≠ x.1 else b

/-- The recorded turns that their threads have not appended to the cache yet, oldest first. -/
def behind (sid : SessionId) (v : AgentView ι) : List (ι × List Message) := v.trace.foldl (behindStep sid) []

/-- The turns recorded since thread `i` read the messages, oldest first. -/
def unread (sid : SessionId) (v : AgentView ι) (i : ι) : List (ι × List Message) :=
  (v.since i (readsMessages sid)).reverse.filterMap (recordedTurn? sid)

/-- Writes to the cache are in step with the store. Messages that were read are put into the cache only when the turns
behind it are those recorded since; a turn is appended only in its order, and to a cached conversation, unless nothing
comes before it. -/
def InStep (v : AgentView ι) (i : ι) : Request → Prop
  | .cacheStore _ s _ => behind s v = unread s v i
  | .cacheAppendTurn u s _ _ => (behind s v).head?.map (·.1) = some i ∧
      ((v.state.cache.lookup (u, s)).isSome ∨ v.state.store.transcript s = messagesOf (behind s v))
  | _ => True

/-! ### The requests of the calls -/

/-- What the calls ask. -/
inductive OfTiers (v : AgentView ι) (i : ι) : Request → Prop where
  | apart {q : Request} (hq : q.Apart) : OfTiers v i q
  | store {u : String} {sid : SessionId} {ms : List Message} (howner : v.state.owns u sid)
    (hread : ms ++ messagesOf (unread sid v i) = v.state.store.transcript sid) : OfTiers v i (.cacheStore u sid ms)
  | record {sid : SessionId} {ms : List Message} {now : Int} (hfree : ∀ t ∈ behind sid v, t.1 ≠ i) :
    OfTiers v i (.sql (.appendMessages sid ms now))
  | cache {u : String} {sid : SessionId} {m m' : Message} (howner : v.state.owns u sid)
    (hturn : ∀ t ∈ behind sid v, t.1 = i → t.2 = [m, m']) : OfTiers v i (.cacheAppendTurn u sid m m')

/-- Every cached conversation belongs to the owner of its session and lacks the turns behind it. -/
structure Tiers (v : AgentView ι) : Prop where
  once : ∀ sid, ((behind sid v).map (·.1)).Nodup
  owned : ∀ e ∈ v.state.cache, v.state.owns e.1.1 e.1.2
  current : ∀ e ∈ v.state.cache, e.2.messages ++ messagesOf (behind e.1.2 v) = v.state.store.transcript e.1.2

/-- The terms of the calls. -/
def inStep : Discipline ι Reply World := ⟨Tiers, InStep, OfTiers⟩

/-! ### One request -/

theorem behind_after : behind sid (v.after (handle env) j q) =
    behindStep sid (behind sid v) (j, ⟨q, (handle env q v.state).1⟩) := by
  simp [behind]

theorem unread_other (hj : j ≠ i) : unread sid (v.after (handle env) j q) i =
    unread sid v i ++ (recordedTurn? sid (j, ⟨q, (handle env q v.state).1⟩)).toList := by
  unfold unread
  rw [View.since_after, if_neg fun h => hj h.1, List.reverse_cons, List.filterMap_append]
  cases hrec : recordedTurn? sid (j, ⟨q, (handle env q v.state).1⟩) <;> simp [hrec]

theorem unread_read (hr : readsMessages sid ⟨q, (handle env q v.state).1⟩ = true) :
    unread sid (v.after (handle env) i q) i = [] := by
  unfold unread
  rw [View.since_after, if_pos ⟨rfl, hr⟩]
  rfl

theorem Request.Apart.behind (hq : q.Apart) : behind sid (v.after (handle env) j q) = behind sid v := by
  rw [behind_after, behindStep, hq.recorded]
  simp [hq.caches]

/-- Nobody takes a session over. -/
theorem OfTiers.owns (hq : OfTiers v j q) {u : String} {s : SessionId} :
    (handle env q v.state).2.owns u s ↔ v.state.owns u s := by
  cases hq with
  | apart hq => exact hq.owns
  | store => exact Iff.rfl
  | cache => rw [World.owns, handle_store (by intro st h; cases h), World.owns]
  | @record sid ms now _ => exact append_owns

/-- The transcript grows by the turns that are recorded. -/
theorem OfTiers.transcript (hq : OfTiers v j q) : (handle env q v.state).2.store.transcript sid =
    v.state.store.transcript sid ++
      messagesOf (recordedTurn? sid (j, ⟨q, (handle env q v.state).1⟩)).toList := by
  cases hq with
  | apart hq => simp [hq.transcript, hq.recorded]
  | store => exact (List.append_nil _).symm
  | cache =>
    rw [handle_store (by intro st h; cases h)]
    exact (List.append_nil _).symm
  | @record s ms now _ =>
    rcases append_transcript env s ms now v.state with ⟨hr, htranscript⟩ | ⟨e, hr, hstore⟩
    · rw [hr]
      by_cases hs : s = sid
      · subst hs
        simpa [recordedTurn?, messagesOf] using htranscript
      · have hquiet : Request.Quiet sid (.sql (.appendMessages s ms now)) := hs
        simpa [recordedTurn?, messagesOf, hs] using Store.transcript_congr (hquiet.rows v.state)
    · rw [hr, hstore]
      exact (List.append_nil _).symm

/-- A thread whose own turns are not behind the cache stays so during the turns of the others. -/
theorem behind_other {p : List Message → Prop} (hj : j ≠ i) (h : ∀ t ∈ behind sid v, t.1 = i → p t.2) :
    ∀ t ∈ behind sid (v.after (handle env) j q), t.1 = i → p t.2 := by
  intro t ht hti
  rw [behind_after, behindStep] at ht
  cases hrec : recordedTurn? sid (j, ⟨q, (handle env q v.state).1⟩) with
  | some t' =>
    rw [hrec] at ht
    rcases List.mem_append.mp ht with ht | ht
    · exact h t ht hti
    · obtain rfl := List.mem_singleton.mp ht
      exact absurd ((recordedTurn?_thread hrec).symm.trans hti) hj
  | none =>
    rw [hrec] at ht
    dsimp only at ht
    split at ht
    · exact h t (List.mem_of_mem_filter ht) hti
    · exact h t ht hti

/-- A turn of a call. -/
theorem Tiers.turn (h : Tiers v) (hC : InStep v j q) (hq : OfTiers v j q) : Tiers (v.after (handle env) j q) := by
  have howns : ∀ e : (String × SessionId) × CacheEntry, v.state.owns e.1.1 e.1.2 →
      (v.after (handle env) j q).state.owns e.1.1 e.1.2 := fun e => hq.owns.mpr
  have htranscript : ∀ sid, (v.after (handle env) j q).state.store.transcript sid = v.state.store.transcript sid ++
      messagesOf (recordedTurn? sid (j, ⟨q, (handle env q v.state).1⟩)).toList := fun _ => hq.transcript
  cases hq with
  | apart hq =>
    refine ⟨fun sid => ?_, fun e he => howns e (h.owned e (hq.cache _ he)), fun e he => ?_⟩
    · rw [hq.behind]
      exact h.once sid
    · rw [hq.behind, View.after_state, hq.transcript]
      exact h.current e (hq.cache _ he)
  | @store u s ms howner hread =>
    have hbehind : ∀ sid, behind sid (v.after (handle env) j (.cacheStore u s ms)) = behind sid v :=
      fun sid => behind_after
    refine ⟨fun sid => hbehind sid ▸ h.once sid, fun e he => howns e ?_, fun e he => ?_⟩
    · rcases World.mem_cachePut he with ⟨hkey, -⟩ | ⟨-, he⟩
      · rw [hkey]
        exact howner
      · exact h.owned e (List.mem_of_mem_filter he)
    · rw [hbehind]
      rcases World.mem_cachePut he with ⟨hkey, hms⟩ | ⟨-, he⟩
      · rw [hkey, hms]
        exact (congrArg (ms ++ messagesOf ·) hC).trans hread
      · exact h.current e (List.mem_of_mem_filter he)
  | @record s ms now hfree =>
    have hbehind : ∀ sid, behind sid (v.after (handle env) j (.sql (.appendMessages s ms now))) = behind sid v ++
        (recordedTurn? sid (j, ⟨_, (handle env (.sql (.appendMessages s ms now)) v.state).1⟩)).toList := by
      intro sid
      rw [behind_after, behindStep]
      split
      · rename_i hrec
        rw [hrec]
        rfl
      · rename_i hrec
        rw [hrec]
        exact (List.append_nil _).symm
    have hcache : (v.after (handle env) j (.sql (.appendMessages s ms now))).state.cache = v.state.cache := handle_cache _ _
    refine ⟨fun sid => ?_, fun e he => howns e (h.owned e (hcache ▸ he)), fun e he => ?_⟩
    · rw [hbehind, List.map_append]
      cases hrec : recordedTurn? sid (j, ⟨_, (handle env (.sql (.appendMessages s ms now)) v.state).1⟩) with
      | none => simpa using h.once sid
      | some t =>
        obtain rfl := recordedTurn?_session hrec
        refine List.nodup_append.mpr ⟨h.once s, List.nodup_singleton _, fun k hk k' hk' hkk => ?_⟩
        obtain ⟨t', ht', rfl⟩ := List.mem_map.mp hk
        obtain rfl := List.mem_singleton.mp hk'
        exact hfree t' ht' (hkk.trans (recordedTurn?_thread hrec))
    · rw [hbehind, htranscript, messagesOf_append, ← List.append_assoc, h.current e (hcache ▸ he)]
  | @cache u s m m' howner hturn =>
    obtain ⟨hhead, hentry⟩ := hC
    obtain ⟨t, rest, hcons⟩ : ∃ t rest, behind s v = t :: rest := by
      cases hb : behind s v with
      | nil => rw [hb] at hhead; cases hhead
      | cons t rest => exact ⟨t, rest, rfl⟩
    rw [hcons] at hhead hentry
    have ht : t.1 = j := Option.some.inj hhead
    have htext : t.2 = [m, m'] := hturn t (hcons ▸ List.mem_cons_self) ht
    have hbehind : behind s (v.after (handle env) j (.cacheAppendTurn u s m m')) = rest := by
      have hnot : ∀ t' ∈ rest, t'.1 ≠ j := by
        intro t' ht' hj
        have hnodup := h.once s
        rw [hcons, List.map_cons, List.nodup_cons] at hnodup
        exact hnodup.1 (List.mem_map.mpr ⟨t', ht', hj.trans ht.symm⟩)
      rw [behind_after, hcons]
      simpa [behindStep, recordedTurn?, Request.cachesTurn, ht] using hnot
    have hother : ∀ sid, s ≠ sid → behind sid (v.after (handle env) j (.cacheAppendTurn u s m m')) = behind sid v := by
      intro sid hs
      rw [behind_after]
      simp [behindStep, recordedTurn?, Request.cachesTurn, hs]
    -- what is in the cache afterwards
    have hcache : ∀ e ∈ (v.after (handle env) j (.cacheAppendTurn u s m m')).state.cache,
        e.1 = (u, s) ∧ e.2.messages ++ messagesOf rest = v.state.store.transcript s ∨
          e.1 ≠ (u, s) ∧ e ∈ v.state.cache := by
      intro e he
      simp only [View.after_state, handle, answer] at he
      split at he
      · rename_i e' hlookup
        refine (World.mem_cachePut he).imp_left fun hput => ⟨hput.1, ?_⟩
        have hcurrent := h.current ((u, s), e') (mem_of_lookup hlookup)
        rw [hcons, messagesOf_cons, htext] at hcurrent
        rw [hput.2, List.append_assoc]
        exact hcurrent
      · rename_i hlookup
        refine (World.mem_cachePut he).imp_left fun hput => ⟨hput.1, ?_⟩
        rcases hentry with hsome | hfirst
        · rw [show v.state.cache.lookup (u, s) = none from hlookup] at hsome
          cases hsome
        · rw [hput.2, hfirst, messagesOf_cons, htext]
    refine ⟨fun sid => ?_, fun e he => howns e ?_, fun e he => ?_⟩
    · by_cases hs : s = sid
      · subst hs
        have hnodup := h.once s
        rw [hcons, List.map_cons, List.nodup_cons] at hnodup
        rw [hbehind]
        exact hnodup.2
      · rw [hother sid hs]
        exact h.once sid
    · rcases hcache e he with ⟨hkey, -⟩ | ⟨-, he⟩
      · rw [hkey]
        exact howner
      · exact h.owned e he
    · rw [htranscript]
      rcases hcache e he with ⟨hkey, hms⟩ | ⟨hkey, he⟩
      · rw [hkey, hbehind, hms]
        exact (List.append_nil _).symm
      · have hs : s ≠ e.1.2 := by
          intro hs
          have hother := h.owned e he
          rw [← hs] at hother
          exact hkey (Prod.ext (Option.some.inj (hother.symm.trans howner)) hs.symm)
        rw [hother _ hs]
        exact (h.current e he).trans (List.append_nil _).symm

end AgentVerse
