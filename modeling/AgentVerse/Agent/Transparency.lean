import AgentVerse.Agent.Coherence
import AgentVerse.Agent.PhaseGate
import AgentVerse.Effects.Relational

/-!
# The cache and the history

Two runs of the same calls on one session, with caches that expire at different times. As long as every turn is appended
to a cached conversation, or is all that the store has (`Expiry.Keeps`), both runs hand the same histories to the
strategy (`history_transparent`). A phase transition breaks this: the invocation that uses the opening context starts
the cached conversation anew, and a later miss brings back all earlier phases (`history_depends`).
-/

namespace AgentVerse

open Effects

/-! ### A cache that forgets -/

/-- When cached conversations expire: by age, and at the requests before which the cache drops them. -/
structure Expiry where
  ttl : Nat
  keeps : Nat → String × SessionId → Bool

/-- The world with the number of requests so far, those about the cache included. -/
structure CachedWorld where
  world : World
  asked : Nat

/-- The requests to the cache, and the one that reloads a conversation. -/
def Request.aboutCache : Request → Bool
  | .cacheLoad .. | .cacheStore .. | .cacheAppendTurn .. | .cacheEvict .. | .sql (.selectMessages _) => true
  | _ => false

namespace Expiry

variable (x : Expiry) (env : Env)

/-- The world after the cache dropped what it drops before the next request. -/
def drop (c : CachedWorld) : World :=
  { c.world with cache := c.world.cache.filter fun e => x.keeps c.asked e.1 }

/-- Nothing but the cache takes part in a request about it: it takes no time and does not fail. -/
def aside : Env := { env with cacheTtl := x.ttl, elapse := fun _ => 0, storeError := fun _ => none }

/-- The world with an expiring cache. The environment does not count the requests about the cache, so its other answers
do not depend on hits and misses. -/
def serve : Handler Reply CachedWorld := fun q c =>
  if q.aboutCache then
    let r := handle (x.aside env) q (x.drop c)
    (r.1, ⟨{ r.2 with steps := c.world.steps }, c.asked + 1⟩)
  else
    let r := handle { env with cacheTtl := x.ttl } q (x.drop c)
    (r.1, ⟨r.2, c.asked + 1⟩)

/-- A turn is appended to a cached conversation, or it is all that the store has. -/
def Keeps (c : CachedWorld) : Request → Prop
  | .cacheAppendTurn u s m m' => ((x.drop c).cache.lookup (u, s)).isSome ∨ c.world.store.transcript s = [m, m']
  | _ => True

instance (c : CachedWorld) (q : Request) : Decidable (x.Keeps c q) := by
  unfold Keeps
  split <;> infer_instance

end Expiry

/-! ### Calls on one session -/

inductive PhaseCall where
  | invoke (userId input : String)
  | advancePhase (userId output : String)

/-- The call on session `sid`. -/
def PhaseCall.on (sid : SessionId) : PhaseCall → ApiCall
  | invoke userId input => .invoke userId sid input
  | advancePhase userId output => .advancePhase userId sid output

namespace Agent

variable {S : Type} (agent : Agent) (h : Handler Reply S) (sid : SessionId)

/-- The history that a call hands to the strategy. -/
def handed : PhaseCall → S → Option (List Message)
  | .invoke userId input, s => ((agent.prepare userId sid input).exec h s).1.toOption.map (·.history)
  | .advancePhase .., _ => none

/-- The state after a call. -/
def afterCall (call : PhaseCall) (s : S) : S := ((agent.program (call.on sid)).exec h s).2

/-- The histories that a sequence of calls hands to the strategy. -/
def histories : List PhaseCall → S → List (Option (List Message))
  | [], _ => []
  | call :: calls, s => agent.handed h sid call s :: histories calls (agent.afterCall h sid call s)

/-- Every request of a sequence of calls is made in a state that satisfies `C`. -/
def AllAlong (C : S → Request → Prop) : List PhaseCall → S → Prop
  | [], _ => True
  | call :: calls, s => (agent.program (call.on sid)).Along h C s ∧ AllAlong C calls (agent.afterCall h sid call s)

instance decAllAlong (C : S → Request → Prop) [∀ s q, Decidable (C s q)] :
    (calls : List PhaseCall) → (s : S) → Decidable (agent.AllAlong h sid C calls s)
  | [], _ => inferInstanceAs (Decidable True)
  | call :: calls, s => @instDecidableAnd _ _ inferInstance (decAllAlong C calls (agent.afterCall h sid call s))

end Agent

/-! ### Worlds that differ in their cache -/

/-- The world without its cache. -/
def World.uncached (w : World) : World := { w with cache := [] }

/-- Every cached conversation of the session belongs to its owner and lacks `tail`. -/
def World.Caches (w : World) (sid : SessionId) (tail : List Message) : Prop :=
  ∀ e ∈ w.cache, e.1.2 = sid → w.owns e.1.1 sid ∧ e.2.messages ++ tail = w.store.transcript sid

/-- Two worlds that differ in their cache only. -/
structure Same (sid : SessionId) (tail : List Message) (c c' : CachedWorld) : Prop where
  uncached : c.world.uncached = c'.world.uncached
  left : c.world.Caches sid tail
  right : c'.world.Caches sid tail

variable {env : Env} {x x' : Expiry} {userId : String} {sid : SessionId} {tail : List Message} {w w' : World}
  {c c' : CachedWorld} {q : Request}

/-- The rest of the world does not depend on the cache. -/
theorem handle_uncached (env : Env) (hq : ∀ u s, q ≠ .cacheLoad u s) (h : w.uncached = w'.uncached) (t t' : Nat) :
    (handle { env with cacheTtl := t' } q w').1 = (handle { env with cacheTtl := t } q w).1 ∧
      (handle { env with cacheTtl := t } q w).2.uncached = (handle { env with cacheTtl := t' } q w').2.uncached := by
  obtain ⟨store, cache, queue, skills, clock, nextUuid, steps⟩ := w
  obtain ⟨store', cache', queue', skills', clock', nextUuid', steps'⟩ := w'
  simp only [World.uncached, World.mk.injEq, true_and] at h
  obtain ⟨rfl, rfl, rfl, rfl, rfl, rfl⟩ := h
  cases q with
  | cacheLoad u s => exact absurd rfl (hq u s)
  | cacheAppendTurn u s m m' =>
    refine ⟨rfl, ?_⟩
    simp only [handle, answer]
    split <;> split <;> rfl
  | sql st =>
    simp only [handle, answer, World.tick]
    split <;> exact ⟨rfl, rfl⟩
  | submit | resolve | poll | sweepExpired =>
    simp only [handle, answer, queueOp, World.tick]
    split <;> exact ⟨rfl, rfl⟩
  | _ => exact ⟨rfl, rfl⟩

theorem serve_aside (hq : q.aboutCache = true) (c : CachedWorld) : x.serve env q c =
    ((handle (x.aside env) q (x.drop c)).1,
      ⟨{ (handle (x.aside env) q (x.drop c)).2 with steps := c.world.steps }, c.asked + 1⟩) := if_pos hq

theorem serve_other (hq : q.aboutCache = false) (c : CachedWorld) : x.serve env q c =
    ((handle { env with cacheTtl := x.ttl } q (x.drop c)).1,
      ⟨(handle { env with cacheTtl := x.ttl } q (x.drop c)).2, c.asked + 1⟩) := if_neg (by simp [hq])

theorem serve_uncached (hq : ∀ u s, q ≠ .cacheLoad u s) (h : c.world.uncached = c'.world.uncached) :
    (x'.serve env q c').1 = (x.serve env q c).1 ∧
      (x.serve env q c).2.world.uncached = (x'.serve env q c').2.world.uncached := by
  have hdrop : (x.drop c).uncached = (x'.drop c').uncached := h
  have hsteps : c.world.steps = c'.world.steps := by
    have hs : c.world.uncached.steps = c'.world.uncached.steps := by rw [h]
    exact hs
  cases habout : q.aboutCache with
  | true =>
    rw [serve_aside habout, serve_aside habout, hsteps]
    obtain ⟨hr, hw⟩ := handle_uncached (x.aside env) hq hdrop x.ttl x'.ttl
    exact ⟨hr, congrArg (fun w : World => { w with steps := c'.world.steps }) hw⟩
  | false =>
    rw [serve_other habout, serve_other habout]
    exact handle_uncached env hq hdrop x.ttl x'.ttl

theorem World.Caches.drop (h : c.world.Caches sid tail) : (x.drop c).Caches sid tail :=
  fun e he => h e (List.mem_of_mem_filter he)

/-- A request apart from the tiers leaves the cached conversations as they are. -/
theorem World.Caches.apart (h : w.Caches sid tail) (hq : q.Apart) : (handle env q w).2.Caches sid tail := by
  intro e he hs
  obtain ⟨howns, hms⟩ := h e (hq.cache w he) hs
  exact ⟨hq.owns.mpr howns, hms.trans (hq.transcript w).symm⟩

theorem serve_caches (h : c.world.Caches sid tail) (hq : q.Apart) : (x.serve env q c).2.world.Caches sid tail := by
  cases habout : q.aboutCache with
  | true =>
    rw [serve_aside habout]
    exact h.drop.apart hq
  | false =>
    rw [serve_other habout]
    exact h.drop.apart hq

theorem serve_owns (hq : q.Apart) : (x.serve env q c).2.world.owns userId sid ↔ c.world.owns userId sid := by
  cases habout : q.aboutCache with
  | true =>
    rw [serve_aside habout]
    exact hq.owns (w := x.drop c)
  | false =>
    rw [serve_other habout]
    exact hq.owns (w := x.drop c)

/-! ### The stages of an invocation -/

/-- A request apart from the tiers that does not depend on the cache. -/
def Request.Blind (q : Request) : Prop := q.Apart ∧ ∀ u s, q ≠ .cacheLoad u s

theorem Request.Reads.blind (hq : q.Reads) : q.Blind := ⟨hq.apart, fun u s h => by subst h; exact hq⟩

theorem Request.OfStrategy.blind (hq : q.OfStrategy) : q.Blind := ⟨hq.apart, fun u s h => by subst h; exact hq⟩

theorem Request.OfWrites.blind {y : Option (JsonText InterruptedState)} {status : SessionStatus}
    (hq : q.OfWrites sid y status) : q.Blind := ⟨hq.apart, fun u s h => by subst h; exact hq⟩

theorem Request.OfResume.blind (hq : q.OfResume sid) : q.Blind := by
  rcases hq with hq | hq | ⟨y, status, hq⟩
  · exact hq.blind
  · rcases hq with hq | ⟨y, z, rfl⟩
    · exact hq.blind
    · exact ⟨trivial, fun u s h => by cases h⟩
  · exact hq.blind

/-- Two worlds that differ in their cache, in which the session belongs to the user. -/
def Owned (userId : String) (sid : SessionId) (tail : List Message) (c c' : CachedWorld) : Prop :=
  Same sid tail c c' ∧ c.world.owns userId sid

theorem Same.blind (h : Same sid tail c c') (hq : q.Blind) : (x'.serve env q c').1 = (x.serve env q c).1 ∧
    Same sid tail (x.serve env q c).2 (x'.serve env q c').2 := by
  obtain ⟨hr, hw⟩ : (x'.serve env q c').1 = (x.serve env q c).1 ∧ _ := serve_uncached hq.2 h.uncached
  exact ⟨hr, hw, serve_caches h.left hq.1, serve_caches h.right hq.1⟩

/-- Two caches that expire at different times. -/
def expiries (env : Env) (x x' : Expiry) : Twin Reply CachedWorld CachedWorld :=
  ⟨x.serve env, x'.serve env, x.Keeps, x'.Keeps⟩

/-- What relates the two runs after a stage. -/
def Stage {ε α : Type} (P E : CachedWorld → CachedWorld → Prop) : Except ε α → CachedWorld → CachedWorld → Prop
  | .ok _ => P
  | .error _ => E

/-- A stage that does not depend on the cache. -/
theorem blind_stage {ε α : Type} {p : M ε α} (hp : p.Only Request.Blind) :
    (expiries env x x').Alike (Same sid tail) p p (Stage (Same sid tail) (Same sid tail)) :=
  (Twin.Alike.of_only hp fun _ _ _ hq h => h.blind hq).imp (fun _ _ h => h) fun r _ _ h => by
    cases r <;> exact h

theorem owned_alike {ε α : Type} {p : M ε α} (hp : p.Only Request.Blind) :
    (expiries env x x').Alike (Owned userId sid tail) p p (Stage (Owned userId sid tail) (Same sid tail)) := by
  have howned : (expiries env x x').Alike (Owned userId sid tail) p p fun _ => Owned userId sid tail :=
    Twin.Alike.of_only hp fun q c c' hq h =>
      ⟨(h.1.blind hq).1, (h.1.blind hq).2, (serve_owns hq.1).mpr h.2⟩
  refine howned.imp (fun _ _ h => h) fun r c c' h => ?_
  cases r with
  | ok a => exact h
  | error e => exact h.1

/-- The stages after one that may fail. -/
theorem stage_bind {ε α β : Type} {p p' : M ε α} {f f' : α → M ε β} {P O E N : CachedWorld → CachedWorld → Prop}
    (hp : (expiries env x x').Alike P p p' (Stage O E))
    (hf : ∀ a, (expiries env x x').Alike O (f a) (f' a) (Stage N E)) :
    (expiries env x x').Alike P (p >>= f) (p' >>= f') (Stage N E) :=
  hp.bind hf fun _ _ _ h => h

/-- The check of the owner. -/
theorem assertOwner_alike : (expiries env x x').Alike (Same sid []) (sess (SessionManager.assertOwner userId sid))
    (sess (SessionManager.assertOwner userId sid)) (Stage (Owned userId sid []) (Same sid [])) := by
  have hblind : Request.Blind (.sql (.selectSession sid)) := ⟨trivial, fun u s h => by cases h⟩
  refine Twin.Alike.ask (M := fun r c c' => Same sid [] c c' ∧ ∀ session, r = .ok (some session) →
    session.userId = userId → c.world.owns userId sid) (fun c c' h _ _ => ?_) fun r => ?_
  · refine ⟨(h.blind hblind).1, (h.blind hblind).2, fun session hr hu => (serve_owns hblind.1).mpr ?_⟩
    exact owns_read (w := x.drop c) hr hu
  · cases r with
    | error e => exact .fail fun _ _ h => h.1
    | ok row =>
      cases row with
      | none => exact .fail fun _ _ h => h.1
      | some session =>
        have hcheck : ∀ p : M AgentError Unit, p = (if session.userId = userId then .ret () else .fail (.notFound sid) :
            M SessionMemoryError Unit).mapErr .session → (expiries env x x').Alike (fun c c' => Same sid [] c c' ∧
              ∀ s, (.ok (some session) : Except String (Option Session)) = .ok (some s) → s.userId = userId → c.world.owns userId sid) p p
            (Stage (Owned userId sid []) (Same sid [])) := by
          rintro p rfl
          by_cases hu : session.userId = userId
          · rw [if_pos hu]
            exact .ret fun _ _ h => ⟨h.1, h.2 session rfl hu⟩
          · rw [if_neg hu]
            exact .fail fun _ _ h => h.1
        exact hcheck _ rfl

/-- On a hit as on a miss, the conversation is the transcript. -/
theorem getCacheMemory_exec (env : Env) (x : Expiry) (hcaches : c.world.Caches sid []) (howns : c.world.owns userId sid) :
    ∃ c₁, (Agent.getCacheMemory userId sid).exec (x.serve env) c = (.ok (c.world.store.transcript sid), c₁) ∧
      c₁.world.uncached = c.world.uncached ∧ c₁.world.Caches sid [] := by
  have hload : x.serve env (.cacheLoad userId sid) c =
      ((x.drop c).cached x.ttl (userId, sid), ⟨x.drop c, c.asked + 1⟩) := rfl
  unfold Agent.getCacheMemory
  rw [Prog.exec, hload]
  cases hhit : (x.drop c).cached x.ttl (userId, sid) with
  | some messages =>
    refine ⟨⟨x.drop c, c.asked + 1⟩, ?_, rfl, hcaches.drop⟩
    have hmessages : messages = c.world.store.transcript sid := by
      unfold World.cached at hhit
      split at hhit
      · rename_i e hlookup
        split at hhit
        · cases hhit
          have hms := (hcaches.drop _ (mem_of_lookup hlookup) rfl).2
          rwa [List.append_nil] at hms
        · cases hhit
      · cases hhit
    rw [hmessages]
    rfl
  | none =>
    refine ⟨_, rfl, rfl, fun e he hs => ?_⟩
    rcases World.mem_cachePut he with ⟨hkey, hms⟩ | ⟨-, he⟩
    · rw [hkey, hms]
      exact ⟨howns, List.append_nil _⟩
    · exact hcaches e (List.mem_of_mem_filter (List.mem_of_mem_filter (List.mem_of_mem_filter
        (List.mem_of_mem_filter he)))) hs

theorem getCacheMemory_alike : (expiries env x x').Alike (Owned userId sid []) (Agent.getCacheMemory userId sid)
    (Agent.getCacheMemory userId sid) (Stage (Owned userId sid []) (Same sid [])) := by
  rintro c c' ⟨h, howns⟩ - -
  have hstore : c.world.store = c'.world.store := by
    have hs : c.world.uncached.store = c'.world.uncached.store := by rw [h.uncached]
    exact hs
  have howns' : c'.world.owns userId sid := by rwa [World.owns, ← hstore]
  obtain ⟨c₁, hrun, hworld, hcaches⟩ := getCacheMemory_exec env x h.left howns
  obtain ⟨c₂, hrun', hworld', hcaches'⟩ := getCacheMemory_exec env x' h.right howns'
  simp only [expiries]
  rw [hrun, hrun', ← hstore]
  refine ⟨rfl, ⟨hworld.trans (h.uncached.trans hworld'.symm), hcaches, hcaches'⟩, ?_⟩
  have hs : c₁.world.uncached.owns userId sid := by rw [hworld]; exact howns
  exact hs

/-- What recording a turn does to the cached conversations. -/
theorem record_caches (env : Env) (x : Expiry) (h : c.world.Caches sid []) (m m' : Message) (now : Int) :
    (∀ u, (x.serve env (.sql (.appendMessages sid [m, m'] now)) c).1 = .ok u →
        (x.serve env (.sql (.appendMessages sid [m, m'] now)) c).2.world.Caches sid [m, m']) ∧
      ∀ e, (x.serve env (.sql (.appendMessages sid [m, m'] now)) c).1 = .error e →
        (x.serve env (.sql (.appendMessages sid [m, m'] now)) c).2.world.Caches sid [] := by
  rw [serve_other rfl]
  rcases append_transcript { env with cacheTtl := x.ttl } sid [m, m'] now (x.drop c) with
    ⟨hr, htranscript⟩ | ⟨e', hr, hstore⟩
  · refine ⟨fun u _ e he hs => ?_, fun e he => by rw [hr] at he; cases he⟩
    obtain ⟨howns, hms⟩ := h.drop e (handle_cache _ _ ▸ he) hs
    exact ⟨append_owns.mpr howns, by rw [htranscript, ← hms, List.append_nil]⟩
  · refine ⟨fun u hu => by (rw [hr] at hu; cases hu), fun _ _ e he hs => ?_⟩
    obtain ⟨howns, hms⟩ := h.drop e (handle_cache _ _ ▸ he) hs
    exact ⟨append_owns.mpr howns, by rw [hstore]; exact hms⟩

/-- The recording of a turn. -/
theorem appendMessages_alike {m m' : Message} {now : Int} :
    (expiries env x x').Alike (Owned userId sid []) (query (.appendMessages sid [m, m'] now))
      (query (.appendMessages sid [m, m'] now)) (Stage (Owned userId sid [m, m']) (Same sid [])) := by
  refine Twin.Alike.ask (M := fun r => Stage (Owned userId sid [m, m']) (Same sid []) r) (fun c c' h _ _ => ?_) fun r => ?_
  · obtain ⟨hr, hw⟩ : (x'.serve env (.sql (.appendMessages sid [m, m'] now)) c').1 =
        (x.serve env (.sql (.appendMessages sid [m, m'] now)) c).1 ∧ _ :=
      serve_uncached (fun u s h => by cases h) h.1.uncached
    have hleft := record_caches env x h.1.left m m' now
    have hright := record_caches env x' h.1.right m m' now
    have howns : (x.serve env (.sql (.appendMessages sid [m, m'] now)) c).2.world.owns userId sid := by
      rw [serve_other rfl]
      exact append_owns.mpr h.2
    refine ⟨hr, ?_⟩
    show Stage _ _ (x.serve env (.sql (.appendMessages sid [m, m'] now)) c).1 _ _
    cases hx : (x.serve env (.sql (.appendMessages sid [m, m'] now)) c).1 with
    | ok u => exact ⟨⟨hw, hleft.1 u hx, hright.1 u (hr.trans hx)⟩, howns⟩
    | error e => exact ⟨hw, hleft.2 e hx, hright.2 e (hr.trans hx)⟩
  · cases r with
    | ok u => exact .ret fun _ _ h => h
    | error e => exact .fail fun _ _ h => h

/-- What appending the recorded turn does to the cached conversations. -/
theorem append_caches (env : Env) (x : Expiry) {m m' : Message} (h : c.world.Caches sid [m, m'])
    (howns : c.world.owns userId sid) (hkeeps : x.Keeps c (.cacheAppendTurn userId sid m m')) :
    (x.serve env (.cacheAppendTurn userId sid m m') c).2.world.Caches sid [] := by
  intro e he hs
  have hentry : e.1 = (userId, sid) ∧ e.2.messages = c.world.store.transcript sid ∨
      e.1 ≠ (userId, sid) ∧ e ∈ (x.drop c).cache := by
    rw [serve_aside rfl] at he
    simp only [handle, answer] at he
    split at he
    · rename_i e' hlookup
      refine (World.mem_cachePut he).imp_left fun hput => ⟨hput.1, hput.2.trans ?_⟩
      exact (h.drop _ (mem_of_lookup hlookup) rfl).2
    · rename_i hlookup
      refine (World.mem_cachePut he).imp_left fun hput => ⟨hput.1, hput.2.trans ?_⟩
      refine (hkeeps.resolve_left fun hsome => ?_).symm
      rw [show (x.drop c).cache.lookup (userId, sid) = none from hlookup] at hsome
      cases hsome
  have hstore : (x.serve env (.cacheAppendTurn userId sid m m') c).2.world.store = c.world.store := by
    rw [serve_aside rfl]
    exact handle_store (by intro st h; cases h)
  rw [World.owns, hstore, List.append_nil]
  rcases hentry with ⟨hkey, hms⟩ | ⟨hkey, he⟩
  · rw [hkey, hms]
    exact ⟨howns, rfl⟩
  · have hother : c.world.owns e.1.1 sid := (h.drop e he hs).1
    exact (hkey (Prod.ext (Option.some.inj (hother.symm.trans howns)) hs)).elim

/-- The append to the cache. -/
theorem cacheTurn_alike {m m' : Message} :
    (expiries env x x').Alike (Owned userId sid [m, m']) (request (.cacheAppendTurn userId sid m m') : M AgentError Unit)
      (request (.cacheAppendTurn userId sid m m')) (Stage (Same sid []) (Same sid [])) := by
  refine Twin.Alike.ask (M := fun _ => Same sid []) (fun c c' h hkeeps hkeeps' => ?_) fun _ => .ret fun _ _ h => h
  obtain ⟨hr, hw⟩ : (x'.serve env (.cacheAppendTurn userId sid m m') c').1 =
      (x.serve env (.cacheAppendTurn userId sid m m') c).1 ∧ _ :=
    serve_uncached (fun u s h => by cases h) h.1.uncached
  have howns : c.world.uncached.owns userId sid := h.2
  rw [h.1.uncached] at howns
  exact ⟨hr, hw, append_caches env x h.1.left h.2 hkeeps, append_caches env x' h.1.right howns hkeeps'⟩

variable (agent : Agent)

theorem keepTurn_alike {input response : String} :
    (expiries env x x').Alike (Owned userId sid []) (agent.keepTurn userId sid input response)
      (agent.keepTurn userId sid input response) (Stage (Same sid []) (Same sid [])) := by
  refine stage_bind (O := Owned userId sid [.ofText .user input, .ofText .assistant response]) ?_ fun _ => ?_
  · unfold sess SessionMemory.appendTurn SessionMemory.append
    rw [Prog.mapErr_bind]
    refine stage_bind (owned_alike (Prog.Only.mapErr (query_only (Request.Reads.blind trivial)))) fun session => ?_
    cases session with
    | none => exact .fail fun _ _ h => h.1
    | some session =>
      dsimp only
      rw [Prog.mapErr_bind]
      refine stage_bind (owned_alike (Prog.Only.mapErr (nowTimestamp_only (Request.Reads.blind trivial)))) fun now => ?_
      exact appendMessages_alike.mapErr fun r _ _ h => by cases r <;> exact h
  · refine stage_bind cacheTurn_alike fun _ => ?_
    dsimp only
    split
    · refine stage_bind (blind_stage (request_only ?_)) fun _ => .ret fun _ _ h => h
      exact Request.Reads.blind trivial
    · exact .ret fun _ _ h => h

theorem openingContext_alike {input : String} :
    (expiries env x x').Alike (Owned userId sid []) (agent.openingContext userId sid input)
      (agent.openingContext userId sid input) (Stage (Owned userId sid []) (Same sid [])) := by
  refine stage_bind (O := Owned userId sid []) (owned_alike ?_) fun r => ?_
  · unfold Agent.phaseOpening
    split
    · exact Agent.sess_only (SessionMemory.getPhaseOpeningContext_only (Request.Reads.blind trivial))
    · trivial
  · cases r with
    | some ctx =>
      refine stage_bind (owned_alike (request_only ⟨trivial, fun u s h => by cases h⟩)) fun _ => ?_
      refine stage_bind (owned_alike (Agent.sess_only (SessionMemory.setPhaseOpeningContext_only
        ⟨trivial, fun u s h => by cases h⟩))) fun _ => ?_
      exact .ret fun _ _ h => h
    | none => exact stage_bind getCacheMemory_alike fun _ => .ret fun _ _ h => h

theorem prepare_alike {input : String} :
    (expiries env x x').Alike (Same sid []) (agent.prepare userId sid input) (agent.prepare userId sid input)
      (Stage (Owned userId sid []) (Same sid [])) := by
  refine stage_bind assertOwner_alike fun _ => stage_bind (openingContext_alike agent) fun history => ?_
  refine stage_bind (owned_alike (Prog.Only.mono (agent.resolveSkill_binds input) fun q hq => ?_)) fun skill => ?_
  · rcases hq with hq | ⟨y, rfl⟩
    · exact hq.blind
    · exact ⟨trivial, fun u s h => by cases h⟩
  · exact .ret fun _ _ h => h

theorem invoke_alike {input : String} :
    (expiries env x x').Alike (Same sid []) (agent.invoke userId sid input) (agent.invoke userId sid input)
      (Stage (Same sid []) (Same sid [])) := by
  refine stage_bind (prepare_alike agent) fun p => ?_
  refine stage_bind (owned_alike (Prog.Only.mono (agent.runPrepared_works userId p) fun q hq =>
    hq.elim Request.Reads.blind Request.OfStrategy.blind)) fun outcome => ?_
  cases outcome with
  | done text => exact keepTurn_alike agent
  | interrupted interrupt =>
    refine Twin.Alike.imp (fun _ _ h => h.1) (fun _ _ _ h => h) (blind_stage ?_)
    exact Prog.Only.mono (Agent.handleToolInterrupt_only interrupt _) fun q ⟨y, status, hq⟩ => hq.blind

/-- A call has the same effect with both caches, up to the caches. -/
theorem program_alike (call : PhaseCall) :
    (expiries env x x').Alike (Same sid []) (agent.program (call.on sid)) (agent.program (call.on sid))
      (Stage (Same sid []) (Same sid [])) := by
  cases call with
  | invoke userId input => exact stage_bind (invoke_alike agent) fun _ => .ret fun _ _ h => h
  | advancePhase userId output =>
    refine stage_bind (blind_stage (Prog.Only.mono (agent.advancePhase_advances ..) fun q hq => ?_)) fun _ =>
      .ret fun _ _ h => h
    exact hq.blind

/-! ### Two runs -/

/-- A call hands the same history to the strategy on both sides. -/
theorem handed_alike {call : PhaseCall} (h : Same sid [] c c')
    (hC : (agent.program (call.on sid)).Along (x.serve env) x.Keeps c)
    (hC' : (agent.program (call.on sid)).Along (x'.serve env) x'.Keeps c') :
    agent.handed (x'.serve env) sid call c' = agent.handed (x.serve env) sid call c := by
  cases call with
  | advancePhase userId output => rfl
  | invoke userId input =>
    have hleft := (Prog.along_bind.mp (Prog.along_bind.mp hC).1).1
    have hright := (Prog.along_bind.mp (Prog.along_bind.mp hC').1).1
    have halike : (expiries env x x').Alike (Same sid []) (agent.prepare userId sid input)
        (agent.prepare userId sid input) (Stage (Owned userId sid []) (Same sid [])) := prepare_alike agent
    have hprepare := (halike c c' h hleft hright).1
    simp only [Agent.handed]
    rw [show ((agent.prepare userId sid input).exec (x'.serve env) c').1 = _ from hprepare]
    rfl

theorem afterCall_alike {call : PhaseCall} (h : Same sid [] c c')
    (hC : (agent.program (call.on sid)).Along (x.serve env) x.Keeps c)
    (hC' : (agent.program (call.on sid)).Along (x'.serve env) x'.Keeps c') :
    Same sid [] (agent.afterCall (x.serve env) sid call c) (agent.afterCall (x'.serve env) sid call c') := by
  have hstage := (program_alike agent call c c' h hC hC').2
  generalize ((agent.program (call.on sid)).exec (expiries env x x').left c).1 = r at hstage
  cases r <;> exact hstage

theorem histories_alike {calls : List PhaseCall} (h : Same sid [] c c')
    (hC : agent.AllAlong (x.serve env) sid x.Keeps calls c)
    (hC' : agent.AllAlong (x'.serve env) sid x'.Keeps calls c') :
    agent.histories (x.serve env) sid calls c = agent.histories (x'.serve env) sid calls c' := by
  induction calls generalizing c c' with
  | nil => rfl
  | cons call calls ih =>
    have hhead := handed_alike agent h hC.1 hC'.1
    have htail := ih (afterCall_alike agent h hC.1 hC'.1) hC.2 hC'.2
    simp only [Agent.histories, hhead, htail]

/-- Two runs of the same calls on a session hand the same histories to the strategy, whenever the cached conversations
expire, if every turn is appended to a cached conversation or is all that the store has. -/
theorem history_transparent (env : Env) (x x' : Expiry) (agent : Agent) (sid : SessionId) (calls : List PhaseCall)
    (w : World) (hcache : w.cache = []) (hC : agent.AllAlong (x.serve env) sid x.Keeps calls ⟨w, 0⟩)
    (hC' : agent.AllAlong (x'.serve env) sid x'.Keeps calls ⟨w, 0⟩) :
    agent.histories (x.serve env) sid calls ⟨w, 0⟩ = agent.histories (x'.serve env) sid calls ⟨w, 0⟩ := by
  have hcaches : w.Caches sid [] := fun e he => by rw [hcache] at he; cases he
  exact histories_alike agent ⟨rfl, hcaches, hcaches⟩ hC hC'

/-! ### A phase transition -/

/-- A cache that keeps everything. -/
def Expiry.never : Expiry := ⟨0, fun _ _ => true⟩

/-- A cache that drops everything before its `n`-th request, and keeps it otherwise. -/
def Expiry.before (n : Nat) : Expiry := ⟨0, fun k _ => k ≠ n⟩

/-- Two invocations; the conversation is dropped between them. -/
theorem history_transparent_between :
    Agent.ungated.histories (Expiry.never.serve .answering) 0 [.invoke "u" "a", .invoke "u" "b"] ⟨Agent.atDraft, 0⟩ =
      Agent.ungated.histories ((Expiry.before 11).serve .answering) 0 [.invoke "u" "a", .invoke "u" "b"]
        ⟨Agent.atDraft, 0⟩ :=
  history_transparent .answering .never (.before 11) .ungated 0 _ Agent.atDraft rfl (by decide +kernel)
    (by decide +kernel)

/-- A phase of one turn, and two invocations in the next phase. -/
def acrossPhases : List PhaseCall :=
  [.invoke "u" "a", .advancePhase "u" "text\nNEXT_SKILL: review\nSUMMARY: done", .invoke "u" "b", .invoke "u" "c"]

/-- The last invocation gets the new phase on a hit, and all phases after its conversation was dropped. -/
theorem history_depends :
    Agent.ungated.histories (Expiry.never.serve .answering) 0 acrossPhases ⟨Agent.atDraft, 0⟩ ≠
      Agent.ungated.histories ((Expiry.before 25).serve .answering) 0 acrossPhases ⟨Agent.atDraft, 0⟩ := by
  decide +kernel

end AgentVerse
