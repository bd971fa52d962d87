import AgentVerse.Effects.Keyed
import AgentVerse.Session.Frame

/-!
# The working memory, entry by entry

The working memory has at most one entry for a user and a session. `Request.onEntry` says what a request does to the
entry of a key, and `entry_after` that this is what the world does. An entry that has expired is as good as none to all
requests but one: a turn is appended to it, and brings it back (`SameEntry.onEntry`).
-/

namespace AgentVerse

open Effects

variable {env : Env} {w : World} {q : Request} {key : String × SessionId}

/-- An entry that the working memory still reads. -/
def CacheEntry.live (ttl clock : Nat) (e : CacheEntry) : Bool := clock - e.lastUsed ≤ ttl

/-- What a request does to the entry of a key. -/
def Request.onEntry (ttl clock : Nat) (key : String × SessionId) : Request → Option CacheEntry → Option CacheEntry
  | .cacheStore u sid ms, e => if (u, sid) = key then some ⟨ms, clock⟩ else e.filter (·.live ttl clock)
  | .cacheAppendTurn u sid m m', e =>
    if (u, sid) = key then some ⟨(e.elim [] (·.messages)) ++ [m, m'], clock⟩ else e
  | .cacheEvict u sid, e => if (u, sid) = key then none else e
  | _, e => e

/-- There is no entry, or one that the working memory does not read any more. -/
def Expired (ttl clock : Nat) (e : Option CacheEntry) : Prop := ∀ x, e = some x → x.live ttl clock = false

/-- The same entry, or none that is read. -/
def SameEntry (ttl clock : Nat) (e e' : Option CacheEntry) : Prop := e = e' ∨ Expired ttl clock e ∧ Expired ttl clock e'

section SameEntry

variable {ttl clock clock' : Nat} {e e' : Option CacheEntry}

theorem Expired.mono (h : Expired ttl clock e) (hc : clock ≤ clock') : Expired ttl clock' e := by
  intro x hx
  have hlate := h x hx
  simp only [CacheEntry.live, decide_eq_false_iff_not] at hlate ⊢
  omega

theorem Expired.filter (h : Expired ttl clock e) : e.filter (·.live ttl clock) = none := by
  cases e with
  | none => rfl
  | some x => simp [Option.filter, h x rfl]

theorem SameEntry.mono (h : SameEntry ttl clock e e') (hc : clock ≤ clock') : SameEntry ttl clock' e e' :=
  h.imp_right fun ⟨h, h'⟩ => ⟨h.mono hc, h'.mono hc⟩

theorem SameEntry.symm (h : SameEntry ttl clock e e') : SameEntry ttl clock e' e :=
  h.imp Eq.symm And.symm

/-- The two are read alike. -/
theorem SameEntry.read (h : SameEntry ttl clock e e') : e.filter (·.live ttl clock) = e'.filter (·.live ttl clock) := by
  rcases h with rfl | ⟨h, h'⟩
  · rfl
  · rw [h.filter, h'.filter]

/-- A sweep takes no more than what has expired. -/
theorem SameEntry.swept (h : SameEntry ttl clock' e e') (hc : clock ≤ clock') :
    SameEntry ttl clock' (e.filter (·.live ttl clock)) e' := by
  cases e with
  | none => exact h
  | some x =>
    cases hlive : x.live ttl clock with
    | true => simpa [Option.filter, hlive] using h
    | false =>
      have hdead : Expired ttl clock (some x) := fun y hy => by cases hy; exact hlive
      rw [hdead.filter]
      refine .inr ⟨(fun _ hy => nomatch hy), ?_⟩
      rcases h with rfl | ⟨-, h'⟩
      · exact hdead.mono hc
      · exact h'

theorem SameEntry.onEntry (h : SameEntry ttl clock e e')
    (happend : ∀ m m', q = .cacheAppendTurn key.1 key.2 m m' → e = e') :
    SameEntry ttl clock (q.onEntry ttl clock key e) (q.onEntry ttl clock key e') := by
  cases q with
  | cacheStore u sid ms =>
    simp only [Request.onEntry]
    split
    · exact .inl rfl
    · exact .inl h.read
  | cacheAppendTurn u sid m m' =>
    simp only [Request.onEntry]
    split
    · rename_i hkey
      subst hkey
      rw [happend m m' rfl]
      exact .inl rfl
    · exact h
  | cacheEvict u sid =>
    simp only [Request.onEntry]
    split
    · exact .inl rfl
    · exact h
  | _ => exact h

end SameEntry

namespace World

/-- No key has two entries. -/
def Keyed (w : World) : Prop := (w.cache.map Prod.fst).Nodup

theorem lookup_cachePut (w : World) (k : String × SessionId) (ms : List Message) :
    (w.cachePut k ms).cache.lookup key = if k = key then some ⟨ms, w.clock⟩ else w.cache.lookup key := by
  unfold cachePut
  by_cases hk : k = key
  · subst hk
    simp
  · rw [List.lookup_cons, beq_false_of_ne (Ne.symm hk), lookup_filter_ne, if_neg hk, if_neg (Ne.symm hk)]

theorem Keyed.filter (h : w.Keyed) (p : (String × SessionId) × CacheEntry → Bool) :
    ((w.cache.filter p).map Prod.fst).Nodup :=
  h.sublist (List.filter_sublist.map _)

theorem Keyed.put {w : World} (h : w.Keyed) (k : String × SessionId) (ms : List Message) : (w.cachePut k ms).Keyed := by
  refine List.nodup_cons.mpr ⟨fun hk => ?_, h.filter _⟩
  obtain ⟨x, hx, hxk⟩ := List.mem_map.mp hk
  exact absurd hxk (by simpa using (List.mem_filter.mp hx).2)

/-- What the cache reads is an entry that is still alive. -/
theorem cached_eq (w : World) (ttl : Nat) (key : String × SessionId) :
    w.cached ttl key = ((w.cache.lookup key).filter (·.live ttl w.clock)).map (·.messages) := by
  unfold cached
  cases w.cache.lookup key with
  | none => rfl
  | some e => by_cases h : w.clock - e.lastUsed ≤ ttl <;> simp [Option.filter, CacheEntry.live, h]

end World

@[simp] theorem handle_clock (q : Request) (w : World) : (handle env q w).2.clock = w.clock + env.elapse w.steps := by
  cases q with
  | sql st => simp only [handle, answer]; split <;> rfl
  | submit | resolve | poll | sweepExpired => simp only [handle, answer, queueOp]; split <;> rfl
  | cacheAppendTurn => simp only [handle, answer]; split <;> rfl
  | _ => rfl

/-- A request that is none of the cache leaves it as it is. -/
theorem handle_cache_other (hstore : ∀ u s ms, q ≠ .cacheStore u s ms) (happend : ∀ u s m m', q ≠ .cacheAppendTurn u s m m')
    (hevict : ∀ u s, q ≠ .cacheEvict u s) : (handle env q w).2.cache = w.cache := by
  cases q with
  | cacheStore u s ms => exact absurd rfl (hstore u s ms)
  | cacheAppendTurn u s m m' => exact absurd rfl (happend u s m m')
  | cacheEvict u s => exact absurd rfl (hevict u s)
  | sql st => simp only [handle, answer]; split <;> rfl
  | submit | resolve | poll | sweepExpired => simp only [handle, answer, queueOp]; split <;> rfl
  | _ => rfl

/-- What a request does to an entry. -/
theorem entry_after (hkeyed : w.Keyed) (q : Request) : (handle env q w).2.cache.lookup key =
    q.onEntry env.cacheTtl (w.clock + env.elapse w.steps) key (w.cache.lookup key) := by
  cases q with
  | cacheStore u sid ms =>
    simp only [handle, answer, World.lookup_cachePut, Request.onEntry]
    by_cases hk : (u, sid) = key
    · rw [if_pos hk, if_pos hk]
      rfl
    · rw [if_neg hk, if_neg hk]
      exact lookup_filter_value hkeyed (CacheEntry.live env.cacheTtl (w.tick env).clock) key
  | cacheAppendTurn u sid m m' =>
    simp only [handle, answer, Request.onEntry, World.tick_cache]
    cases hentry : w.cache.lookup (u, sid) with
    | some e =>
      dsimp only
      rw [World.lookup_cachePut]
      by_cases hk : (u, sid) = key
      · subst hk
        rw [if_pos rfl, if_pos rfl, hentry]
        rfl
      · rw [if_neg hk, if_neg hk]
        rfl
    | none =>
      dsimp only
      rw [World.lookup_cachePut]
      by_cases hk : (u, sid) = key
      · subst hk
        rw [if_pos rfl, if_pos rfl, hentry]
        rfl
      · rw [if_neg hk, if_neg hk]
        rfl
  | cacheEvict u sid =>
    simp only [handle, answer, Request.onEntry, World.tick_cache]
    rw [lookup_filter_ne]
    exact if_congr eq_comm rfl rfl
  | _ => rw [handle_cache_other (by simp) (by simp) (by simp)]; rfl

theorem keyed_after (hkeyed : w.Keyed) (q : Request) : (handle env q w).2.Keyed := by
  cases q with
  | cacheStore u sid ms =>
    refine World.Keyed.put (w := { w.tick env with cache := _ }) ?_ _ _
    exact World.Keyed.filter (w := w) hkeyed _
  | cacheAppendTurn u sid m m' =>
    simp only [handle, answer]
    split <;> exact World.Keyed.put (w := w.tick env) hkeyed _ _
  | cacheEvict u sid => exact hkeyed.filter _
  | _ =>
    unfold World.Keyed
    rw [handle_cache_other (by simp) (by simp) (by simp)]
    exact hkeyed

end AgentVerse
