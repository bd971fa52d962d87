import AgentVerse.Agent.Pending
import AgentVerse.Consolidation

/-!
# Retention

A tick of the cleanup worker sweeps the ended sessions that are past their retention; of the rows that are left it
deletes those of listed sessions that are past its cutoff and at or below the watermark (`tick_messages`). It does not know
whether the agent has long-term memory. In an agent without one no worker moves a watermark from zero, so the rows
that are said to be exempt from consolidation are never deleted.
-/

namespace AgentVerse

open Effects

/-! ### What is claimed of a tick -/

/-- The second reading of the clock in a tick that starts in `w`, after the sweep of ended sessions. -/
def World.sweptAt (env : Env) (w : World) : Int := timestamp (((w.tick env).tick env).tick env).clock

/-- The time before which a message is past its retention. -/
def CleanupConfig.messageLimit (cfg : CleanupConfig) (env : Env) (w : World) : Int :=
  w.sweptAt env - cfg.messageRetention.asSecs

/-- The time before which a tick deletes messages. -/
def CleanupConfig.messageCutoff (cfg : CleanupConfig) (env : Env) (w : World) : Int :=
  cfg.messageRetention.cutoff (w.sweptAt env)

/-- What the sweep of ended sessions leaves. -/
def CleanupConfig.swept (cfg : CleanupConfig) (env : Env) (w : World) : Store :=
  (w.store.deleteSessions (Store.endedBefore (cfg.cutoff env w))).2

/-- The sessions that a tick lists, at its third reading of the clock. -/
def CleanupConfig.listing (cfg : CleanupConfig) (env : Env) (w : World) : List Session :=
  (cfg.swept env w).sessionsNeedingMaintenance (timestamp ((((w.tick env).tick env).tick env).tick env).clock)

/-- A message row was written to long-term memory. -/
def Consolidated (t : List Event) (row : MessageRow) : Prop := t.any (writesRow row) = true

namespace Agent

variable (agent : Agent)

/-- A row is consolidated, or exempt from it. -/
def Prunable (t : List Event) (row : MessageRow) : Prop := Consolidated t row ∨ agent.longtermMemory = false

/-- No row from before the limit could be deleted. -/
def RetentionEnforced (limit : Int) (c : Config Reply World) : Prop :=
  ∀ row ∈ c.state.store.messages, row.createdAt < limit → ¬ agent.Prunable c.trace row

end Agent

/-- A row at or below the watermark of its session, once that has moved. -/
def Store.Passed (s : Store) (row : MessageRow) : Prop :=
  s.watermark row.sessionId ≠ 0 ∧ row.sequenceNum ≤ s.watermark row.sessionId

instance (s : Store) (row : MessageRow) : Decidable (s.Passed row) := inferInstanceAs (Decidable (_ ∧ _))

instance (t : List Event) (row : MessageRow) : Decidable (Consolidated t row) := inferInstanceAs (Decidable (_ = _))

instance (agent : Agent) (t : List Event) (row : MessageRow) : Decidable (agent.Prunable t row) :=
  inferInstanceAs (Decidable (_ ∨ _))

instance (agent : Agent) (limit : Int) (c : Config Reply World) : Decidable (agent.RetentionEnforced limit c) :=
  inferInstanceAs (Decidable (∀ row ∈ c.state.store.messages, _ → ¬ _))

/-! ### The part of a tick that is about one session -/

variable {env : Env} {c c' : Config Reply World}

/-- A statement that succeeds. -/
theorem query_ok {st : Statement} {r : st.Result} (h : (query st).run (handle env) c = (.ok r, c')) :
    (st.exec c.state.store).1 = .ok r ∧
      c'.state = { c.state.tick env with store := (st.exec c.state.store).2 } := by
  rw [run_query, Prod.mk.injEq] at h
  obtain ⟨hr, rfl⟩ := h
  rw [Config.after_state]
  cases hs : env.storeError c.state.steps with
  | some e =>
    rw [handle_sql_error _ hs] at hr
    cases hr
  | none =>
    rw [handle_sql_ok _ hs] at hr ⊢
    refine ⟨?_, rfl⟩
    cases hexec : (st.exec c.state.store).1 with
    | error e =>
      rw [hexec] at hr
      cases hr
    | ok r' =>
      rw [hexec] at hr
      cases hr
      rfl

namespace Store

variable (s : Store)

/-- The tables after `cleanup_expired_messages` with the watermark of the session. -/
def prune (sid : SessionId) (cutoff : Int) : Store :=
  if s.watermark sid = 0 then s else (s.deleteExpired sid cutoff (s.watermark sid)).2

variable {s} {cutoff : Int}

@[simp] theorem prune_sessions (sid : SessionId) : (s.prune sid cutoff).sessions = s.sessions := by
  unfold prune
  split <;> rfl

@[simp] theorem prune_watermark (sid sid' : SessionId) : (s.prune sid cutoff).watermark sid' = s.watermark sid' := by
  unfold watermark row?
  rw [prune_sessions]

theorem mem_prune {sid : SessionId} {row : MessageRow} :
    row ∈ (s.prune sid cutoff).messages ↔
      row ∈ s.messages ∧ ¬ (row.sessionId = sid ∧ row.createdAt < cutoff ∧ s.Passed row) := by
  unfold prune
  split
  · rename_i hwm
    refine ⟨fun h => ⟨h, ?_⟩, fun h => h.1⟩
    rintro ⟨rfl, -, hne, -⟩
    exact hne hwm
  · rename_i hwm
    simp only [deleteExpired, List.mem_filter, expired, Passed]
    refine and_congr_right fun _ => ?_
    by_cases hsid : row.sessionId = sid
    · subst hsid
      simp only [decide_true, Bool.true_and, Bool.not_eq_true', Bool.and_eq_false_imp, decide_eq_true_eq,
        decide_eq_false_iff_not, true_and, ne_eq, hwm, not_false_eq_true, not_and]
    · simp [hsid]

/-- A session with an old row is maintained, on whichever side of the watermark the row is. -/
theorem needsMaintenance {row : MessageRow} {now : Int} (hrow : row ∈ s.messages)
    (hwm : s.watermark row.sessionId ≠ 0) (hlt : row.createdAt < now) :
    row.sessionId ∈ (s.sessionsNeedingMaintenance now).map (·.id) := by
  unfold watermark at hwm
  cases hr : s.row? row.sessionId with
  | none =>
    rw [hr] at hwm
    exact absurd rfl hwm
  | some r =>
    have hid : r.id = row.sessionId := row?_id hr
    refine List.mem_map.mpr ⟨r.toSession, ?_, hid⟩
    rw [sessionsNeedingMaintenance, List.mem_insertionSort]
    refine List.mem_map_of_mem (List.mem_filter.mpr ⟨List.mem_of_find?_eq_some hr, ?_⟩)
    refine List.any_eq_true.mpr ⟨row, hrow, ?_⟩
    rcases Int.lt_or_le r.consolidationWatermark row.sequenceNum with h | h
    · simp [hid, h]
    · simp [hid, h, hlt]

end Store

/-- A watermark that is read. -/
theorem SessionMemory.getWatermark_ok {sid : SessionId} {wm : Int}
    (h : (SessionMemory.getWatermark sid).run (handle env) c = (.ok wm, c')) :
    wm = c.state.store.watermark sid ∧ c'.state.store = c.state.store := by
  obtain ⟨hwm, hstate⟩ := query_ok h
  rw [hstate]
  simp only [Statement.exec, Store.watermark] at hwm ⊢
  cases hrow : c.state.store.row? sid with
  | none =>
    rw [hrow] at hwm
    cases hwm
  | some row =>
    rw [hrow] at hwm
    cases hwm
    exact ⟨rfl, rfl⟩

namespace CleanupWorker

/-- A session that is cleaned up without an error loses the rows that are passed and past the cutoff. -/
theorem cleanupSession_ok {sid : SessionId} {cutoff : Int} {n : Nat}
    (h : (cleanupSession sid cutoff).run (handle env) c = (.ok n, c')) :
    c'.state.store = c.state.store.prune sid cutoff := by
  obtain ⟨wm, c₁, h₁, h⟩ := (Prog.run_bind_eq_ok _).mp h
  obtain ⟨rfl, hstore⟩ := SessionMemory.getWatermark_ok ((Prog.run_mapErr_eq_ok _).mp h₁)
  rw [Prog.run_mapErr_eq_ok, SessionMemory.cleanupExpiredMessages] at h
  unfold Store.prune
  split at h
  · rename_i hwm
    cases h
    rw [if_pos hwm, hstore]
  · rename_i hwm
    rw [if_neg hwm]
    obtain ⟨storedWm, c₂, h₂, h⟩ := (Prog.run_bind_eq_ok _).mp h
    obtain ⟨rfl, hstore₂⟩ := SessionMemory.getWatermark_ok h₂
    rw [hstore, min_self, if_neg hwm] at h
    obtain ⟨deleted, c₃, h₃, h⟩ := (Prog.run_bind_eq_ok _).mp h
    cases h
    rw [(query_ok h₃).2, hstore₂, hstore]
    rfl

theorem cleanupSessions_ok {cutoff : Int} {sessions : List Session} {u : Unit}
    (h : (cleanupSessions cutoff sessions).run (handle env) c = (.ok u, c')) (row : MessageRow) :
    row ∈ c'.state.store.messages ↔ row ∈ c.state.store.messages ∧
      ¬ (row.sessionId ∈ sessions.map (·.id) ∧ row.createdAt < cutoff ∧ c.state.store.Passed row) := by
  induction sessions generalizing c with
  | nil =>
    cases h
    simp
  | cons session sessions ih =>
    obtain ⟨n, c₁, h₁, h⟩ := (Prog.run_bind_eq_ok _).mp h
    have hpassed : c₁.state.store.Passed row ↔ c.state.store.Passed row := by
      rw [Store.Passed, cleanupSession_ok h₁, Store.prune_watermark, Store.Passed]
    rw [ih h, hpassed, cleanupSession_ok h₁, Store.mem_prune, List.map_cons, List.mem_cons]
    tauto

/-- A tick without an error ends with the loop over what it listed. -/
theorem tick_of_listing {cfg : CleanupConfig} {u : Unit} (h : (tick cfg).run (handle env) c = (.ok u, c')) :
    ∃ c₁, c₁.state.store = cfg.swept env c.state ∧
      (tick cfg).run (handle env) c =
        (cleanupSessions (cfg.messageCutoff env c.state) (cfg.listing env c.state)).run (handle env) c₁ := by
  have hrun := h
  simp only [tick, SessionMemory.listSessionsNeedingMaintenance, nowTimestamp, Prog.ask_bind, Prog.ret_bind,
    Prog.mapErr_ask, Prog.run_ask] at h
  obtain ⟨n, c₁, h₁, h⟩ := (Prog.run_bind_eq_ok _).mp h
  simp only [Prog.run_ask] at h
  obtain ⟨sessions, c₂, h₂, h⟩ := (Prog.run_bind_eq_ok _).mp h
  obtain ⟨-, hswept⟩ := query_ok ((Prog.run_mapErr_eq_ok _).mp h₁)
  obtain ⟨hlisted, hstate⟩ := query_ok ((Prog.run_mapErr_eq_ok _).mp h₂)
  have hstore₁ : c₁.state.store = cfg.swept env c.state := by rw [hswept]; rfl
  have hstore₂ : c₂.state.store = cfg.swept env c.state := by rw [hstate]; exact hstore₁
  have hclock : (c₁.state.tick env).clock = (((c.state.tick env).tick env).tick env).clock := by rw [hswept]; rfl
  have hcutoff :
      cfg.messageRetention.cutoff (timestamp (handle env .now c₁.state).1) = cfg.messageCutoff env c.state := by
    rw [CleanupConfig.messageCutoff, World.sweptAt, ← hclock]
    rfl
  have hclock₂ : ((c₁.state.tick env).tick env).clock =
      ((((c.state.tick env).tick env).tick env).tick env).clock := by rw [hswept]; rfl
  have hlisting : sessions = cfg.listing env c.state := by
    rw [← Except.ok.inj hlisted, CleanupConfig.listing, ← hstore₁, ← hclock₂]
    rfl
  rw [hcutoff, hlisting] at h
  exact ⟨c₂, hstore₂, hrun.trans h.symm⟩

/-- After a tick without an error, the rows are those that the sweep left and that are not of a listed session, past the
cutoff and passed by the watermark. -/
theorem tick_messages {cfg : CleanupConfig} {u : Unit} (h : (tick cfg).run (handle env) c = (.ok u, c'))
    (row : MessageRow) :
    row ∈ c'.state.store.messages ↔ row ∈ (cfg.swept env c.state).messages ∧
      ¬ (row.sessionId ∈ (cfg.listing env c.state).map (·.id) ∧ row.createdAt < cfg.messageCutoff env c.state ∧
        (cfg.swept env c.state).Passed row) := by
  obtain ⟨c₁, hstore, hrun⟩ := tick_of_listing h
  rw [h] at hrun
  rw [cleanupSessions_ok hrun.symm, hstore]

/-- A passed row that is past its retention is of a listed session. -/
theorem listed_of_passed {cfg : CleanupConfig} {w : World} {row : MessageRow} (hrow : row ∈ (cfg.swept env w).messages)
    (hlimit : row.createdAt < cfg.messageLimit env w) (hpassed : (cfg.swept env w).Passed row) :
    row.sessionId ∈ (cfg.listing env w).map (·.id) := by
  refine Store.needsMaintenance hrow hpassed.1 (lt_of_lt_of_le hlimit ?_)
  -- The list is read after the limit, and the clock does not run backwards.
  have hmono : w.sweptAt env ≤ timestamp ((((w.tick env).tick env).tick env).tick env).clock :=
    Int.ediv_le_ediv (by decide) (Int.ofNat_le.mpr (Nat.le_add_right _ _))
  unfold CleanupConfig.messageLimit
  omega

end CleanupWorker

/-! ### Which ticks enforce the retention -/

/-- A tick writes nothing to long-term memory. -/
theorem CleanupWorker.tick_consolidated (cfg : CleanupConfig) (row : MessageRow) :
    Consolidated ((tick cfg).run (handle env) c).2.trace row ↔ Consolidated c.trace row := by
  have honly : (tick cfg).Only fun q => ∀ u content source, q ≠ .longtermWrite u content source :=
    tick_only (by simp) (by simp) (by simp) (by simp) (by simp)
  obtain ⟨t, ht, hnone⟩ := (honly.reaches (h := handle env) c).trace
  have hnot : t.any (writesRow row) = false := by
    refine List.any_eq_false.mpr fun x hx => ?_
    have hq := hnone x hx
    obtain ⟨q, r⟩ := x
    cases q with
    | longtermWrite u content source => exact absurd rfl (hq u content source)
    | _ => simp [writesRow]
  rw [Consolidated, ht, List.any_append, hnot, Bool.or_false, Consolidated]

/-- A tick without an error enforces the retention exactly when, of the rows that the sweep of ended sessions leaves,
the prunable ones that are past their retention are past the cutoff of the tick and passed by the watermarks. -/
theorem retention_enforced_iff (agent : Agent) (env : Env) (cfg : CleanupConfig) (c : Config Reply World)
    (hok : ((CleanupWorker.tick cfg).run (handle env) c).1 = .ok ()) :
    agent.RetentionEnforced (cfg.messageLimit env c.state) ((CleanupWorker.tick cfg).run (handle env) c).2 ↔
      ∀ row ∈ (cfg.swept env c.state).messages, row.createdAt < cfg.messageLimit env c.state →
        agent.Prunable c.trace row →
          row.createdAt < cfg.messageCutoff env c.state ∧ (cfg.swept env c.state).Passed row := by
  have hrows := CleanupWorker.tick_messages (Prod.ext hok rfl)
  have hprunable : ∀ row, agent.Prunable ((CleanupWorker.tick cfg).run (handle env) c).2.trace row ↔
      agent.Prunable c.trace row := fun row => or_congr_left (CleanupWorker.tick_consolidated cfg row)
  constructor
  · intro h row hrow hlt hp
    by_contra hpassed
    exact h row ((hrows row).mpr ⟨hrow, fun hdue => hpassed hdue.2⟩) hlt ((hprunable row).mpr hp)
  · intro h row hrow hlt hp
    obtain ⟨hleft, hkept⟩ := (hrows row).mp hrow
    have hdue := h row hleft hlt ((hprunable row).mp hp)
    exact hkept ⟨CleanupWorker.listed_of_passed hleft hlt hdue.2, hdue⟩

/-- Two days after a session was opened with its first message, which is consolidated up to `wm`. -/
def World.afterTwoDays (wm : Int) : World where
  store := ⟨[⟨0, "u", .active, 0, 0, wm, none, none, none⟩], [⟨1, 0, .ofText .user "hello", 1, 0⟩], 1⟩
  cache := []
  queue := .new
  skills := ⟨[]⟩
  clock := 172800000000000
  nextUuid := 1
  steps := 0

/-- A consolidated message is gone. -/
theorem retention_enforced_consolidated :
    let written : Event := ⟨.longtermWrite "u" "hello" (some 1), .ok ()⟩
    ({ Agent.plain with longtermMemory := true }).RetentionEnforced
      (CleanupConfig.default.messageLimit (.asksFor []) (.afterTwoDays 1))
      ((CleanupWorker.tick .default).run (handle (.asksFor [])) ⟨.afterTwoDays 1, [written]⟩).2 :=
  (retention_enforced_iff _ _ _ _ (by decide +kernel)).mpr (by decide +kernel)

/-- Without long-term memory, a message stays that is a day past its retention. -/
theorem exempt_message_stays :
    ((CleanupWorker.tick .default).run (handle (.asksFor [])) ⟨.afterTwoDays 0, []⟩).1 = .ok () ∧
      ¬ Agent.plain.RetentionEnforced (CleanupConfig.default.messageLimit (.asksFor []) (.afterTwoDays 0))
        ((CleanupWorker.tick .default).run (handle (.asksFor [])) ⟨.afterTwoDays 0, []⟩).2 := by
  decide +kernel

end AgentVerse
