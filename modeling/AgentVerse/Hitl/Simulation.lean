import AgentVerse.Effects.Keyed
import AgentVerse.Hitl.Backends

/-!
# The simulation of the approval queues

What both queues know about their approvals (`Known`), and that the queue over SQLite simulates the one in memory as
long as the calls are the same for both (`sqlite_simulates`).
-/

namespace AgentVerse

open Effects

/-! ### The simulation -/

/-- What both queues know about an approval: its status and the second in which it expires. -/
abbrev Known : Type := ApprovalId × Except HitlError ApprovalStatus × Option Int

def InMemoryQueue.known (q : InMemoryQueue) : List Known :=
  q.entries.map fun x => (x.1, .ok x.2.status, x.2.request.expiresAt.map wholeSeconds)

def SqliteQueue.known (q : SqliteQueue) : List Known :=
  q.rows.map fun r => (r.id, SqliteQueue.rowToStatus r.status r.decision, r.expiresAt)

/-- The two queues know the same, and no id has two entries. -/
structure Matches (q : InMemoryQueue) (s : SqliteQueue) : Prop where
  perm : q.known.Perm s.known
  nodup : (q.known.map (·.1)).Nodup

theorem SqliteQueue.rowToStatus_pending {status : String} {decision : Option (JsonText ApprovalDecision)} :
    rowToStatus status decision = .ok .pending ↔ status = "pending" := by
  unfold rowToStatus
  split <;> simp_all

theorem InMemoryQueue.find?_known (q : InMemoryQueue) (id : ApprovalId) :
    q.known.find? (fun y => y.1 = id) =
      (q.get id).map fun e => (id, .ok e.status, e.request.expiresAt.map wholeSeconds) := by
  simp only [known, get, List.find?_map, Option.map_map, Function.comp_def]
  cases h : q.entries.find? fun x => decide (x.1 = id) with
  | none => rfl
  | some x =>
    have hid : x.1 = id := by simpa using List.find?_some h
    simp [hid]

theorem SqliteQueue.find?_known (s : SqliteQueue) (id : ApprovalId) :
    s.known.find? (fun y => y.1 = id) =
      (s.rows.find? fun r => r.id = id).map fun r => (id, rowToStatus r.status r.decision, r.expiresAt) := by
  simp only [known, List.find?_map, Function.comp_def]
  cases h : s.rows.find? fun r => decide (r.id = id) with
  | none => rfl
  | some r =>
    have hid : r.id = id := by simpa using List.find?_some h
    simp [hid]

namespace Matches

variable {q : InMemoryQueue} {s : SqliteQueue}

/-- The entry and the row of an id. -/
theorem lookup (h : Matches q s) (id : ApprovalId) :
    (q.get id).map (fun e => (id, (.ok e.status : Except HitlError ApprovalStatus),
        e.request.expiresAt.map wholeSeconds)) =
      (s.rows.find? fun r => r.id = id).map fun r =>
        (id, SqliteQueue.rowToStatus r.status r.decision, r.expiresAt) := by
  rw [← InMemoryQueue.find?_known, ← SqliteQueue.find?_known]
  exact find?_key_perm h.perm h.nodup id

theorem none_iff (h : Matches q s) (id : ApprovalId) : q.get id = none ↔ ∀ r ∈ s.rows, r.id ≠ id := by
  have hl := h.lookup id
  constructor
  · intro hq r hr hid
    rw [hq, eq_comm, Option.map_none, Option.map_eq_none_iff, List.find?_eq_none] at hl
    exact hl r hr (by simpa using hid)
  · intro hs
    have hnone : (s.rows.find? fun r => decide (r.id = id)) = none :=
      List.find?_eq_none.mpr fun r hr => by simpa using hs r hr
    rw [hnone, Option.map_none, Option.map_eq_none_iff] at hl
    exact hl

theorem poll_eq (h : Matches q s) (id : ApprovalId) : s.poll id = q.poll id := by
  have hl := h.lookup id
  unfold SqliteQueue.poll InMemoryQueue.poll
  cases hq : q.get id with
  | none =>
    rw [hq, eq_comm, Option.map_none, Option.map_eq_none_iff] at hl
    rw [hl]
  | some e =>
    rw [hq, eq_comm, Option.map_some, Option.map_eq_some_iff] at hl
    obtain ⟨r, hr, heq⟩ := hl
    simp only [Prod.mk.injEq] at heq
    rw [hr]
    exact heq.2.1

/-- Every row of an id says what its entry says. -/
theorem row_eq (h : Matches q s) {id : ApprovalId} {e : QueueEntry} (hq : q.get id = some e) {r : ApprovalRow}
    (hr : r ∈ s.rows) (hid : r.id = id) :
    SqliteQueue.rowToStatus r.status r.decision = .ok e.status ∧
      r.expiresAt = e.request.expiresAt.map wholeSeconds := by
  have hfind := q.find?_known id
  rw [hq, Option.map_some] at hfind
  have hmem : (r.id, SqliteQueue.rowToStatus r.status r.decision, r.expiresAt) ∈ q.known :=
    h.perm.mem_iff.mpr (List.mem_map_of_mem hr)
  have heq := List.inj_on_of_nodup_map h.nodup hmem (List.mem_of_find?_eq_some hfind) hid
  simp only [Prod.mk.injEq] at heq
  exact heq.2

end Matches

theorem InMemoryQueue.known_insert (q : InMemoryQueue) (id : ApprovalId) (e : QueueEntry) :
    (q.insert id e).known =
      (id, .ok e.status, e.request.expiresAt.map wholeSeconds) :: q.known.filter fun y => y.1 ≠ id := by
  simp only [known, insert, List.map_cons, List.filter_map]
  rfl

theorem InMemoryQueue.get_eq_none {q : InMemoryQueue} {id : ApprovalId} :
    q.get id = none ↔ ∀ y ∈ q.known, y.1 ≠ id := by
  rw [known, List.forall_mem_map]
  simp [get]

/-- Submitting a new id. -/
private theorem submit_matches {q : InMemoryQueue} {s : SqliteQueue} (h : Matches q s) (now : Nat)
    {req : ApprovalRequest} (hnew : q.get req.id = none) :
    ∃ s', s.submit now req = (.ok req.id, s') ∧ Matches (q.submit req).2 s' := by
  have hrows := (h.none_iff req.id).mp hnew
  have hany : (s.rows.any fun r => r.id = req.id) = false := by
    simpa using hrows
  have hkeep : (q.known.filter fun y => y.1 ≠ req.id) = q.known :=
    List.filter_eq_self.mpr fun y hy => by simpa using InMemoryQueue.get_eq_none.mp hnew y hy
  unfold SqliteQueue.submit
  rw [hany]
  refine ⟨_, rfl, ?_, ?_⟩
  · rw [InMemoryQueue.submit, InMemoryQueue.known_insert, hkeep]
    exact h.perm.cons _
  · rw [InMemoryQueue.submit, InMemoryQueue.known_insert, hkeep, List.map_cons, List.nodup_cons]
    refine ⟨?_, h.nodup⟩
    intro hmem
    obtain ⟨y, hy, hid⟩ := List.mem_map.mp hmem
    exact InMemoryQueue.get_eq_none.mp hnew y hy hid

/-- Resolving an entry, as both queues know it. -/
private def resolveKnown (decision : ApprovalDecision) (y : Known) : Known := (y.1, .ok (.resolved decision), y.2.2)

private theorem resolve_matches {print : ApprovalDecision → JsonText ApprovalDecision} {q : InMemoryQueue}
    {s : SqliteQueue} (h : Matches q s) (now : Nat) {id : ApprovalId} {decision : ApprovalDecision}
    (hprint : q.poll id = .ok .pending → (print decision).fromStr = .ok decision) :
    (s.resolve print now id decision).1 = (q.resolve id decision).1 ∧
      Matches (q.resolve id decision).2 (s.resolve print now id decision).2 := by
  unfold SqliteQueue.resolve InMemoryQueue.resolve
  cases hq : q.get id with
  | none =>
    have hrows := (h.none_iff id).mp hq
    have hpending : s.rows.filter (SqliteQueue.pendingAt id) = [] :=
      List.filter_eq_nil_iff.mpr fun r hr => by simp [SqliteQueue.pendingAt, hrows r hr]
    have hnone : (s.rows.filter fun r => r.id = id) = [] :=
      List.filter_eq_nil_iff.mpr fun r hr => by simpa using hrows r hr
    simp only [hpending, hnone, List.length_nil, if_true]
    exact ⟨trivial, h⟩
  | some e =>
    obtain ⟨r₀, hr₀, hid₀⟩ : ∃ r ∈ s.rows, r.id = id := by
      by_contra hno
      simp only [not_exists, not_and] at hno
      rw [(h.none_iff id).mpr hno] at hq
      cases hq
    -- All the rows of the id have the status of the entry.
    have hrow : ∀ r ∈ s.rows, r.id = id → (r.status = "pending" ↔ e.status = .pending) := by
      intro r hr hid
      rw [← @SqliteQueue.rowToStatus_pending r.status r.decision, (h.row_eq hq hr hid).1, Except.ok.injEq]
    by_cases hst : e.status = .pending
    · have hhit : ∀ r ∈ s.rows, SqliteQueue.pendingAt id r = decide (r.id = id) := by
        intro r hr
        by_cases hid : r.id = id
        · simp [SqliteQueue.pendingAt, hid, (hrow r hr hid).mpr hst]
        · simp [SqliteQueue.pendingAt, hid]
      have hne : (s.rows.filter (SqliteQueue.pendingAt id)).length ≠ 0 := by
        have hmem : r₀ ∈ s.rows.filter (SqliteQueue.pendingAt id) :=
          List.mem_filter.mpr ⟨hr₀, by simp [hhit r₀ hr₀, hid₀]⟩
        have := List.length_pos_of_mem hmem
        omega
      have hp : (print decision).fromStr = .ok decision := hprint (by simp [InMemoryQueue.poll, hq, hst])
      simp only [if_neg hne, hst]
      refine ⟨trivial, ?_⟩
      have hs' : (⟨s.rows.map fun r => if SqliteQueue.pendingAt id r = true then
          { r with status := "resolved", decision := some (print decision), resolvedAt := some (wholeSeconds now) }
          else r⟩ : SqliteQueue).known = s.known.map fun y => if y.1 = id then resolveKnown decision y else y := by
        simp only [SqliteQueue.known, List.map_map]
        refine List.map_congr_left fun r hr => ?_
        simp only [Function.comp_apply, hhit r hr, decide_eq_true_eq]
        by_cases hid : r.id = id
        · simp [hid, resolveKnown, SqliteQueue.rowToStatus, hp, Except.toOption]
        · simp [hid]
      have hmem : (id, (.ok e.status : Except HitlError ApprovalStatus), e.request.expiresAt.map wholeSeconds) ∈
          q.known := List.mem_of_find?_eq_some (by rw [q.find?_known, hq]; rfl)
      have hperm := map_update_perm h.nodup hmem (resolveKnown decision)
      constructor
      · rw [InMemoryQueue.known_insert, hs']
        exact hperm.symm.trans (h.perm.map _)
      · rw [InMemoryQueue.known_insert]
        refine ((hperm.map (·.1)).nodup_iff.mp ?_ :)
        rw [List.map_map]
        refine (List.map_congr_left fun y _ => ?_) ▸ h.nodup
        simp only [Function.comp_apply]
        split <;> rfl
    · have hmiss : s.rows.filter (SqliteQueue.pendingAt id) = [] := by
        refine List.filter_eq_nil_iff.mpr fun r hr => ?_
        by_cases hid : r.id = id
        · simp [SqliteQueue.pendingAt, hid, mt (hrow r hr hid).mp hst]
        · simp [SqliteQueue.pendingAt, hid]
      have hne : (s.rows.filter fun r => r.id = id).length ≠ 0 := by
        have hmem : r₀ ∈ s.rows.filter fun r => r.id = id := List.mem_filter.mpr ⟨hr₀, by simpa using hid₀⟩
        have := List.length_pos_of_mem hmem
        omega
      simp only [hmiss, List.length_nil, if_true, if_neg hne]
      exact ⟨trivial, h⟩

/-- Whether a sweep expires an approval, as both queues know it. -/
private def lapsedKnown (now : Nat) (y : Known) : Bool :=
  y.2.1 = .ok .pending && y.2.2.any fun e => decide (e < wholeSeconds now)

private def expireKnown (now : Nat) (y : Known) : Known := if lapsedKnown now y then (y.1, .ok .expired, y.2.2) else y

private theorem wholeSeconds_lt {e : Int} {now : Nat} (h : wholeSeconds e < wholeSeconds now) : e < now := by
  unfold wholeSeconds at h
  omega

/-- Sweeping at a time at which no pending entry has expired in the current second. -/
private theorem sweep_matches {q : InMemoryQueue} {s : SqliteQueue} (h : Matches q s) {now : Nat}
    (hexp : ∀ x ∈ q.entries, x.2.status = .pending → ∀ e ∈ x.2.request.expiresAt, e < now →
      wholeSeconds e < wholeSeconds now) :
    (s.sweepExpired now).1 = (q.sweepExpired now).1 ∧ Matches (q.sweepExpired now).2 (s.sweepExpired now).2 := by
  -- Both sweeps are the same function of what is known of an entry.
  have hentry : ∀ x ∈ q.entries, InMemoryQueue.QueueEntry.expires now x.2 =
      lapsedKnown now (x.1, .ok x.2.status, x.2.request.expiresAt.map wholeSeconds) := by
    intro x hx
    have hx' := hexp x hx
    unfold InMemoryQueue.QueueEntry.expires lapsedKnown
    cases hst : x.2.status with
    | pending =>
      cases he : x.2.request.expiresAt with
      | none => rfl
      | some e =>
        have hiff : e < now ↔ wholeSeconds e < wholeSeconds now :=
          ⟨hx' hst e he, wholeSeconds_lt⟩
        simp [hiff]
    | resolved d => simp
    | expired => simp
  have hrow : ∀ r : ApprovalRow, SqliteQueue.lapsed now r =
      lapsedKnown now (r.id, SqliteQueue.rowToStatus r.status r.decision, r.expiresAt) := by
    intro r
    unfold SqliteQueue.lapsed lapsedKnown
    simp only [SqliteQueue.rowToStatus_pending]
  have hq : (q.sweepExpired now).2.known = q.known.map (expireKnown now) := by
    simp only [InMemoryQueue.known, InMemoryQueue.sweepExpired, List.map_map]
    refine List.map_congr_left fun x hx => ?_
    simp only [Function.comp_apply, expireKnown, ← hentry x hx]
    split <;> rfl
  have hs : (s.sweepExpired now).2.known = s.known.map (expireKnown now) := by
    simp only [SqliteQueue.known, SqliteQueue.sweepExpired, List.map_map]
    refine List.map_congr_left fun r _ => ?_
    simp only [Function.comp_apply, expireKnown, ← hrow r]
    split <;> rfl
  refine ⟨?_, ?_, ?_⟩
  · have hqc : (q.sweepExpired now).1 = q.known.countP (lapsedKnown now) := by
      rw [InMemoryQueue.sweepExpired, InMemoryQueue.known, List.countP_map, ← List.countP_eq_length_filter]
      exact List.countP_congr fun x hx => by rw [hentry x hx]; rfl
    have hsc : (s.sweepExpired now).1 = s.known.countP (lapsedKnown now) := by
      rw [SqliteQueue.sweepExpired, SqliteQueue.known, List.countP_map, ← List.countP_eq_length_filter]
      exact List.countP_congr fun r _ => by rw [hrow r]; rfl
    rw [hqc, hsc]
    exact (h.perm.countP_eq _).symm
  · rw [hq, hs]
    exact h.perm.map _
  · rw [hq, List.map_map]
    refine (List.map_congr_left fun y _ => ?_) ▸ h.nodup
    simp only [Function.comp_apply, expireKnown]
    split <;> rfl

/-- As long as the calls are the same for both, the SQLite queue simulates the one in memory. -/
theorem sqlite_simulates (print : ApprovalDecision → JsonText ApprovalDecision) :
    Machine.Simulation InMemoryQueue.machine (SqliteQueue.machine print) (SameCall print) Matches := by
  have hboth : ∀ q s call, Matches q s → SameCall print q call →
      ((SqliteQueue.machine print).step s call).1 = (InMemoryQueue.machine.step q call).1 ∧
        Matches (InMemoryQueue.machine.step q call).2 ((SqliteQueue.machine print).step s call).2 := by
    intro q s call h hc
    obtain ⟨now, call⟩ := call
    cases call with
    | submit req =>
      obtain ⟨s', hs', hm⟩ := submit_matches h now hc
      simp only [SqliteQueue.machine, InMemoryQueue.machine, hs']
      exact ⟨rfl, hm⟩
    | resolve id decision =>
      obtain ⟨hr, hm⟩ := @resolve_matches print q s h now id decision hc
      simp only [SqliteQueue.machine, InMemoryQueue.machine]
      rcases hs : s.resolve print now id decision with ⟨r, s'⟩
      rcases hq : q.resolve id decision with ⟨r', q'⟩
      rw [hs, hq] at hr hm
      obtain rfl : r = r' := hr
      cases r <;> exact ⟨rfl, hm⟩
    | poll id => exact ⟨by simp only [SqliteQueue.machine, InMemoryQueue.machine, h.poll_eq id], h⟩
    | sweepExpired =>
      obtain ⟨hr, hm⟩ := sweep_matches h hc
      simp only [SqliteQueue.machine, InMemoryQueue.machine, hr]
      exact ⟨trivial, hm⟩
  exact ⟨fun q s call h hc => (hboth q s call h hc).1, fun q s call h hc => (hboth q s call h hc).2⟩

end AgentVerse
