import AgentVerse.Hitl.Simulation

/-!
# The two approval queues agree

As long as no id is submitted twice, no sweep falls into the second in which a pending approval expires, and decisions
read back from their JSON text, the two queues answer alike, call by call, and both keep the state machine of
approvals (`queues_agree`). Without the first two conditions they differ (`queues_differ`).
-/

namespace AgentVerse

open Effects

/-! ### The state machine of approvals -/

private theorem pendingCount_known (q : InMemoryQueue) :
    Approvals.pendingCount q = q.known.countP fun y => y.2.1 = .ok .pending := by
  rw [InMemoryQueue.known, List.countP_map]
  exact List.countP_congr fun x _ => by simp

theorem Matches.pendingCount_eq {q : InMemoryQueue} {s : SqliteQueue} (h : Matches q s) :
    Approvals.pendingCount s = Approvals.pendingCount q := by
  have hs : Approvals.pendingCount s = s.known.countP fun y => y.2.1 = .ok .pending := by
    rw [SqliteQueue.known, List.countP_map]
    exact List.countP_congr fun r _ => by simp [SqliteQueue.rowToStatus_pending]
  rw [hs, pendingCount_known]
  exact (h.perm.countP_eq _).symm

namespace InMemoryQueue

variable {print : ApprovalDecision → JsonText ApprovalDecision} {q : InMemoryQueue}

private theorem pendingCount_resolve {s : SqliteQueue} (h : Matches q s) {id : ApprovalId} {e : QueueEntry}
    (hq : q.get id = some e) (hst : e.status = .pending) (decision : ApprovalDecision) :
    Approvals.pendingCount q =
      Approvals.pendingCount (q.insert id { e with status := .resolved decision }) + 1 := by
  have hmem : (id, (.ok e.status : Except HitlError ApprovalStatus), e.request.expiresAt.map wholeSeconds) ∈
      q.known := List.mem_of_find?_eq_some (by rw [q.find?_known, hq]; rfl)
  have hperm := map_update_perm h.nodup hmem fun y => y
  simp only [ite_self, List.map_id'] at hperm
  rw [pendingCount_known, pendingCount_known, known_insert, hperm.countP_eq]
  simp [hst]

private theorem pendingCount_sweep (q : InMemoryQueue) (now : Nat) :
    Approvals.pendingCount q = Approvals.pendingCount (q.sweepExpired now).2 + (q.sweepExpired now).1 := by
  have hafter : Approvals.pendingCount (q.sweepExpired now).2 =
      (q.entries.filter fun x => !QueueEntry.expires now x.2).countP fun x => x.2.status = .pending := by
    simp only [Approvals.pendingCount, sweepExpired, List.countP_map, List.countP_filter]
    refine List.countP_congr fun x _ => ?_
    by_cases hx : QueueEntry.expires now x.2 = true <;> simp [hx]
  have hcount : (q.sweepExpired now).1 =
      (q.entries.filter fun x => QueueEntry.expires now x.2).countP fun x => x.2.status = .pending := by
    rw [sweepExpired, List.countP_filter, ← List.countP_eq_length_filter]
    refine List.countP_congr fun x _ => ?_
    -- Only pending entries expire.
    have hpending : QueueEntry.expires now x.2 = true → x.2.status = .pending := by
      intro hx
      unfold QueueEntry.expires at hx
      split at hx
      · assumption
      · cases hx
    simpa using hpending
  have hsplit := List.countP_eq_countP_filter_add q.entries (fun x => decide (x.2.status = .pending))
    fun x => QueueEntry.expires now x.2
  rw [hafter, hcount]
  simp only [Approvals.pendingCount] at hsplit ⊢
  omega

/-- The count of pending entries moves with the metric. -/
private theorem balance_step {s : SqliteQueue} (h : Matches q s) {call : Nat × QueueCall} (hc : SameCall print q call) :
    (Approvals.pendingCount (machine.step q call).2 : Int) =
      Approvals.pendingCount q + (machine.step q call).1.2.pendingDelta := by
  obtain ⟨now, call⟩ := call
  cases call with
  | submit req =>
    have hkeep : (q.known.filter fun y => y.1 ≠ req.id) = q.known :=
      List.filter_eq_self.mpr fun y hy => by simpa using get_eq_none.mp hc y hy
    simp only [machine, submit]
    rw [pendingCount_known, pendingCount_known, known_insert, hkeep]
    simp
  | resolve id decision =>
    simp only [machine, resolve]
    cases hq : q.get id with
    | none => simp [QueueMetrics.none]
    | some e =>
      obtain ⟨request, status⟩ := e
      cases status with
      | pending =>
        have hcount := pendingCount_resolve h hq rfl decision
        simp only at hcount ⊢
        omega
      | resolved d => simp [QueueMetrics.none]
      | expired => simp [QueueMetrics.none]
  | poll id => simp [machine, QueueMetrics.none]
  | sweepExpired =>
    have hcount := pendingCount_sweep q now
    simp only [machine, QueueMetrics.ofSweep]
    split
    · simp only
      omega
    · simp only [QueueMetrics.none]
      omega

/-- No call changes a status that is not pending. -/
private theorem terminal_step {id : ApprovalId} {status : ApprovalStatus} (hst : status ≠ .pending)
    (h : q.poll id = .ok status) {call : Nat × QueueCall} (hc : SameCall print q call) :
    (machine.step q call).2.poll id = .ok status := by
  obtain ⟨e, he, rfl⟩ : ∃ e, q.get id = some e ∧ e.status = status := by
    unfold poll at h
    cases hq : q.get id with
    | none => rw [hq] at h; cases h
    | some e => rw [hq] at h; exact ⟨e, rfl, Except.ok.inj h⟩
  obtain ⟨now, call⟩ := call
  cases call with
  | submit req =>
    have hne : id ≠ req.id := by
      rintro rfl
      have hnone : q.get req.id = none := hc
      rw [he] at hnone
      cases hnone
    simp [machine, submit, poll, get_insert_other _ _ hne, he]
  | resolve id' decision =>
    simp only [machine, resolve]
    cases hq : q.get id' with
    | none => exact h
    | some e' =>
      obtain ⟨request, status⟩ := e'
      cases status with
      | pending =>
        have hne : id ≠ id' := by
          rintro rfl
          obtain rfl := Option.some.inj (he.symm.trans hq)
          exact hst rfl
        simp [poll, get_insert_other _ _ hne, he]
      | resolved d => exact h
      | expired => exact h
  | poll id' => exact h
  | sweepExpired =>
    have hkeep : QueueEntry.expires now e = false := by
      unfold QueueEntry.expires
      split
      · exact absurd ‹_› hst
      · rfl
    simp [machine, poll, get_sweepExpired, he, hkeep]

/-- Along calls that submit no id twice, the queue in memory keeps the state machine of approvals. -/
theorem keepsApprovals {calls : List (Nat × QueueCall)} (h : machine.Conforms (SameCall print) new calls) :
    KeepsApprovals machine new calls := by
  have hstart : Matches new SqliteQueue.new := ⟨.refl _, List.nodup_nil⟩
  refine ⟨?_, ?_, ?_⟩
  · intro before after hsplit id status hst hpoll
    subst hsplit
    rw [Machine.run_append]
    exact h.append.2.preserves (P := fun q => q.poll id = .ok status)
      (fun q call hp hc => terminal_step hst hp hc) hpoll
  · intro id
    refine (h.once (fun q => ∃ status, status ≠ .pending ∧ q.poll id = .ok status) ?_ ?_).1
    · rintro q call hc ⟨status, hst, hp⟩
      exact ⟨status, hst, terminal_step hst hp hc⟩
    · rintro q ⟨now, call⟩ hc hevent
      cases call with
      | resolve id' decision =>
        simp only [machine, resolve] at hevent ⊢
        cases hq : q.get id' with
        | none => simp [hq, resolves] at hevent
        | some e =>
          obtain ⟨request, status⟩ := e
          cases status with
          | pending =>
            obtain rfl : id' = id := by simpa [hq, resolves] using hevent
            refine ⟨?_, .resolved decision, by simp, by simp [poll]⟩
            rintro ⟨status, hne, hp⟩
            simp only [poll, hq, Except.ok.injEq] at hp
            exact hne hp.symm
          | resolved d => simp [hq, resolves] at hevent
          | expired => simp [hq, resolves] at hevent
      | _ => simp [resolves] at hevent
  · have hbalance := h.balance (P := fun q => ∃ s, Matches q s)
      (fun q => (Approvals.pendingCount q : Int)) (fun o => o.2.pendingDelta)
      (fun q call hq hc => hq.elim fun s hs => ⟨⟨_, (sqlite_simulates print).next q s call hs hc⟩, balance_step hs hc⟩)
      ⟨_, hstart⟩
    rw [hbalance]
    simp [new, Approvals.pendingCount]

end InMemoryQueue

/-- The two queues answer alike, call by call, and both keep the state machine of approvals. -/
theorem queues_agree (print : ApprovalDecision → JsonText ApprovalDecision) {calls : List (Nat × QueueCall)}
    (h : InMemoryQueue.machine.Conforms (SameCall print) .new calls) :
    (SqliteQueue.machine print).outputs .new calls = InMemoryQueue.machine.outputs .new calls ∧
      KeepsApprovals InMemoryQueue.machine .new calls ∧
      KeepsApprovals (SqliteQueue.machine print) .new calls := by
  have hsim := sqlite_simulates print
  have hstart : Matches InMemoryQueue.new SqliteQueue.new := ⟨.refl _, List.nodup_nil⟩
  have hout := hsim.outputs_eq hstart h
  have hmem := InMemoryQueue.keepsApprovals h
  have hpoll : ∀ {calls}, InMemoryQueue.machine.Conforms (SameCall print) .new calls → ∀ id,
      Approvals.poll ((SqliteQueue.machine print).run .new calls) id =
        Approvals.poll (InMemoryQueue.machine.run .new calls) id :=
    fun hc id => (hsim.run hstart hc).poll_eq id
  refine ⟨hout, hmem, ?_, ?_, ?_⟩
  · intro before after hsplit id status hst hp
    have hbefore := (hsplit ▸ h).append.1
    rw [hpoll hbefore id] at hp
    rw [hpoll h id]
    exact hmem.terminal before after hsplit id status hst hp
  · intro id
    have honce := hmem.once id
    unfold Machine.occurrences at honce ⊢
    rwa [hout]
  · rw [hout, hmem.balance]
    have hcount := (hsim.run hstart h).pendingCount_eq
    rw [hcount]

/-- A request for the approval `id` that expires at the given time. -/
def ApprovalRequest.sample (id : ApprovalId) (expiresAt : Option Int) : ApprovalRequest :=
  ⟨id, 0, .toolApproval "exec_command" .null, expiresAt⟩

/-- A run in which one approval is resolved and another one expires. -/
def resolvedAndExpired : List (Nat × QueueCall) :=
  [(0, .submit (.sample 1 none)), (1, .submit (.sample 2 (some 5))), (2, .resolve 1 .approved),
    (1000000000, .sweepExpired), (1000000001, .poll 2)]

theorem queues_agree_sample :
    (SqliteQueue.machine .ofValue).outputs .new resolvedAndExpired =
        InMemoryQueue.machine.outputs .new resolvedAndExpired ∧
      KeepsApprovals InMemoryQueue.machine .new resolvedAndExpired ∧
      KeepsApprovals (SqliteQueue.machine .ofValue) .new resolvedAndExpired :=
  queues_agree .ofValue (by decide +kernel)

/-- An id that is submitted again after it was resolved: only the queue in memory takes it, and the approval is
pending again. -/
def submittedTwice : List (Nat × QueueCall) :=
  [(0, .submit (.sample 1 none)), (0, .resolve 1 .approved), (0, .submit (.sample 1 none))]

/-- A sweep in the second in which an approval expired: only the queue in memory sees it. -/
def sweptTooEarly : List (Nat × QueueCall) := [(0, .submit (.sample 1 (some 5))), (7, .sweepExpired)]

theorem queues_differ :
    (SqliteQueue.machine .ofValue).outputs .new submittedTwice ≠ InMemoryQueue.machine.outputs .new submittedTwice ∧
      ¬ KeepsApprovals InMemoryQueue.machine .new submittedTwice ∧
      (SqliteQueue.machine .ofValue).outputs .new sweptTooEarly ≠
        InMemoryQueue.machine.outputs .new sweptTooEarly := by
  refine ⟨by decide +kernel, ?_, by decide +kernel⟩
  intro h
  have hafter := h.terminal [(0, .submit (.sample 1 none)), (0, .resolve 1 .approved)] _ rfl 1 (.resolved .approved)
    (by decide) (by decide +kernel)
  have hpending : Approvals.poll (InMemoryQueue.machine.run .new submittedTwice) 1 = .ok .pending := by
    decide +kernel
  rw [hpending] at hafter
  cases hafter

end AgentVerse
