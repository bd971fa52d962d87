import AgentVerse.Agent.Lifecycle

/-!
# Resuming and the approval queue

The approval queue and the pending state of a session are two records of one question. A resume reads the second one
only. It agrees with the first as long as an approving resume comes after the approval was resolved in the queue
(`resume_honours_queue`): a recorded decision is final.
-/

namespace AgentVerse

open Effects

variable {env : Env} {w : World}

/-! ### The queue along a run -/

/-- The queue knows no id that is still to be drawn. -/
def World.QueueNumbered (w : World) : Prop := ∀ id, w.queue.knows id → id < w.nextUuid

theorem handle_queueNumbered (q : Request) (hw : w.QueueNumbered) : (handle env q w).2.QueueNumbered := by
  cases q with
  | sql st => simp only [handle, answer]; split <;> exact hw
  | newUuid => exact fun id h => Nat.lt_succ_of_lt (hw id h)
  | cacheAppendTurn u sid m m' => simp only [handle, answer]; split <;> exact hw
  | submit sid kind =>
    simp only [handle, answer, queueOp]
    split
    · exact fun id h => Nat.lt_succ_of_lt (hw id h)
    · intro id h
      rcases InMemoryQueue.knows_submit h with rfl | h
      · exact Nat.lt_succ_self _
      · exact Nat.lt_succ_of_lt (hw id h)
  | resolve id d =>
    simp only [handle, answer, queueOp]
    split
    · exact hw
    · exact fun id h => hw id (InMemoryQueue.knows_resolve.mp h)
  | poll id => simp only [handle, answer, queueOp]; split <;> exact hw
  | sweepExpired =>
    simp only [handle, answer, queueOp]
    split
    · exact hw
    · exact fun id h => hw id ((InMemoryQueue.knows_sweepExpired _).mp h)
  | _ => exact hw

/-- No request changes a decision that the queue has recorded. -/
theorem handle_keeps_decision (q : Request) (hw : w.QueueNumbered) {id : ApprovalId} {d : ApprovalDecision}
    (h : w.queue.decision? id = some d) : (handle env q w).2.queue.decision? id = some d := by
  cases q with
  | sql st => simp only [handle, answer]; split <;> exact h
  | cacheAppendTurn u sid m m' => simp only [handle, answer]; split <;> exact h
  | submit sid kind =>
    simp only [handle, answer, queueOp]
    split
    · exact h
    · exact InMemoryQueue.submit_keeps (Nat.ne_of_lt (hw id (InMemoryQueue.knows_of_decision h))) h
  | resolve id' d' =>
    simp only [handle, answer, queueOp]
    split
    · exact h
    · exact InMemoryQueue.resolve_keeps h
  | poll id' => simp only [handle, answer, queueOp]; split <;> exact h
  | sweepExpired =>
    simp only [handle, answer, queueOp]
    split
    · exact h
    · exact InMemoryQueue.sweepExpired_keeps _ h
  | _ => exact h

/-! ### Resumes that the queue backs -/

/-- The queue has recorded an approving decision. -/
def InMemoryQueue.approved (q : InMemoryQueue) (id : ApprovalId) : Prop := (q.decision? id).any (·.approves) = true

instance (q : InMemoryQueue) (id : ApprovalId) : Decidable (q.approved id) := inferInstanceAs (Decidable (_ = _))

/-- A call that recorded an approving decision on `id`. -/
def Approves (id : ApprovalId) (e : CallEntry) : Prop :=
  (∃ d : ApprovalDecision, d.approves = true ∧ e.call = .resolve id d) ∧ e.result = .ok (.queue (.ok ()))

/-- An approving resume acts only on an approval that is resolved so in the queue; otherwise it fails and starts no
tool. -/
def HonoursQueue (e : CallEntry) : Prop :=
  match e.call with
  | .resume _ _ id decision => decision.approves = true → e.before.queue.approved id ∨
      ((∃ err, e.result = .error err) ∧ ∀ x ∈ e.asked, x.1.dispatch? = none)
  | _ => True

/-- An approving resume that is let act comes after the approval was resolved. -/
def Backed (env : Env) (H : CallHistory) (e : CallEntry) : Prop :=
  match e.call with
  | .resume userId sid id decision => decision.approves = true → Agent.Accepts env e.before userId sid id →
      ∃ e' ∈ H.past, Approves id e'
  | _ => True

namespace Agent

variable (agent : Agent)

/-- What the queue has recorded so far. -/
structure Recorded (H : CallHistory) : Prop where
  numbered : H.state.QueueNumbered
  approved : ∀ e ∈ H.past, ∀ id, Approves id e → H.state.queue.approved id

theorem recorded_next {H : CallHistory} (h : Recorded H) (env : Env) (call : ApiCall) :
    Recorded (H.next (handle env) agent.program call) := by
  have hr := (Prog.only_true (agent.program call)).reaches (h := handle env) ⟨H.state, []⟩
  have hnum : ∀ {c : Config Reply World}, Reaches (handle env) (fun _ => True) ⟨H.state, []⟩ c →
      c.state.QueueNumbered := fun hr =>
    hr.preserves World.QueueNumbered (fun q _ _ hw => handle_queueNumbered q hw) h.numbered
  refine ⟨hnum hr, fun e he id ha => ?_⟩
  rcases List.mem_append.mp he with he | he
  · obtain ⟨d, hd, happ⟩ := (Option.any_eq_true _ _).mp (h.approved e he id ha)
    -- A decision recorded before the call is still there after it.
    have hkept := hr.preserves (fun w => w.QueueNumbered ∧ w.queue.decision? id = some d)
      (fun q _ _ hw => ⟨handle_queueNumbered q hw.1, handle_keeps_decision q hw.1 hw.2⟩) ⟨h.numbered, hd⟩
    exact (Option.any_eq_true _ _).mpr ⟨d, hkept.2, happ⟩
  · obtain rfl := List.mem_singleton.mp he
    obtain ⟨⟨d, hd, rfl : call = _⟩, hok⟩ := ha
    rw [show History.entry (handle env) agent.program H.state (.resolve id d) = _ from
      agent.entry_eq (p := request (.resolve id d)) (f := .queue) rfl env H.state] at hok
    have hstate : (H.next (handle env) agent.program (.resolve id d)).state =
        (handle env (.resolve id d) H.state).2 := rfl
    have hreply : (handle env (.resolve id d) H.state).1 = .ok () := by simpa [request, Except.map] using hok
    rw [hstate]
    simp only [handle, answer, queueOp] at hreply ⊢
    split at hreply
    · cases hreply
    · exact (Option.any_eq_true _ _).mpr ⟨d, InMemoryQueue.resolve_decision hreply, hd⟩

/-- In every run from the fresh world in which approving resumes are backed by the queue, resumes honour it. -/
theorem resume_honours_queue (env : Env) (skills : SkillRegistry) (clock : Nat) (cs : List ApiCall)
    (hc : (CallHistory.start (World.fresh skills clock)).Conforms (handle env) agent.program (Backed env) cs) :
    ∀ e ∈ (agent.serve env (.start (World.fresh skills clock)) cs).past, HonoursQueue e := by
  have hfresh : Recorded (.start (World.fresh skills clock)) :=
    ⟨fun _ h => (by cases h), fun _ h => (by cases h)⟩
  refine History.entries (I := Recorded) (fun H call hH hC => ⟨agent.recorded_next hH env call, ?_⟩) hfresh
    (fun _ h => by cases h) hc
  cases call with
  | resume userId sid id decision =>
    intro hd
    by_cases hacc : Accepts env H.state userId sid id
    · obtain ⟨e, he, happ⟩ := hC hd hacc
      exact .inl (hH.approved e he id happ)
    · obtain ⟨⟨e, he⟩, hidle⟩ := agent.resume_not_accepted decision hacc
      refine .inr ?_
      rw [show History.entry (handle env) agent.program H.state (.resume userId sid id decision) = _ from
        agent.entry_eq (p := agent.resume userId sid id decision) (f := .output) rfl env H.state]
      exact ⟨⟨e, by rw [he]; rfl⟩, hidle⟩
  | _ => trivial

/-- The calls of a run in which an approval is resolved and then resumed. -/
def resolvedFirst : List ApiCall :=
  [.createSession "u", .invoke "u" 0 "", .resolve 1 .approved, .sweepExpired, .resume "u" 0 1 .approved]

theorem resume_resolved :
    (CallHistory.start (World.fresh ⟨[]⟩ 0)).Conforms (handle (.asksFor ["file_delete"])) Agent.plain.program
        (Backed (.asksFor ["file_delete"])) resolvedFirst ∧
      ∀ e ∈ (Agent.plain.serve (.asksFor ["file_delete"]) (.start (World.fresh ⟨[]⟩ 0)) resolvedFirst).past,
        HonoursQueue e := by
  have hc : (CallHistory.start (World.fresh ⟨[]⟩ 0)).Conforms (handle (.asksFor ["file_delete"]))
      Agent.plain.program (Backed (.asksFor ["file_delete"])) resolvedFirst :=
    ⟨trivial, trivial, trivial, trivial, fun _ _ =>
      ⟨_, List.mem_append_left _ (List.mem_append_right _ (List.mem_singleton_self _)), ⟨.approved, rfl, rfl⟩,
        by decide +kernel⟩, trivial⟩
  exact ⟨hc, Agent.plain.resume_honours_queue _ _ _ _ hc⟩

/-- Whether a call is an approving resume that succeeded without an approval in the queue. -/
def unbacked (e : CallEntry) : Bool :=
  match e.call with
  | .resume _ _ id decision => decision.approves && !decide (e.before.queue.approved id) && e.result.toOption.isSome
  | _ => false

theorem not_honoursQueue {e : CallEntry} (h : unbacked e = true) : ¬ HonoursQueue e := by
  unfold unbacked at h
  unfold HonoursQueue
  cases hc : e.call with
  | resume userId sid id decision =>
    simp only [hc, Bool.and_eq_true, Bool.not_eq_true', decide_eq_false_iff_not] at h
    intro hq
    rcases hq h.1.1 with happ | ⟨⟨err, herr⟩, -⟩
    · exact h.1.2 happ
    · rw [herr] at h
      cases h.2
  | _ => simp [hc] at h

/-- A resume runs the tool although the approval is still pending in the queue, and although the queue never got it,
so that its id is the sentinel. -/
theorem resume_unresolved :
    (¬ ∀ e ∈ (Agent.plain.serve (.asksFor ["file_delete"]) (.start (World.fresh ⟨[]⟩ 0))
      [.createSession "u", .invoke "u" 0 "", .resume "u" 0 1 .approved]).past, HonoursQueue e) ∧
    ¬ ∀ e ∈ (Agent.plain.serve { Env.asksFor ["file_delete"] with queueError := fun _ => some "closed" }
      (.start (World.fresh ⟨[]⟩ 0))
      [.createSession "u", .invoke "u" 0 "", .resume "u" 0 2 .approved]).past, HonoursQueue e := by
  constructor
  · intro h
    have hbad : ∃ e ∈ (Agent.plain.serve (.asksFor ["file_delete"]) (.start (World.fresh ⟨[]⟩ 0))
      [.createSession "u", .invoke "u" 0 "", .resume "u" 0 1 .approved]).past, unbacked e = true := by decide +kernel
    obtain ⟨e, he, hb⟩ := hbad
    exact not_honoursQueue hb (h e he)
  · intro h
    have hbad : ∃ e ∈ (Agent.plain.serve { Env.asksFor ["file_delete"] with queueError := fun _ => some "closed" }
      (.start (World.fresh ⟨[]⟩ 0))
      [.createSession "u", .invoke "u" 0 "", .resume "u" 0 2 .approved]).past, unbacked e = true := by decide +kernel
    obtain ⟨e, he, hb⟩ := hbad
    exact not_honoursQueue hb (h e he)

end Agent

end AgentVerse
