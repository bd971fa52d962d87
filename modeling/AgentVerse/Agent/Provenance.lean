import AgentVerse.Agent.Interruption

/-!
# Where a pending state comes from

The pending state that a resume finds was written by an earlier call, together with an approval id that this call drew
(`Provenance`). Ids are never drawn twice, so the id of a resume leads back to one call: the one that was interrupted
under this id (`Provenance.answered`).
-/

namespace AgentVerse

open Effects

variable {env : Env} {sid : SessionId} {state : InterruptedState}

namespace Agent

variable (agent : Agent)

/-! ### Origins -/

/-- The skill under which a call runs its strategy. -/
def runSkill (e : CallEntry) : Option SkillId :=
  match e.call with
  | .invoke _ sid input => agent.boundSkill e.before sid input
  | .resume _ sid _ _ => suspendedSkill e.before sid
  | _ => none

/-- The call wrote the pending state: of the interrupt that stopped it, or of a gate. -/
inductive Origin (sid : SessionId) (state : InterruptedState) (e : CallEntry) : Prop where
  | stopped {i : HitlInterrupt} {kind : InterruptKind} {skillCtx : Option SkillContext}
      (h : agent.StopsAt sid (agent.runSkill e) e.asked i kind skillCtx) (hstate : state = interruptedState i kind skillCtx)
      (hout : ∀ out, e.result = .ok (.output out) → out = .interrupted i.approvalId kind) : Origin sid state e
  | gated {id : ApprovalId} {transition : JsonText PhaseTransition} (hstate : state = .pendingPhaseGate id transition)
      (hid : ∃ x ∈ e.asked, draws id x) (hout : ∀ out, e.result ≠ .ok (.output out)) : Origin sid state e

variable {agent}

/-- A call on which a strategy ends as its program does. -/
theorem origin_of_ended {e : CallEntry} {s : SessionId} {r : Except AgentError AgentOutput}
    (h : agent.Ended s (agent.runSkill e) e.asked r) (hr : e.result = r.map .output) {x : Event} (hx : x ∈ e.asked)
    (hplants : x.1.Plants sid state) : agent.Origin sid state e := by
  cases h with
  | through hbarren _ => exact absurd hplants (hbarren x hx sid state)
  | stopped hstops hout =>
    obtain ⟨rfl, rfl⟩ := hstops.plants x hx sid state hplants
    refine .stopped hstops rfl fun out h => hout out ?_
    rw [hr] at h
    cases r with
    | error e => cases h
    | ok out' => cases h; rfl

theorem invoke_entry_ended {e : CallEntry} (he : e = agent.entry env e.before e.call) {userId input : String}
    (hcall : e.call = .invoke userId sid input) :
    ∃ r, e.result = r.map .output ∧ agent.Ended sid (agent.runSkill e) e.asked r := by
  have hended := agent.invoke_ended env userId sid input e.before
  have hskill : agent.runSkill e = agent.boundSkill e.before sid input := by rw [runSkill, hcall]
  rw [hskill]
  rw [hcall, Agent.entry_eq (p := agent.invoke userId sid input) rfl] at he
  rw [he]
  exact ⟨_, rfl, hended⟩

theorem resume_entry_ended {e : CallEntry} (he : e = agent.entry env e.before e.call) {userId : String}
    {approvalId : ApprovalId} {decision : ApprovalDecision} (hcall : e.call = .resume userId sid approvalId decision) :
    ∃ r, e.result = r.map .output ∧ agent.Ended sid (agent.runSkill e) e.asked r := by
  have hended := agent.resume_ended env userId sid approvalId decision e.before
  have hskill : agent.runSkill e = suspendedSkill e.before sid := by rw [runSkill, hcall]
  rw [hskill]
  rw [hcall, Agent.entry_eq (p := agent.resume userId sid approvalId decision) rfl] at he
  rw [he]
  exact ⟨_, rfl, hended⟩

/-- Every pending state that a call writes originates in it. -/
theorem origin_of_plants {e : CallEntry} (he : e = agent.entry env e.before e.call) {x : Event} (hx : x ∈ e.asked)
    (hplants : x.1.Plants sid state) : agent.Origin sid state e := by
  have hother : (agent.program e.call).Only Request.Barren → agent.Origin sid state e := by
    intro honly
    have hbarren : ∀ y ∈ (agent.program e.call).asked (handle env) e.before, y.1.Barren := honly.run (handle env) e.before
    rw [he] at hx
    exact absurd hplants (hbarren x hx sid state)
  cases hcall : e.call with
  | invoke u s input =>
    obtain ⟨r, hr, hended⟩ := invoke_entry_ended he hcall
    exact origin_of_ended hended hr hx hplants
  | resume u s id d =>
    obtain ⟨r, hr, hended⟩ := resume_entry_ended he hcall
    exact origin_of_ended hended hr hx hplants
  | advancePhase u s output =>
    rw [hcall, Agent.entry_eq (p := agent.advancePhase u s output) (f := .phase) rfl] at he
    rw [he] at hx ⊢
    obtain ⟨hasked, -⟩ := Prog.Meets.run (handle env) (agent.advancePhase_plants u output fun q r =>
      (⟨q, r⟩ : Event) ∈ (agent.advancePhase u s output).asked (handle env) e.before) e.before fun _ h => h
    obtain ⟨rfl, id, transition, kind, hstate, hdrawn⟩ := hasked x hx sid state hplants
    refine .gated hstate ⟨_, hdrawn, rfl⟩ fun out h => ?_
    obtain ⟨phase, -, hphase⟩ := map_eq_ok.mp h
    cases hphase
  | _ => exact hother (agent.program_barren (by simp [hcall]) (by simp [hcall]) (by simp [hcall]))

/-- The id of a pending state was drawn by the call that wrote it. -/
theorem Origin.draws {e : CallEntry} (h : agent.Origin sid state e) :
    ∃ x ∈ e.asked, AgentVerse.draws state.approvalId x := by
  cases h with
  | @stopped i kind skillCtx hstops hstate _ =>
    obtain ⟨policy, satisfied, -, hstopped⟩ := hstops.stopped
    subst hstate
    rw [approvalId_interruptedState]
    exact hstopped.draws
  | gated hstate hid _ =>
    subst hstate
    exact hid

/-! ### Histories -/

variable (agent) in
/-- Every pending state in the world of a history, or in one that a call of it found, originates in a call of the
history. The calls draw their ids one after the other. -/
structure Provenance (H : CallHistory) : Prop where
  ordered : H.past.Pairwise fun e e' => e.after.nextUuid ≤ e'.before.nextUuid
  bounded : ∀ e ∈ H.past, e.after.nextUuid ≤ H.state.nextUuid
  origin : ∀ sid state, H.state.Stores sid state → ∃ e ∈ H.past, agent.Origin sid state e
  earlier : ∀ e ∈ H.past, ∀ sid state, e.before.Stores sid state → ∃ e' ∈ H.past, agent.Origin sid state e'

/-- A call reaches the world that it leaves. -/
theorem entry_reaches (agent : Agent) (env : Env) (w : World) (call : ApiCall) :
    Reaches (handle env) (fun _ => True) ⟨w, []⟩ ⟨(agent.entry env w call).after, (agent.entry env w call).asked⟩ :=
  (Prog.only_true (agent.program call)).reaches ⟨w, []⟩

theorem Provenance.next {H : CallHistory} (h : agent.Provenance H) (env : Env) (call : ApiCall) :
    agent.Provenance (H.next (handle env) agent.program call) := by
  have hr := agent.entry_reaches env H.state call
  have hle : H.state.nextUuid ≤ (agent.entry env H.state call).after.nextUuid := nextUuid_le hr
  have hmem : ∀ {e}, e ∈ H.past → e ∈ H.past ++ [agent.entry env H.state call] := List.mem_append_left _
  refine {
    ordered := ?_
    bounded := History.forall_next (fun e he => (h.bounded e he).trans hle) (Nat.le_refl _)
    origin := fun sid state hstores => ?_
    earlier := History.forall_next (fun e he sid state hstores => ?_) fun sid state hstores => ?_ }
  · refine List.pairwise_append.mpr ⟨h.ordered, List.pairwise_singleton _ _, fun e he e' he' => ?_⟩
    rw [List.mem_singleton.mp he']
    exact h.bounded e he
  · rcases stores_of_reaches hr hstores with hstores | ⟨x, hx, hplants⟩
    · obtain ⟨e, he, horigin⟩ := h.origin sid state hstores
      exact ⟨e, hmem he, horigin⟩
    · exact ⟨_, List.mem_append_right _ (List.mem_singleton_self _), origin_of_plants rfl hx hplants⟩
  · obtain ⟨e', he', horigin⟩ := h.earlier e he sid state hstores
    exact ⟨e', hmem he', horigin⟩
  · obtain ⟨e', he', horigin⟩ := h.origin sid state hstores
    exact ⟨e', hmem he', horigin⟩

theorem provenance (agent : Agent) (env : Env) (skills : SkillRegistry) (clock : Nat) (calls : List ApiCall) :
    agent.Provenance (agent.serve env (.start (World.fresh skills clock)) calls) := by
  refine History.always (I := agent.Provenance) (fun H call h => h.next env call) ?_ calls
  exact {
    ordered := List.Pairwise.nil
    bounded := fun e he => by cases he
    origin := fun sid state ⟨row, hrow, _⟩ => by cases hrow
    earlier := fun e he => by cases he }

/-- The ids of a history lead back to one call. -/
theorem Provenance.unique {H : CallHistory} (h : agent.Provenance H)
    (hentries : ∀ e ∈ H.past, e = agent.entry env e.before e.call) {e e' : CallEntry} (he : e ∈ H.past)
    (he' : e' ∈ H.past) {id : ApprovalId} (hid : ∃ x ∈ e.asked, AgentVerse.draws id x)
    (hid' : ∃ x ∈ e'.asked, AgentVerse.draws id x) : e = e' := by
  have hrange : ∀ e ∈ H.past, (∃ x ∈ e.asked, AgentVerse.draws id x) → e.before.nextUuid ≤ id ∧ id < e.after.nextUuid := by
    rintro e he ⟨x, hx, hdraws⟩
    have hr := agent.entry_reaches env e.before e.call
    rw [← hentries e he] at hr
    exact draws_of_reaches hr hx hdraws
  have hapart : H.past.Pairwise fun a b => (∃ x ∈ a.asked, AgentVerse.draws id x) →
      (∃ x ∈ b.asked, AgentVerse.draws id x) → a = b := by
    refine List.Pairwise.imp_of_mem (fun {a b} ha hb hle hida hidb => ?_) h.ordered
    have hlt : id < a.after.nextUuid := (hrange a ha hida).2
    have hge : b.before.nextUuid ≤ id := (hrange b hb hidb).1
    exact absurd (Nat.lt_of_lt_of_le hlt (Nat.le_trans hle hge)) (Nat.lt_irrefl id)
  exact List.Pairwise.forall_of_forall_of_flip (fun _ _ _ _ => rfl) hapart
    (hapart.imp fun {a b} hab hb ha => (hab ha hb).symm) he he' hid hid'

/-- A call that was interrupted under an approval id draws it. -/
theorem interrupted_draws {e : CallEntry} (he : e = agent.entry env e.before e.call) (hcall : e.call.TakesTurn sid)
    {id : ApprovalId} {kind : InterruptKind} (hout : e.result = .ok (.output (.interrupted id kind))) :
    ∃ x ∈ e.asked, AgentVerse.draws id x := by
  have hended : ∃ r, e.result = r.map .output ∧ agent.Ended sid (agent.runSkill e) e.asked r := by
    cases hc : e.call with
    | invoke u s input =>
      rw [hc] at hcall
      obtain rfl : s = sid := hcall
      exact invoke_entry_ended he hc
    | resume u s approvalId decision =>
      rw [hc] at hcall
      obtain rfl : s = sid := hcall
      exact resume_entry_ended he hc
    | _ => rw [hc] at hcall; exact hcall.elim
  obtain ⟨r, hr, hended⟩ := hended
  rw [hr] at hout
  cases r with
  | error err => cases hout
  | ok out =>
    cases hout
    cases hended with
    | through _ hnot => exact absurd rfl (hnot id kind)
    | stopped hstops hid =>
      cases hid _ rfl
      obtain ⟨policy, satisfied, -, hstopped⟩ := hstops.stopped
      exact hstopped.draws

/-- The state that a later call finds under the id of an interrupt is the one of this interrupt. -/
theorem Provenance.answered {H : CallHistory} (h : agent.Provenance H)
    (hentries : ∀ e ∈ H.past, e = agent.entry env e.before e.call) {e e' : CallEntry} (he : e ∈ H.past)
    (he' : e' ∈ H.past) (hcall : e.call.TakesTurn sid) {id : ApprovalId} {kind : InterruptKind}
    (hout : e.result = .ok (.output (.interrupted id kind))) {s : SessionId} (hstores : e'.before.Stores s state)
    (hid : state.approvalId = id) : ∃ i skillCtx, agent.StopsAt s (agent.runSkill e) e.asked i kind skillCtx ∧
      state = interruptedState i kind skillCtx ∧ i.approvalId = id := by
  obtain ⟨e'', he'', horigin⟩ := h.earlier e' he' s state hstores
  obtain rfl : e = e'' :=
    h.unique hentries he he'' (interrupted_draws (hentries e he) hcall hout) (hid ▸ horigin.draws)
  cases horigin with
  | stopped hstops hstate hkind =>
    cases hkind _ hout
    exact ⟨_, _, hstops, hstate, rfl⟩
  | gated _ _ hnot => exact absurd hout (hnot _)

end Agent

end AgentVerse
