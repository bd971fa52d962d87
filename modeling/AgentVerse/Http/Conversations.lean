import AgentVerse.Http.Answers

/-!
# Conversations with the orchestrator

An orchestrator keeps a ledger of what it was told: which sessions await which approval, and which are settled. The
ledger is right after every history in which the other callers leave these sessions alone: what it says a session awaits
is what a request to resume is let through with, and nothing else is (`ledger_sound`). A session whose interrupt nests
too deep to be read back lets no request through.
-/

namespace AgentVerse

open Effects SessionRoutes Aether

/-- What an orchestrator takes a session for. -/
inductive Standing where
  | awaiting (id : ApprovalId)
  | settled
  /-- A resume with the awaited approval was answered with an error. -/
  | unclear
  deriving DecidableEq

/-- The sessions that an orchestrator was told of. -/
abbrev Ledger := SessionId → Option Standing

namespace Ledger

variable (uu : UuidTexts)

def record (L : Ledger) (sid : SessionId) (s : Standing) : Ledger := Function.update L sid (some s)

/-- What an answer adds to the ledger. -/
def observe (L : Ledger) : AetherCall → AetherReply → Ledger
  | .invoke _, .response r =>
    match suspension uu r with
    | some (sid, id) => L.record sid (.awaiting id)
    | none => L
  | .resume req, .response r =>
    match suspension uu r with
    | some (sid, id) => L.record sid (.awaiting id)
    | none =>
      match req.target uu with
      | some (sid, id) =>
        if r.status = 200 then L.record sid .settled
        else if L sid = some (.awaiting id) then L.record sid .unclear
        else L
      | none => L
  | _, _ => L

def observeEntry (L : Ledger) (e : AetherEntry) : Ledger :=
  match e.result with
  | .ok reply => L.observe uu e.call reply
  | .error e => e.elim

/-- The ledger after a history. -/
def ofPast (past : List AetherEntry) : Ledger := past.foldl (observeEntry uu) fun _ => none

end Ledger

/-- Other callers leave the sessions of the ledger alone. -/
def AetherCall.Apart (env : Env) (L : Ledger) (w : World) : AetherCall → Prop
  | .api call => ∀ sid s, L sid = some s → call.Spares env w sid
  | _ => True

/-- The ledger is right about the world. -/
structure Ledger.Right (L : Ledger) (w : World) : Prop where
  numbered : w.Numbered
  drawn : ∀ sid s, L sid = some s → sid < w.nextUuid
  awaiting : ∀ sid id, L sid = some (.awaiting id) → Waits w sid id
  settled : ∀ sid l, L sid = some .settled → w.life sid = some l → l.pending = none

variable {agent : Agent} {uu : UuidTexts} {env : Env} {w w' : World} {L : Ledger} {sid : SessionId}

/-! ### Entries -/

/-- The entry of a call whose program is known. -/
theorem Agent.aetherEntry_eq {α : Type} {call : AetherCall} {p : M Empty α} {f : α → AetherReply}
    (hp : agent.aetherProgram uu call = p >>= fun a => .ret (f a)) {a : α} {c' : Config Reply World}
    (h : p.run (handle env) ⟨w, []⟩ = (.ok a, c')) :
    agent.aetherEntry env uu w call = ⟨call, w, c'.trace, .ok (f a), c'.state⟩ := by
  simp only [aetherEntry, History.entry, Prog.asked, hp, Prog.run_bind_ret, h]
  rfl

theorem aetherInvoke_entry (agent : Agent) (uu : UuidTexts) (env : Env) (hw : w.Numbered) (envelope : Envelope) : ∃ r c',
    agent.aetherEntry env uu w (.invoke envelope) = ⟨.invoke envelope, w, c'.trace, .ok (.response r), c'.state⟩ ∧
      Invoked uu w.nextUuid ⟨w, []⟩ c' r ∧ LeftAlone w.nextUuid w c'.state ∧ w.nextUuid ≤ c'.state.nextUuid := by
  obtain ⟨r, hr, hinvoked, hspared⟩ := aetherInvoke_run agent uu env (c := ⟨w, []⟩) envelope hw
  exact ⟨r, _, Agent.aetherEntry_eq rfl (Prod.ext hr rfl), hinvoked, hspared,
    nextUuid_le ((Prog.only_true _).reaches ⟨w, []⟩)⟩

theorem aetherResume_entry (agent : Agent) (uu : UuidTexts) (env : Env) (hw : w.Numbered) {req : ResumeRequest} {id : ApprovalId}
    (htarget : req.target uu = some (sid, id)) : ∃ r c',
    agent.aetherEntry env uu w (.resume req) = ⟨.resume req, w, c'.trace, .ok (.response r), c'.state⟩ ∧
      Resumed agent uu env sid id (mapDecision req.decision) w c' r ∧ LeftAlone sid w c'.state ∧
      w.nextUuid ≤ c'.state.nextUuid := by
  obtain ⟨r, c', hrun, hresumed⟩ := aetherResume_run agent uu env htarget w
  have hreach := (aetherResume_only agent uu htarget).reaches (h := handle env) ⟨w, []⟩
  rw [hrun] at hreach
  exact ⟨r, c', Agent.aetherEntry_eq rfl hrun, hresumed, LeftAlone.of_call ⟨hw, fun _ _ => rfl⟩ hreach, nextUuid_le hreach⟩

/-- A request whose ids cannot be read is refused. -/
theorem aetherResume_unread (agent : Agent) (uu : UuidTexts) (env : Env) (w : World) {req : ResumeRequest}
    (htarget : req.target uu = none) : ∃ r, r.status ≠ 200 ∧ suspension uu r = none ∧
      agent.aetherEntry env uu w (.resume req) = ⟨.resume req, w, [], .ok (.response r), w⟩ := by
  suffices h : ∃ r : Response, r.status ≠ 200 ∧ suspension uu r = none ∧
      (aetherResume agent uu req).run (handle env) ⟨w, []⟩ = (.ok r, ⟨w, []⟩) by
    obtain ⟨r, hstatus, hr, hrun⟩ := h
    exact ⟨r, hstatus, hr, Agent.aetherEntry_eq rfl hrun⟩
  unfold aetherResume
  cases hsid : uu.parse req.sessionId with
  | none => exact ⟨_, show (400 : Nat) ≠ 200 by decide, suspension_errorBody .., rfl⟩
  | some sid =>
    cases hid : uu.parse req.approvalId with
    | none => exact ⟨_, show (400 : Nat) ≠ 200 by decide, suspension_errorBody .., rfl⟩
    | some id => simp [ResumeRequest.target, hsid, hid] at htarget

theorem aetherApi_entry (agent : Agent) (uu : UuidTexts) (env : Env) (w : World) (call : ApiCall) :
    ∃ r, agent.aetherEntry env uu w (.api call) = ⟨.api call, w, ((agent.program call).run (handle env) ⟨w, []⟩).2.trace,
      .ok (.api r), ((agent.program call).run (handle env) ⟨w, []⟩).2.state⟩ :=
  ⟨_, Agent.aetherEntry_eq rfl (Prog.run_attempt ..)⟩

/-! ### What the ledger says is right -/

/-- A session that exists has an id that was drawn. -/
theorem World.Numbered.drawn (hw : w.Numbered) {l : Life} (h : w.life sid = some l) : sid < w.nextUuid := by
  by_contra hge
  rw [World.life, hw sid (Nat.le_of_not_lt hge)] at h
  cases h

namespace Ledger

@[simp] theorem record_same (s : Standing) : L.record sid s sid = some s := Function.update_self ..

theorem record_other {sid' : SessionId} (s : Standing) (h : sid' ≠ sid) : L.record sid s sid' = L sid' :=
  Function.update_of_ne h ..

/-- A call that is about one session leaves the ledger right if it is right about this one. -/
theorem Right.of_spared {L' : Ledger} (h : L.Right w) (hs : LeftAlone sid w w') (hle : w.nextUuid ≤ w'.nextUuid)
    (hother : ∀ s, s ≠ sid → L' s = L s) (hdrawn : ∀ s, L' sid = some s → sid < w'.nextUuid)
    (hawaiting : ∀ id, L' sid = some (.awaiting id) → Waits w' sid id)
    (hsettled : ∀ l, L' sid = some .settled → w'.life sid = some l → l.pending = none) : L'.Right w' where
  numbered := hs.numbered
  drawn s st hst := by
    by_cases hne : s = sid
    · subst hne
      exact hdrawn st hst
    · rw [hother s hne] at hst
      exact Nat.lt_of_lt_of_le (h.drawn s st hst) hle
  awaiting s id hst := by
    by_cases hne : s = sid
    · subst hne
      exact hawaiting id hst
    · rw [hother s hne] at hst
      exact (h.awaiting s id hst).of_life (hs.others s hne)
  settled s l hst hl := by
    by_cases hne : s = sid
    · subst hne
      exact hsettled l hst hl
    · rw [hother s hne] at hst
      rw [hs.others s hne] at hl
      exact h.settled s l hst hl

/-- The ledger of a session that is neither settled nor awaits another approval than `id`. -/
theorem Right.of_pending (h : L.Right w) {id : ApprovalId} (hp : Expects w sid id) {s : Standing} (hs : L sid = some s) :
    s = .awaiting id ∨ s = .unclear := by
  cases s with
  | awaiting id' => exact .inl (by rw [(h.awaiting sid id' hs).unique hp])
  | settled =>
    obtain ⟨l, state, _, hl, hpending, -⟩ := hp
    rw [h.settled sid l hs hl] at hpending
    cases hpending
  | unclear => exact .inr rfl

theorem observe_silent {req : ResumeRequest} {r : Response} {id : ApprovalId} (htarget : req.target uu = some (sid, id))
    (hr : suspension uu r = none) (hstatus : r.status ≠ 200) : L.observe uu (.resume req) (.response r) =
      if L sid = some (.awaiting id) then L.record sid .unclear else L := by
  simp [observe, hr, htarget, hstatus]

/-- A session is recorded as awaiting what it awaits. -/
theorem Right.suspended (h : L.Right w) (hs : LeftAlone sid w w') (hle : w.nextUuid ≤ w'.nextUuid) {i : HitlInterrupt}
    {kind : InterruptKind} {skillCtx : Option SkillContext}
    (hl : w'.life sid = some ⟨.interrupted, some (.ofValue (Agent.interruptedState i kind skillCtx))⟩) :
    (L.record sid (.awaiting i.approvalId)).Right w' := by
  refine h.of_spared hs hle (fun s hs => record_other _ hs) (fun s _ => hs.numbered.drawn hl) (fun id hid => ?_)
    fun l hid _ => ?_
  · rw [record_same] at hid
    cases hid
    exact ⟨i, kind, ⟨skillCtx, hl⟩, rfl⟩
  · rw [record_same] at hid
    cases hid

/-- A request to resume that fails. -/
theorem Right.failed (h : L.Right w) (hs : LeftAlone sid w w') (hle : w.nextUuid ≤ w'.nextUuid) {req : ResumeRequest}
    {id : ApprovalId} (htarget : req.target uu = some (sid, id)) {r : Response} (hr : suspension uu r = none)
    (hstatus : r.status ≠ 200)
    (hleft : ∀ s, L sid = some s → s = .awaiting id ∨ s = .unclear ∨ w'.life sid = w.life sid) :
    (L.observe uu (.resume req) (.response r)).Right w' := by
  rw [observe_silent htarget hr hstatus]
  split
  · rename_i hawaiting
    refine h.of_spared hs hle (fun s hne => record_other _ hne)
      (fun _ _ => Nat.lt_of_lt_of_le (h.drawn sid _ hawaiting) hle) (fun id' hid => ?_) fun l hid _ => ?_
    · rw [record_same] at hid
      cases hid
    · rw [record_same] at hid
      cases hid
  · rename_i hnot
    refine h.of_spared hs hle (fun _ _ => rfl) (fun s hst => Nat.lt_of_lt_of_le (h.drawn sid s hst) hle)
      (fun id' hst => ?_) fun l hst hl => ?_
    · rcases hleft _ hst with heq | heq | hlife
      · cases heq
        exact absurd hst hnot
      · cases heq
      · exact (h.awaiting sid id' hst).of_life hlife
    · rcases hleft _ hst with heq | heq | hlife
      · cases heq
      · cases heq
      · exact h.settled sid l hst (by rwa [← hlife])

/-- One request to resume. -/
theorem Right.resumed (h : L.Right w) {c' : Config Reply World} {req : ResumeRequest} {id : ApprovalId}
    (htarget : req.target uu = some (sid, id)) {r : Response} {decision : ApprovalDecision}
    (hresumed : Resumed agent uu env sid id decision w c' r) (hs : LeftAlone sid w c'.state)
    (hle : w.nextUuid ≤ c'.state.nextUuid) : (L.observe uu (.resume req) (.response r)).Right c'.state := by
  cases hresumed with
  | refused hstatus hr hl _ _ => exact h.failed hs hle htarget hr hstatus fun s _ => .inr (.inr hl)
  | halfway hstatus hr hpending _ =>
    exact h.failed hs hle htarget hr hstatus fun s hst => (h.of_pending hpending hst).imp_right .inl
  | acted hpending _ _ _ _ hacted =>
    cases hacted with
    | failed hstatus hr _ =>
      exact h.failed hs hle htarget hr hstatus fun s hst => (h.of_pending hpending hst).imp_right .inl
    | told hstatus htold =>
      cases htold with
      | @suspended i _ _ hl hr =>
        have hobserve : L.observe uu (.resume req) (.response r) = L.record sid (.awaiting i.approvalId) := by
          simp [observe, hr]
        rw [hobserve]
        exact h.suspended hs hle hl
      | ended hr hl _ =>
        have hobserve : L.observe uu (.resume req) (.response r) = L.record sid .settled := by
          simp [observe, hr, htarget, hstatus]
        obtain ⟨status, hl⟩ := hl
        rw [hobserve]
        refine h.of_spared hs hle (fun s hne => record_other _ hne) (fun _ _ => hs.numbered.drawn hl) (fun id' hid => ?_)
          fun l _ hl' => ?_
        · rw [record_same] at hid
          cases hid
        · rw [Option.some.inj (hl'.symm.trans hl)]

/-- One call of a history. -/
theorem Right.next (agent : Agent) (uu : UuidTexts) (h : L.Right w) (call : AetherCall) (hapart : call.Apart env L w) :
    (L.observeEntry uu (agent.aetherEntry env uu w call)).Right (agent.aetherEntry env uu w call).after := by
  cases call with
  | api call =>
    obtain ⟨r, hentry⟩ := aetherApi_entry agent uu env w call
    rw [hentry]
    have hkept : ∀ s st, L s = some st →
        ((agent.program call).run (handle env) ⟨w, []⟩).2.state.life s = w.life s :=
      fun s st hst => agent.program_spares (h.drawn s st hst) (hapart s st hst)
    exact {
      numbered := agent.program_numbered env call h.numbered
      drawn := fun s st hst =>
        Nat.lt_of_lt_of_le (h.drawn s st hst) (nextUuid_le ((Prog.only_true (agent.program call)).reaches ⟨w, []⟩))
      awaiting := fun s id hst => by
        exact (h.awaiting s id hst).of_life (hkept s _ hst)
      settled := fun s l hst hl => h.settled s l hst (by rwa [← hkept s _ hst]) }
  | invoke envelope =>
    obtain ⟨r, c', hentry, hinvoked, hspared, hle⟩ := aetherInvoke_entry agent uu env h.numbered envelope
    rw [hentry]
    show (L.observe uu (.invoke envelope) (.response r)).Right c'.state
    cases hinvoked with
    | @suspended i _ _ hl hr =>
      have hobserve : L.observe uu (.invoke envelope) (.response r) = L.record w.nextUuid (.awaiting i.approvalId) := by
        simp [observe, hr]
      rw [hobserve]
      exact h.suspended hspared hle hl
    | quiet hr _ =>
      have hobserve : L.observe uu (.invoke envelope) (.response r) = L := by simp [observe, hr]
      -- The session is new, so that the ledger does not have it.
      have hnew : ∀ s, L w.nextUuid ≠ some s := fun s hs => absurd (h.drawn _ s hs) (Nat.lt_irrefl _)
      rw [hobserve]
      exact h.of_spared hspared hle (fun _ _ => rfl) (fun s hs => absurd hs (hnew s)) (fun id hs => absurd hs (hnew _))
        fun l hs => absurd hs (hnew _)
  | resume req =>
    cases htarget : req.target uu with
    | none =>
      obtain ⟨r, hstatus, hr, hentry⟩ := aetherResume_unread agent uu env w htarget
      have hobserve : L.observe uu (.resume req) (.response r) = L := by simp [observe, hr, htarget]
      rw [hentry]
      show (L.observe uu (.resume req) (.response r)).Right w
      rwa [hobserve]
    | some target =>
      obtain ⟨sid, id⟩ := target
      obtain ⟨r, c', hentry, hresumed, hspared, hle⟩ := aetherResume_entry agent uu env h.numbered htarget
      rw [hentry]
      exact h.resumed htarget hresumed hspared hle

theorem ofPast_concat (past : List AetherEntry) (e : AetherEntry) :
    ofPast uu (past ++ [e]) = (ofPast uu past).observeEntry uu e := List.foldl_concat ..

end Ledger

/-- The other calls of a history leave the sessions of the ledger alone. -/
def KeepsApart (uu : UuidTexts) (env : Env) (H : AetherHistory) (e : AetherEntry) : Prop :=
  e.call.Apart env (Ledger.ofPast uu H.past) e.before

/-- The ledger of a history from nothing is right. -/
theorem ledger_right (agent : Agent) (uu : UuidTexts) (env : Env) (skills : SkillRegistry) (clock : Nat)
    {cs : List AetherCall} (hc : History.Conforms (handle env) (agent.aetherProgram uu) (KeepsApart uu env)
      ⟨[], World.fresh skills clock⟩ cs) :
    (Ledger.ofPast uu (agent.serveAether env uu ⟨[], World.fresh skills clock⟩ cs).past).Right
      (agent.serveAether env uu ⟨[], World.fresh skills clock⟩ cs).state := by
  refine History.invariant (I := fun H : AetherHistory => (Ledger.ofPast uu H.past).Right H.state)
    (fun H call hH hC => ?_) ?_ hc
  · have hnext := Ledger.Right.next agent uu hH call hC
    rwa [← Ledger.ofPast_concat] at hnext
  · exact ⟨fun _ _ => rfl, fun _ _ h => (nomatch h), fun _ _ h => (nomatch h), fun _ _ h => (nomatch h)⟩

/-! ### What requests to resume do -/

/-- The decision of a request takes effect, on a session whose interrupt was consumed, and this is what is answered. -/
def LetThrough (agent : Agent) (uu : UuidTexts) (env : Env) (w : World) (sid : SessionId) (id : ApprovalId)
    (decision : ApprovalDecision) (run : Except Empty Response × Config Reply World) : Prop :=
  ∃ owner resolved c₁, resolved.state.approvalId = id ∧ Reaches (handle env) (Request.OfCall sid) ⟨w, []⟩ c₁ ∧
    c₁.state.life sid = some ⟨.active, none⟩ ∧
    run = (actAndAnswer agent uu owner sid resolved decision).run (handle env) c₁

/-- The answer is an error, the interrupt of the session is as it was, and no tool was started. -/
def TurnedDown (uu : UuidTexts) (w : World) (sid : SessionId) (run : Except Empty Response × Config Reply World) : Prop :=
  ∃ r c', run = (.ok r, c') ∧ r.status ≠ 200 ∧ suspension uu r = none ∧ c'.state.life sid = w.life sid ∧
    ∀ x ∈ c'.trace, x.1.dispatch? = none

/-- A request to resume with an approval that is not pending is turned down. -/
theorem turnedDown_of_not_pending (agent : Agent) (env : Env) {req : ResumeRequest} {id : ApprovalId}
    (htarget : req.target uu = some (sid, id)) (hnot : ¬ Expects w sid id) :
    TurnedDown uu w sid ((aetherResume agent uu req).run (handle env) ⟨w, []⟩) := by
  obtain ⟨r, c', hrun, hresumed⟩ := aetherResume_run agent uu env htarget w
  cases hresumed with
  | refused hstatus hr hl hquiet _ => exact ⟨r, c', hrun, hstatus, hr, hl, hquiet⟩
  | halfway _ _ hpending _ => exact absurd hpending hnot
  | acted hpending => exact absurd hpending hnot

theorem letThrough_of_pending (agent : Agent) (env : Env) {req : ResumeRequest} {id : ApprovalId}
    (htarget : req.target uu = some (sid, id)) (hp : Expects w sid id)
    (hans : Answered ⟨w, []⟩ ((aetherResume agent uu req).run (handle env) ⟨w, []⟩).2) :
    LetThrough agent uu env w sid id (mapDecision req.decision) ((aetherResume agent uu req).run (handle env) ⟨w, []⟩) := by
  obtain ⟨r, c', hrun, hresumed⟩ := aetherResume_run agent uu env htarget w
  rw [hrun] at hans ⊢
  cases hresumed with
  | refused _ _ _ _ hnot => exact absurd hp (hnot hans)
  | halfway _ _ _ hnot => exact absurd hans hnot
  | @acted owner resolved c₁ _ hid hreach hl hrun' _ => exact ⟨owner, resolved, c₁, hid, hreach, hl, hrun'.symm⟩

/-- What an orchestrator can rely on. -/
structure Ledger.Sound (agent : Agent) (uu : UuidTexts) (env : Env) (L : Ledger) (w : World) : Prop where
  awaits : ∀ sid id, L sid = some (.awaiting id) → w.awaits sid id
  settled : ∀ sid l, L sid = some .settled → w.life sid = some l → l.pending = none
  /-- The awaited approval is let through if the interrupt is read back, as long as the database works. -/
  lets : ∀ sid id req, L sid = some (.awaiting id) → Shallow w sid → req.target uu = some (sid, id) →
    Answered ⟨w, []⟩ ((aetherResume agent uu req).run (handle env) ⟨w, []⟩).2 →
    LetThrough agent uu env w sid id (mapDecision req.decision) ((aetherResume agent uu req).run (handle env) ⟨w, []⟩)
  /-- Where it is not read back, no approval is. -/
  bars : ∀ sid id req, ¬ Shallow w sid → req.target uu = some (sid, id) →
    TurnedDown uu w sid ((aetherResume agent uu req).run (handle env) ⟨w, []⟩)
  /-- Any other one, and any after the end, is not. -/
  refuses : ∀ sid id req s, L sid = some s → s ≠ .awaiting id → s ≠ .unclear → req.target uu = some (sid, id) →
    TurnedDown uu w sid ((aetherResume agent uu req).run (handle env) ⟨w, []⟩)

/-- After every history from nothing in which the other callers leave the sessions of the ledger alone, a session awaits
the approval that the ledger says, which a request to resume is let through with if the interrupt is read back, and no
other. -/
theorem ledger_sound (agent : Agent) (uu : UuidTexts) (env : Env) (skills : SkillRegistry) (clock : Nat)
    (cs : List AetherCall) (hc : History.Conforms (handle env) (agent.aetherProgram uu) (KeepsApart uu env)
      ⟨[], World.fresh skills clock⟩ cs) :
    (Ledger.ofPast uu (agent.serveAether env uu ⟨[], World.fresh skills clock⟩ cs).past).Sound agent uu env
      (agent.serveAether env uu ⟨[], World.fresh skills clock⟩ cs).state := by
  have hright := ledger_right agent uu env skills clock hc
  refine ⟨fun sid id hs => ?_, hright.settled, fun sid id req hs hshallow htarget => ?_, fun sid id req hdeep htarget => ?_,
    fun sid id req s hs hne hclear htarget => ?_⟩
  · obtain ⟨i, kind, ⟨skillCtx, hl⟩, hid⟩ := hright.awaiting sid id hs
    exact World.awaits_iff.mpr ⟨_, hl, (Agent.approvalId_interruptedState i kind skillCtx).trans hid⟩
  · exact letThrough_of_pending agent env htarget ((hright.awaiting sid id hs).expects hshallow)
  · exact turnedDown_of_not_pending agent env htarget fun hp => hdeep hp.shallow
  · refine turnedDown_of_not_pending agent env htarget fun hp => ?_
    exact (hright.of_pending hp hs).elim hne hclear

/-- A request to delete something. -/
def Envelope.delete : Envelope := ⟨7, .invoke, .object (.cons "input" (.string "delete it") .nil), .empty⟩

/-- The approval of the first interrupt of the first session. -/
def ResumeRequest.approve : ResumeRequest :=
  ⟨UuidTexts.unary.print 0, UuidTexts.unary.print 1, .approved⟩

/-- A tool on the blocklist suspends a session, and the ledger names its approval. -/
theorem ledger_sound_delete :
    Ledger.ofPast .unary (Agent.plain.serveAether (.asksFor ["file_delete"]) .unary ⟨[], World.fresh ⟨[]⟩ 0⟩
      [.invoke .delete]).past 0 = some (.awaiting 1) ∧
    (Ledger.ofPast .unary (Agent.plain.serveAether (.asksFor ["file_delete"]) .unary ⟨[], World.fresh ⟨[]⟩ 0⟩
      [.invoke .delete]).past).Sound .plain .unary (.asksFor ["file_delete"])
      (Agent.plain.serveAether (.asksFor ["file_delete"]) .unary ⟨[], World.fresh ⟨[]⟩ 0⟩ [.invoke .delete]).state :=
  ⟨by decide +kernel, ledger_sound .plain .unary (.asksFor ["file_delete"]) ⟨[]⟩ 0 [.invoke .delete] ⟨trivial, trivial⟩⟩

end AgentVerse
