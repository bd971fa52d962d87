import AgentVerse.Http.Conversations

/-!
# Accounting for all sessions

Where the database works and nobody else opens sessions, the ledger of the orchestrator accounts for all of them. The
sessions that are never ended are those of which a resume was let through and failed, and those whose interrupt nests too
deep to be read back (`ledger_complete`): nothing ends a session on that way.
-/

namespace AgentVerse

open Effects SessionRoutes Aether

variable {agent : Agent} {uu : UuidTexts} {env : Env} {w w' : World} {L : Ledger} {sid : SessionId}

/-- A call of the orchestrator, or one that has nothing to do with sessions. -/
def AetherCall.Alone : AetherCall → Prop
  | .api (.resolve ..) | .api .sweepExpired | .api (.checkTool ..) | .api (.invokeStateless _) => True
  | .api _ => False
  | _ => True

/-- Nobody else uses the sessions, and the database refuses nothing. -/
def Exclusive (e : AetherEntry) : Prop := e.call.Alone ∧ ∀ x ∈ e.asked, refusedStatement x = false

/-- What the ledger says of a session is all there is to it. -/
def Tells (w : World) (sid : SessionId) : Option Standing → Prop
  | none => ∀ l, w.life sid = some l → l = ⟨.completed, none⟩
  | some (.awaiting id) => Waits w sid id
  | some .settled => w.life sid = some ⟨.completed, none⟩
  | some .unclear => w.life sid = some ⟨.active, none⟩ ∨ ∃ i kind, Suspended w sid i kind ∧ ¬ ReadsBack i kind

theorem Tells.of_life {s : Option Standing} (h : Tells w sid s) (hlife : w'.life sid = w.life sid) : Tells w' sid s := by
  unfold Tells Waits Suspended at h ⊢
  rwa [hlife]

/-- The ledger accounts for all sessions: those it does not know or knows to be settled are completed, and those it is
unclear about are open with nothing pending, or stuck with an interrupt that is not read back. -/
structure Ledger.Accounts (L : Ledger) (w : World) : Prop where
  numbered : w.Numbered
  all : ∀ sid, Tells w sid (L sid)

theorem Agent.program_alone (agent : Agent) {call : ApiCall} (h : (AetherCall.api call).Alone) :
    (agent.program call).Only fun q => ∀ st, q ≠ .sql st := by
  have hstrategy : ∀ {q : Request}, q.OfStrategy → ∀ st, q ≠ .sql st := by
    rintro _ hq st rfl
    exact hq
  cases call with
  | resolve id decision => exact Prog.Only.bind (request_only fun _ h => by cases h) fun _ => trivial
  | sweepExpired => exact Prog.Only.bind (request_only fun _ h => by cases h) fun _ => trivial
  | checkTool ctx name args =>
    refine Prog.Only.bind (infallible_any (Prog.Meets.mono (checkTool_meets (W := fun _ => False) ctx name args)
      (fun _ _ h => h) (fun _ h => hstrategy h.1) fun _ _ => trivial)) fun _ => trivial
  | invokeStateless input =>
    exact Prog.Only.bind (Prog.Only.mono (agent.invokeStateless_only input) fun _ h => hstrategy h) fun _ => trivial
  | _ => exact h.elim

namespace Ledger

/-- A session that is still to be created is not in the ledger. -/
theorem Accounts.new (h : L.Accounts w) : L w.nextUuid = none := by
  have hsid := h.all w.nextUuid
  have hnone : w.life w.nextUuid = none := by rw [World.life, h.numbered _ (Nat.le_refl _)]; rfl
  cases hs : L w.nextUuid with
  | none => rfl
  | some s =>
    rw [hs] at hsid
    cases s with
    | awaiting id =>
      obtain ⟨_, _, ⟨_, hl⟩, -⟩ := hsid
      rw [hnone] at hl
      cases hl
    | settled =>
      have hl : w.life w.nextUuid = some _ := hsid
      rw [hnone] at hl
      cases hl
    | unclear =>
      rcases hsid with hl | ⟨_, _, ⟨_, hl⟩, -⟩
      · rw [hnone] at hl
        cases hl
      · rw [hnone] at hl
        cases hl

/-- Only sessions that the ledger knows to await an approval have one pending. -/
theorem Accounts.pending (h : L.Accounts w) {id : ApprovalId} (hp : Expects w sid id) : L sid = some (.awaiting id) := by
  have hsid := h.all sid
  have hopen : ∀ status, w.life sid ≠ some ⟨status, none⟩ := by
    obtain ⟨l, state, _, hl, hpending, -⟩ := hp
    rintro status hlife
    obtain rfl := Option.some.inj (hl.symm.trans hlife)
    cases hpending
  cases hs : L sid with
  | none =>
    rw [hs] at hsid
    obtain ⟨l, _, _, hl, -⟩ := hp
    rw [hsid l hl] at hl
    exact absurd hl (hopen _)
  | some s =>
    rw [hs] at hsid
    cases s with
    | awaiting id' =>
      have hwaits : Waits w sid id' := hsid
      rw [hwaits.unique hp]
    | settled => exact absurd hsid (hopen _)
    | unclear =>
      rcases hsid with hsid | ⟨i, kind, hs, hdeep⟩
      · exact absurd hsid (hopen _)
      · exact absurd (hp.shallow i kind hs) hdeep

/-- A call that is about one session keeps the account if it keeps that of this one. -/
theorem Accounts.of_spared {L' : Ledger} (h : L.Accounts w) (hs : LeftAlone sid w w') (hother : ∀ s, s ≠ sid → L' s = L s)
    (hsid : Tells w' sid (L' sid)) : L'.Accounts w' := by
  refine ⟨hs.numbered, fun s => ?_⟩
  by_cases hne : s = sid
  · rwa [hne]
  · rw [hother s hne]
    exact (h.all s).of_life (hs.others s hne)

theorem Accounts.record (h : L.Accounts w) (hs : LeftAlone sid w w') {s : Standing} (hsid : Tells w' sid (some s)) :
    (L.record sid s).Accounts w' :=
  h.of_spared hs (fun _ hne => record_other s hne) (by rwa [record_same])

/-- One request to resume. -/
theorem Accounts.resumed (h : L.Accounts w) {c' : Config Reply World} {req : ResumeRequest} {id : ApprovalId}
    (htarget : req.target uu = some (sid, id)) {r : Response} {decision : ApprovalDecision}
    (hresumed : Resumed agent uu env sid id decision w c' r) (hs : LeftAlone sid w c'.state)
    (hans : Answered ⟨w, []⟩ c') : (L.observe uu (.resume req) (.response r)).Accounts c'.state := by
  cases hresumed with
  | refused hstatus hr hl _ hnot =>
    rw [observe_silent htarget hr hstatus]
    by_cases hawaits : L sid = some (.awaiting id)
    · -- What is awaited, but not let through, is not read back.
      have hold := h.all sid
      rw [hawaits] at hold
      obtain ⟨i, kind, ⟨skillCtx, hsusp⟩, rfl⟩ := hold
      rw [if_pos hawaits]
      exact h.record hs (.inr ⟨i, kind, ⟨skillCtx, hl.trans hsusp⟩,
        fun hreads => hnot hans (Suspended.expects_iff ⟨skillCtx, hsusp⟩ |>.mpr ⟨hreads, rfl⟩)⟩)
    · rw [if_neg hawaits]
      exact h.of_spared hs (fun _ _ => rfl) ((h.all sid).of_life hl)
  | halfway _ _ _ hnot => exact absurd hans hnot
  | acted hpending _ _ _ _ hacted =>
    cases hacted with
    | failed hstatus hr hopen =>
      rw [observe_silent htarget hr hstatus, if_pos (h.pending hpending)]
      exact h.record hs (.inl (hopen hans))
    | told hstatus htold =>
      cases htold with
      | @suspended i kind skillCtx hl hr =>
        have hobserve : L.observe uu (.resume req) (.response r) = L.record sid (.awaiting i.approvalId) := by
          simp [observe, hr]
        rw [hobserve]
        exact h.record hs ⟨i, kind, ⟨skillCtx, hl⟩, rfl⟩
      | ended hr _ hdone =>
        have hobserve : L.observe uu (.resume req) (.response r) = L.record sid .settled := by
          simp [observe, hr, htarget, hstatus]
        rw [hobserve]
        exact h.record hs (hdone hans)

/-- One call of a history. -/
theorem Accounts.next (agent : Agent) (uu : UuidTexts) (h : L.Accounts w) (call : AetherCall)
    (hexclusive : Exclusive (agent.aetherEntry env uu w call)) :
    (L.observeEntry uu (agent.aetherEntry env uu w call)).Accounts (agent.aetherEntry env uu w call).after := by
  obtain ⟨halone, hasked⟩ := hexclusive
  have hanswered : ∀ {c' : Config Reply World}, (agent.aetherEntry env uu w call).asked = c'.trace →
      Answered ⟨w, []⟩ c' := fun htrace => ⟨_, rfl, fun x hx => hasked x (by rwa [htrace])⟩
  cases call with
  | api call =>
    obtain ⟨r, hentry⟩ := aetherApi_entry agent uu env w call
    rw [hentry] at halone ⊢
    have hstore := ((agent.program_alone halone).reaches (h := handle env) ⟨w, []⟩).frame (·.store)
      fun q w' hq => handle_store hq
    exact ⟨agent.program_numbered env call h.numbered, fun sid => (h.all sid).of_life (by rw [World.life, hstore]; rfl)⟩
  | invoke envelope =>
    obtain ⟨r, c', hentry, hinvoked, hspared, _⟩ := aetherInvoke_entry agent uu env h.numbered envelope
    have hans : Answered ⟨w, []⟩ c' := hanswered (by rw [hentry])
    rw [hentry]
    show (L.observe uu (.invoke envelope) (.response r)).Accounts c'.state
    cases hinvoked with
    | @suspended i kind skillCtx hl hr =>
      have hobserve : L.observe uu (.invoke envelope) (.response r) = L.record w.nextUuid (.awaiting i.approvalId) := by
        simp [observe, hr]
      rw [hobserve]
      exact h.record hspared ⟨i, kind, ⟨skillCtx, hl⟩, rfl⟩
    | quiet hr hdone =>
      have hobserve : L.observe uu (.invoke envelope) (.response r) = L := by simp [observe, hr]
      rw [hobserve]
      refine h.of_spared hspared (fun _ _ => rfl) ?_
      rw [h.new]
      exact hdone hans
  | resume req =>
    cases htarget : req.target uu with
    | none =>
      obtain ⟨r, hstatus, hr, hentry⟩ := aetherResume_unread agent uu env w htarget
      have hobserve : L.observe uu (.resume req) (.response r) = L := by simp [observe, hr, htarget]
      rw [hentry]
      show (L.observe uu (.resume req) (.response r)).Accounts w
      rwa [hobserve]
    | some target =>
      obtain ⟨sid, id⟩ := target
      obtain ⟨r, c', hentry, hresumed, hspared, _⟩ := aetherResume_entry agent uu env h.numbered htarget
      have hans : Answered ⟨w, []⟩ c' := hanswered (by rw [hentry])
      rw [hentry]
      exact h.resumed htarget hresumed hspared hans

end Ledger

/-- A model that asks for a deletion and fails once it was made. -/
def Env.failsAfter : Env :=
  { Env.asksFor ["file_delete"] with
    generate := fun _ _ req =>
      if req.messages.length ≤ 1 then .ok (.ofCalls ["file_delete"]) else .error (.apiError "overloaded") }

end AgentVerse
