import AgentVerse.Session.Store

/-!
# Statements

The SQL statements that the session store sends to its database, as data, with their results and their effect on
the tables.
-/

namespace AgentVerse

inductive Statement where
  | insertSession (row : SessionRow)
  | selectSession (sid : SessionId)
  | updateStatus (sid : SessionId) (status : SessionStatus) (now : Int)
  | selectByUser (userId : String)
  | appendMessages (sid : SessionId) (ms : List Message) (now : Int)
  | selectMessages (sid : SessionId)
  | selectWatermark (sid : SessionId)
  | updateWatermark (sid : SessionId) (wm : Int)
  | selectMessagesAbove (sid : SessionId) (wm : Int)
  | selectNeedingMaintenance (now : Int)
  | deleteExpired (sid : SessionId) (cutoff wm : Int)
  | deleteEndedSessions (cutoff : Int)
  | deleteSession (sid : SessionId)
  | updateSkillContext (sid : SessionId) (ctx : Option (JsonText SkillContext))
  | selectSkillContext (sid : SessionId)
  | updatePhaseOpening (sid : SessionId) (ctx : Option String)
  | selectPhaseOpening (sid : SessionId)
  | updatePhaseTransition (sid : SessionId) (ctx : JsonText SkillContext) (phaseCtx : String)
  | updateInterruptedState (sid : SessionId) (state : Option (JsonText InterruptedState))
  | selectInterruptedState (sid : SessionId)
  deriving DecidableEq

namespace Statement

/-- What a statement returns: rows, or the number of rows affected. A deletion of messages returns the rows it
deletes; the code counts them. -/
@[reducible] def Result : Statement → Type
  | insertSession _ => Unit
  | selectSession _ => Option Session
  | updateStatus .. => Nat
  | selectByUser _ => List Session
  | appendMessages .. => Unit
  | selectMessages _ => List Message
  | selectWatermark _ => Int
  | updateWatermark .. => Nat
  | selectMessagesAbove .. => List MessageRow
  | selectNeedingMaintenance _ => List Session
  | deleteExpired .. => List MessageRow
  | deleteEndedSessions _ => Nat
  | deleteSession _ => Unit
  | updateSkillContext .. => Nat
  | selectSkillContext _ => Option (Option (JsonText SkillContext))
  | updatePhaseOpening .. => Nat
  | selectPhaseOpening _ => Option (Option String)
  | updatePhaseTransition .. => Nat
  | updateInterruptedState .. => Nat
  | selectInterruptedState _ => Option (Option (JsonText InterruptedState))

/-- Statements that write. -/
def writes : Statement → Bool
  | selectSession _ | selectByUser _ | selectMessages _ | selectWatermark _ | selectMessagesAbove ..
  | selectNeedingMaintenance _ | selectSkillContext _ | selectPhaseOpening _ | selectInterruptedState _ => false
  | _ => true

/-- The effect of a statement that the database executes. -/
def exec (s : Store) : (st : Statement) → Except String st.Result × Store
  | insertSession row => s.insertSession row
  | selectSession sid => (.ok ((s.row? sid).map (·.toSession)), s)
  | updateStatus sid status now =>
    let r := s.updateSession sid fun row => { row with status := status, updatedAt := now }
    (.ok r.1, r.2)
  | selectByUser userId => (.ok (s.sessionsOf userId), s)
  | appendMessages sid ms now => s.appendMessages sid ms now
  | selectMessages sid => (.ok ((Store.bySequence (s.rows sid)).map (·.message)), s)
  | selectWatermark sid =>
    match s.row? sid with
    | some row => (.ok row.consolidationWatermark, s)
    | none => (.error "no rows returned by a query that expected to return at least one row", s)
  | updateWatermark sid wm =>
    let r := s.updateSession sid fun row =>
      { row with consolidationWatermark := max row.consolidationWatermark wm }
    (.ok r.1, r.2)
  | selectMessagesAbove sid wm => (.ok (s.messagesAbove sid wm), s)
  | selectNeedingMaintenance now => (.ok (s.sessionsNeedingMaintenance now), s)
  | deleteExpired sid cutoff wm =>
    let r := s.deleteExpired sid cutoff wm
    (.ok r.1, r.2)
  | deleteEndedSessions cutoff =>
    let r := s.deleteSessions (Store.endedBefore cutoff)
    (.ok r.1, r.2)
  | deleteSession sid => (.ok (), (s.deleteSessions fun r => r.id = sid).2)
  | updateSkillContext sid ctx =>
    let r := s.updateSession sid fun row => { row with skillContextJson := ctx }
    (.ok r.1, r.2)
  | selectSkillContext sid => (.ok ((s.row? sid).map (·.skillContextJson)), s)
  | updatePhaseOpening sid ctx =>
    let r := s.updateSession sid fun row => { row with phaseOpeningContext := ctx }
    (.ok r.1, r.2)
  | selectPhaseOpening sid => (.ok ((s.row? sid).map (·.phaseOpeningContext)), s)
  | updatePhaseTransition sid ctx phaseCtx =>
    let r := s.updateSession sid fun row =>
      { row with skillContextJson := some ctx, phaseOpeningContext := some phaseCtx }
    (.ok r.1, r.2)
  | updateInterruptedState sid state =>
    let r := s.updateSession sid fun row => { row with interruptedState := state }
    (.ok r.1, r.2)
  | selectInterruptedState sid => (.ok ((s.row? sid).map (·.interruptedState)), s)

/-- The update that a statement makes to the row of a session, for the statements that make one. -/
def update? : Statement → Option (SessionId × (SessionRow → SessionRow))
  | updateStatus sid status now => some (sid, fun row => { row with status := status, updatedAt := now })
  | updateWatermark sid wm =>
    some (sid, fun row => { row with consolidationWatermark := max row.consolidationWatermark wm })
  | updateSkillContext sid ctx => some (sid, fun row => { row with skillContextJson := ctx })
  | updatePhaseOpening sid ctx => some (sid, fun row => { row with phaseOpeningContext := ctx })
  | updatePhaseTransition sid ctx phaseCtx =>
    some (sid, fun row => { row with skillContextJson := some ctx, phaseOpeningContext := some phaseCtx })
  | updateInterruptedState sid state => some (sid, fun row => { row with interruptedState := state })
  | _ => none

/-- A statement leaves what `π` reads from the row of session `sid` as it is. -/
def Keeps {β : Type} (π : SessionRow → β) (sid : SessionId) (st : Statement) : Prop :=
  match st with
  | insertSession row => row.id ≠ sid
  | deleteEndedSessions _ => False
  | deleteSession s => s ≠ sid
  | st => ∀ s f, st.update? = some (s, f) → s = sid → ∀ row, π (f row) = π row

theorem exec_update {st : Statement} {s : Store} {sid : SessionId} {f : SessionRow → SessionRow}
    (h : st.update? = some (sid, f)) : (st.exec s).2 = (s.updateSession sid f).2 := by
  cases st <;> simp only [update?, Option.some.injEq, Prod.mk.injEq, reduceCtorEq] at h <;>
    (obtain ⟨rfl, rfl⟩ := h; rfl)

theorem update?_id {st : Statement} {sid : SessionId} {f : SessionRow → SessionRow}
    (h : st.update? = some (sid, f)) (row : SessionRow) : (f row).id = row.id := by
  cases st <;> simp only [update?, Option.some.injEq, Prod.mk.injEq, reduceCtorEq] at h <;>
    (obtain ⟨-, rfl⟩ := h; rfl)

/-- The frame rule of a single update. -/
private theorem row?_map_update {β : Type} {π : SessionRow → β} {sid sid' : SessionId} {s : Store}
    {f : SessionRow → SessionRow} (hid : ∀ r, (f r).id = r.id) (hf : sid' = sid → ∀ row, π (f row) = π row) :
    ((s.updateSession sid' f).2.row? sid).map π = (s.row? sid).map π := by
  by_cases hs : sid' = sid
  · subst hs
    rw [Store.row?_updateSession_same hid]
    cases s.row? sid' with
    | none => rfl
    | some row => simp [hf rfl row]
  · rw [Store.row?_updateSession_other hid (Ne.symm hs)]

/-- The frame rule of statements. -/
theorem Keeps.row {β : Type} {π : SessionRow → β} {sid : SessionId} {st : Statement} (h : st.Keeps π sid)
    (s : Store) : ((st.exec s).2.row? sid).map π = (s.row? sid).map π := by
  cases hu : st.update? with
  | some u =>
    rw [exec_update hu]
    refine row?_map_update (update?_id hu) (fun hs row => ?_)
    cases st <;> first | exact h _ _ hu hs row | exact absurd hu (by simp [update?])
  | none =>
    cases st with
    | insertSession row => simp only [exec]; rw [Store.row?_insertSession_other (Ne.symm h)]
    | deleteEndedSessions cutoff => exact h.elim
    | deleteSession s' =>
      simp only [exec]
      rw [Store.row?_deleteSessions]
      intro r hr
      simpa [Store.row?_id hr] using Ne.symm h
    | appendMessages s' ms now => simp only [exec, Store.row?_appendMessages]
    | selectWatermark s' => simp only [exec]; split <;> rfl
    | updateStatus | updateWatermark | updateSkillContext | updatePhaseOpening | updatePhaseTransition
    | updateInterruptedState => simp [update?] at hu
    | _ => rfl

end Statement

end AgentVerse
