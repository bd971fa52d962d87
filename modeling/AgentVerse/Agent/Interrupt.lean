import AgentVerse.Agent.Footprint
import AgentVerse.Agent.Sessions

/-!
# The two writes of an interrupt

Suspending a session and consuming its pending state both write two columns, one after the other: the interrupted
state first, then the status. Either write may fail, and nothing undoes the first one.
-/

namespace AgentVerse

open Effects

variable {env : Env} {c : Config Reply World}

namespace Request

/-- The requests of the two writes. -/
def OfWrites (sid : SessionId) (x : Option (JsonText InterruptedState)) (status : SessionStatus) : Request → Prop
  | .now => True
  | .sql (.updateInterruptedState s y) => s = sid ∧ y = x
  | .sql (.updateStatus s st _) => s = sid ∧ st = status
  | _ => False

theorem OfWrites.keeps {β : Type} {π : SessionRow → β} {sid sid' : SessionId}
    {x : Option (JsonText InterruptedState)} {status : SessionStatus} {q : Request} (hq : q.OfWrites sid x status)
    (hπ : sid = sid' → (∀ row, π { row with interruptedState := x } = π row) ∧
      ∀ row t, π { row with status := status, updatedAt := t } = π row) : q.Keeps π sid' := by
  cases q with
  | sql st =>
    cases st with
    | updateInterruptedState s y =>
      obtain ⟨rfl, rfl⟩ := hq
      intro s' f hf hs row
      simp only [Statement.update?, Option.some.injEq, Prod.mk.injEq] at hf
      obtain ⟨rfl, rfl⟩ := hf
      exact (hπ hs).1 row
    | updateStatus s st now =>
      obtain ⟨rfl, rfl⟩ := hq
      intro s' f hf hs row
      simp only [Statement.update?, Option.some.injEq, Prod.mk.injEq] at hf
      obtain ⟨rfl, rfl⟩ := hf
      exact (hπ hs).2 row now
    | _ => exact hq.elim
  | now => trivial
  | _ => exact hq.elim

theorem OfWrites.dispatch {sid : SessionId} {x : Option (JsonText InterruptedState)} {status : SessionStatus}
    {q : Request} (hq : q.OfWrites sid x status) : q.dispatch? = none := by
  cases q <;> first | rfl | exact hq.elim

end Request

/-- The two writes in a row. -/
def twoWrites (sid : SessionId) (x : Option (JsonText InterruptedState)) (status : SessionStatus) :
    M AgentError Unit := do
  sess (SessionMemory.setInterruptedState sid x)
  sess (SessionMemory.updateStatus sid status)

theorem persistInterrupt_eq (sid : SessionId) (state : InterruptedState) :
    Agent.persistInterrupt sid state = twoWrites sid (some (.ofValue state)) .interrupted := rfl

theorem resumeClear_eq (sid : SessionId) : Agent.resumeClear sid = twoWrites sid none .active := rfl

theorem twoWrites_only (sid : SessionId) (x : Option (JsonText InterruptedState)) (status : SessionStatus) :
    (twoWrites sid x status).Only (Request.OfWrites sid x status) :=
  Prog.Only.bind (Prog.Only.mapErr (SessionMemory.setInterruptedState_only ⟨rfl, rfl⟩)) fun _ =>
    Prog.Only.mapErr (SessionMemory.updateStatus_only trivial fun _ => ⟨rfl, rfl⟩)

/-- The configuration after both writes. -/
def afterWrites (env : Env) (sid : SessionId) (x : Option (JsonText InterruptedState)) (status : SessionStatus)
    (c : Config Reply World) : Config Reply World :=
  SessionMemory.afterStatus env sid status (c.after (handle env) (.sql (.updateInterruptedState sid x)))

/-- How the two writes end, in terms of the two columns. The first request writes the state and, after a reading of
the clock, the third one the status. -/
inductive WritesEnd (env : Env) (sid : SessionId) (x : Option (JsonText InterruptedState)) (status : SessionStatus)
    (c c' : Config Reply World) : Except AgentError Unit → Prop where
  /-- Both columns are written. -/
  | done {l : Life} (h₁ : env.storeError c.state.steps = none) (h₂ : env.storeError (c.state.steps + 2) = none)
      (hc : c' = afterWrites env sid x status c) (hb : c.state.life sid = some l)
      (ha : c'.state.life sid = some ⟨status, x⟩) : WritesEnd env sid x status c c' (.ok ())
  /-- The first write failed: nothing is written. -/
  | untouched {e : SessionMemoryError}
      (hf : (env.storeError c.state.steps ≠ none ∧ FailedWrite c c') ∨ c.state.life sid = none)
      (ha : c'.state.life sid = c.state.life sid) : WritesEnd env sid x status c c' (.error (.session e))
  /-- The second write failed: the first one stays. -/
  | halfway {e : SessionMemoryError} {l : Life} (h₁ : env.storeError c.state.steps = none)
      (h₂ : env.storeError (c.state.steps + 2) ≠ none) (hf : FailedWrite c c') (hb : c.state.life sid = some l)
      (ha : c'.state.life sid = some ⟨l.status, x⟩) : WritesEnd env sid x status c c' (.error (.session e))

theorem twoWrites_spec (env : Env) (sid : SessionId) (x : Option (JsonText InterruptedState))
    (status : SessionStatus) (c : Config Reply World) :
    WritesEnd env sid x status c ((twoWrites sid x status).run (handle env) c).2
      ((twoWrites sid x status).run (handle env) c).1 := by
  obtain ⟨hc₁, h₁⟩ := SessionMemory.setInterruptedState_spec env sid x c
  have hr₁ : Reaches (handle env) (fun _ => True) c (c.after (handle env) (.sql (.updateInterruptedState sid x))) :=
    .step trivial .refl
  unfold twoWrites
  rw [Prog.run_bind, sess, Prog.run_mapErr]
  rcases hrun₁ : (SessionMemory.setInterruptedState sid x).run (handle env) c with ⟨r₁, c₁⟩
  rw [hrun₁] at h₁ hc₁
  obtain rfl : c₁ = _ := hc₁
  rcases h₁ with ⟨rfl, hs₁, row, hb, ha₁⟩ | ⟨e, rfl, hf, hk⟩
  · obtain ⟨hc₂, h₂⟩ := SessionMemory.updateStatus_spec env sid status
      (c.after (handle env) (.sql (.updateInterruptedState sid x)))
    have hr₂ := (Prog.only_true (SessionMemory.updateStatus sid status)).reaches (h := handle env)
      (c.after (handle env) (.sql (.updateInterruptedState sid x)))
    have hsteps : (c.after (handle env) (.sql (.updateInterruptedState sid x))).state.steps = c.state.steps + 1 :=
      handle_steps _ _
    simp only [Except.mapError, sess, Prog.run_mapErr]
    rcases hrun₂ : (SessionMemory.updateStatus sid status).run (handle env)
      (c.after (handle env) (.sql (.updateInterruptedState sid x))) with ⟨r₂, c₂⟩
    rw [hrun₂] at h₂ hc₂ hr₂
    rw [hsteps] at h₂
    dsimp only at ha₁ h₂ hr₁ hr₂ hc₂
    rcases h₂ with ⟨rfl, hs₂, row₂, hb₂, ha₂⟩ | ⟨e, rfl, hf, hk⟩
    · obtain rfl : _ = row₂ := Option.some.inj (ha₁.symm.trans hb₂)
      exact .done hs₁ hs₂ hc₂ (by rw [World.life, hb]; rfl) (by rw [World.life, ha₂]; rfl)
    · rcases hf with ⟨hs₂, hf⟩ | hf
      · exact .halfway hs₁ hs₂ (hf.within hr₁ (F := fun _ => True) .refl) (by rw [World.life, hb]; rfl)
          (by rw [World.life, hk, ha₁]; rfl)
      · rw [ha₁] at hf
        cases hf
  · refine .untouched (hf.imp id fun h => by rw [World.life, h]; rfl) ?_
    exact congrArg (Option.map SessionRow.life) hk

end AgentVerse
