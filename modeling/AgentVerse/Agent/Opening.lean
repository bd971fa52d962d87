import AgentVerse.Agent.Suspend
import AgentVerse.Agent.Calls
import AgentVerse.Effects.Pool

/-!
# The use of a phase opening context

A phase transition leaves an opening context on its session. An invocation that finds it clears it, and prepends it to
its input. This file follows the context through any interleaving of invocations and resumptions: as long as no
invocation looks while another one is about to clear, at most one of them has the context (`Opening`).
-/

namespace AgentVerse

open Effects

/-! ### Calls -/

inductive TurnCall where
  | invoke (userId : String) (sid : SessionId) (input : String)
  | resume (userId : String) (sid : SessionId) (approvalId : ApprovalId) (decision : ApprovalDecision)

def Agent.turnProgram (agent : Agent) : TurnCall → M AgentError AgentOutput
  | .invoke userId sid input => agent.invoke userId sid input
  | .resume userId sid approvalId decision => agent.resume userId sid approvalId decision

/-! ### What happens to the context -/

/-- The opening context of a session, if there is one. -/
def World.opening (w : World) (sid : SessionId) : Option String := (w.store.row? sid).bind (·.phaseOpeningContext)

/-- A look that finds a context. -/
def takesContext (sid : SessionId) : Event → Bool
  | ⟨.sql (.selectPhaseOpening s), .ok (some (some _))⟩ => s = sid
  | _ => false

/-- An attempt to clear the context. -/
def Request.asksClear (sid : SessionId) : Request → Bool
  | .sql (.updatePhaseOpening s _) => s = sid
  | _ => false

/-- The context is cleared. -/
def clearsContext (sid : SessionId) : Event → Bool
  | ⟨.sql (.updatePhaseOpening s _), .ok _⟩ => s = sid
  | _ => false

/-- A turn that carries the context is recorded. -/
def recordsContext (sid : SessionId) (ctx : String) (call : TurnCall) : Event → Bool
  | ⟨.sql (.appendMessages s ms _), .ok _⟩ =>
    match call with
    | .invoke _ _ input => s = sid && ms.head? = some (.ofText .user (ctx ++ "\n\n" ++ input))
    | .resume .. => false
  | _ => false

variable {ι : Type}

abbrev AgentView (ι : Type) : Type := View ι Reply World

def Took (sid : SessionId) (v : AgentView ι) (i : ι) : Prop := Happened v i fun x => takesContext sid x = true

def AskedClear (sid : SessionId) (v : AgentView ι) (i : ι) : Prop := Happened v i fun x => x.1.asksClear sid = true

def Cleared (sid : SessionId) (v : AgentView ι) (i : ι) : Prop := Happened v i fun x => clearsContext sid x = true

def Recorded (sid : SessionId) (ctx : String) (call : TurnCall) (v : AgentView ι) (i : ι) : Prop :=
  Happened v i fun x => recordsContext sid ctx call x = true

/-- The recorded turns that carry the context. -/
def recordedTurns (sid : SessionId) (ctx : String) (calls : ι → TurnCall) (v : AgentView ι) : List (ι × Event) :=
  v.trace.filter fun x => recordsContext sid ctx (calls x.1) x.2

/-- No invocation looks for the context while another one has found it and has not tried to clear it yet, and no
further transition is applied. -/
def Undisturbed (sid : SessionId) (v : AgentView ι) (i : ι) : Request → Prop
  | .sql (.selectPhaseOpening s) => s = sid → ∀ x ∈ v.trace, takesContext sid x.2 = true → x.1 = i ∨
      ∃ y ∈ v.trace, y.1 = x.1 ∧ y.2.1.asksClear sid = true
  | .sql (.updatePhaseTransition s _ _) => s ≠ sid
  | _ => True

/-! ### The requests of the calls -/

/-- A request that has nothing to do with the opening context of the session or its messages. -/
def Request.Aside (sid : SessionId) : Request → Prop
  | .sql (.selectPhaseOpening s) | .sql (.updatePhaseOpening s _) | .sql (.updatePhaseTransition s _ _)
  | .sql (.appendMessages s _ _) => s ≠ sid
  | .sql (.insertSession _) | .sql (.deleteSession _) | .sql (.deleteEndedSessions _) => False
  | _ => True

/-- What the calls ask. -/
inductive OfTurns (sid : SessionId) (ctx : String) (calls : ι → TurnCall) (v : AgentView ι) (i : ι) :
    Request → Prop where
  | aside {q : Request} (hq : q.Aside sid) : OfTurns sid ctx calls v i q
  | look : OfTurns sid ctx calls v i (.sql (.selectPhaseOpening sid))
  | clear (htook : Took sid v i) (hnot : ¬ AskedClear sid v i) :
    OfTurns sid ctx calls v i (.sql (.updatePhaseOpening sid none))
  | record {ms : List Message} {now : Int}
    (h : recordsContext sid ctx (calls i) ⟨.sql (.appendMessages sid ms now), .ok ()⟩ = true →
      Cleared sid v i ∧ ¬ Recorded sid ctx (calls i) v i) :
    OfTurns sid ctx calls v i (.sql (.appendMessages sid ms now))

/-- The state of the context. -/
structure Opening (sid : SessionId) (ctx : String) (calls : ι → TurnCall) (v : AgentView ι) : Prop where
  stored : v.state.opening sid = some ctx ∨ v.state.opening sid = none
  cleared : ∀ i, Cleared sid v i → v.state.opening sid = none
  clearing : v.state.opening sid = none → ∃ i, Cleared sid v i
  cleared_once : ∀ i j, Cleared sid v i → Cleared sid v j → i = j
  held : ∀ i, Took sid v i → AskedClear sid v i ∨ v.state.opening sid = some ctx
  held_once : ∀ i j, Took sid v i → Took sid v j → ¬ AskedClear sid v i → ¬ AskedClear sid v j → i = j
  recorded : recordedTurns sid ctx calls v = [] ∨
    (recordedTurns sid ctx calls v).length = 1 ∧ ∃ i, Cleared sid v i ∧ Recorded sid ctx (calls i) v i

variable {env : Env} {sid : SessionId} {ctx : String} {calls : ι → TurnCall} {v : AgentView ι} {i j : ι} {q : Request}

/-- The terms of the calls. -/
def openingOnce (sid : SessionId) (ctx : String) (calls : ι → TurnCall) : Discipline ι Reply World :=
  ⟨Opening sid ctx calls, Undisturbed sid, OfTurns sid ctx calls⟩

theorem opening_keeps (hq : q.Keeps (·.phaseOpeningContext) sid) (w : World) :
    (handle env q w).2.opening sid = w.opening sid :=
  column_bind (hq.row w)

theorem Request.Aside.keeps (hq : q.Aside sid) : q.Keeps (·.phaseOpeningContext) sid := by
  cases q with
  | sql st =>
    cases st with
    | insertSession | deleteSession | deleteEndedSessions => exact hq.elim
    | updatePhaseOpening s x =>
      intro s' f hf hs
      simp only [Statement.update?, Option.some.injEq, Prod.mk.injEq] at hf
      exact absurd (hf.1.trans hs) hq
    | updatePhaseTransition s x y =>
      intro s' f hf hs
      simp only [Statement.update?, Option.some.injEq, Prod.mk.injEq] at hf
      exact absurd (hf.1.trans hs) hq
    | updateStatus | updateWatermark | updateSkillContext | updateInterruptedState =>
      intro s' f hf _ row
      simp only [Statement.update?, Option.some.injEq, Prod.mk.injEq] at hf
      obtain ⟨-, rfl⟩ := hf
      rfl
    | _ =>
      intro s' f hf
      cases hf
  | _ => trivial

theorem Request.Aside.events (hq : q.Aside sid) (ctx : String) (call : TurnCall) (r : Reply q) :
    takesContext sid ⟨q, r⟩ = false ∧ q.asksClear sid = false ∧ clearsContext sid ⟨q, r⟩ = false ∧
      recordsContext sid ctx call ⟨q, r⟩ = false := by
  cases q with
  | sql st =>
    cases st with
    | selectPhaseOpening s =>
      refine ⟨?_, rfl, rfl, rfl⟩
      unfold takesContext
      split
      · rename_i heq
        cases heq
        exact decide_eq_false hq
      · rfl
    | updatePhaseOpening s x =>
      have hs : decide (s = sid) = false := decide_eq_false hq
      refine ⟨rfl, hs, ?_, rfl⟩
      cases r with
      | ok n => exact hs
      | error e => rfl
    | appendMessages s ms now =>
      have hs : decide (s = sid) = false := decide_eq_false hq
      refine ⟨rfl, rfl, rfl, ?_⟩
      cases r with
      | error e => rfl
      | ok u =>
        cases call with
        | invoke userId s' input => simp [recordsContext, hs]
        | resume => rfl
    | _ => exact ⟨rfl, rfl, rfl, rfl⟩
  | _ => exact ⟨rfl, rfl, rfl, rfl⟩

theorem Request.OfStrategy.aside (hq : q.OfStrategy) : q.Aside sid := by
  cases q with
  | sql st => exact hq.elim
  | _ => trivial

theorem Request.OfWrites.aside {s : SessionId} {x : Option (JsonText InterruptedState)} {status : SessionStatus}
    (hq : q.OfWrites s x status) : q.Aside sid := by
  cases q with
  | sql st => cases st <;> first | exact hq.elim | trivial
  | _ => trivial

/-! ### The context during a turn -/

/-- A turn that does not touch the context. -/
private theorem Opening.look (h : Opening sid ctx calls v)
    (hcolumn : (v.after (handle env) j q).state.opening sid = v.state.opening sid)
    (hask : q.asksClear sid = false)
    (hclear : clearsContext sid ⟨q, (handle env q v.state).1⟩ = false)
    (hrecord : recordsContext sid ctx (calls j) ⟨q, (handle env q v.state).1⟩ = true →
      Cleared sid v j ∧ ¬ Recorded sid ctx (calls j) v j)
    (htake : takesContext sid ⟨q, (handle env q v.state).1⟩ = true →
      v.state.opening sid = some ctx ∧ ∀ i, Took sid v i → i = j ∨ AskedClear sid v i) :
    Opening sid ctx calls (v.after (handle env) j q) := by
  have hasked : ∀ i, AskedClear sid (v.after (handle env) j q) i ↔ AskedClear sid v i :=
    fun i => happened_not (by simp [hask])
  have hcleared : ∀ i, Cleared sid (v.after (handle env) j q) i ↔ Cleared sid v i :=
    fun i => happened_not (by simp [hclear])
  have hturns : recordedTurns sid ctx calls (v.after (handle env) j q) = recordedTurns sid ctx calls v ++
      [(j, ⟨q, (handle env q v.state).1⟩)].filter fun x => recordsContext sid ctx (calls x.1) x.2 := by
    simp [recordedTurns, List.filter_append]
  have htook : ∀ i, Took sid (v.after (handle env) j q) i → Took sid v i ∨
      (j = i ∧ takesContext sid ⟨q, (handle env q v.state).1⟩ = true) := fun i hi => happened_after.mp hi
  refine {
    stored := hcolumn ▸ h.stored
    cleared := fun i hi => hcolumn ▸ h.cleared i ((hcleared i).mp hi)
    clearing := fun hnone => (h.clearing (hcolumn ▸ hnone)).imp fun i hi => (hcleared i).mpr hi
    cleared_once := fun i k hi hk => h.cleared_once i k ((hcleared i).mp hi) ((hcleared k).mp hk)
    held := fun i hi => ?_
    held_once := fun i k hi hk hni hnk => ?_
    recorded := ?_ }
  · rw [hcolumn, hasked]
    rcases htook i hi with hi | ⟨-, ht⟩
    · exact h.held i hi
    · exact .inr (htake ht).1
  · rw [hasked] at hni hnk
    rcases htook i hi with hi | ⟨rfl, ht⟩
    · rcases htook k hk with hk | ⟨rfl, ht⟩
      · exact h.held_once i k hi hk hni hnk
      · exact ((htake ht).2 i hi).resolve_right hni
    · rcases htook k hk with hk | ⟨rfl, -⟩
      · exact (((htake ht).2 k hk).resolve_right hnk).symm
      · rfl
  · rw [hturns]
    by_cases hr : recordsContext sid ctx (calls j) ⟨q, (handle env q v.state).1⟩ = true
    · obtain ⟨hclear, hnew⟩ := hrecord hr
      have hnone : recordedTurns sid ctx calls v = [] := h.recorded.resolve_right fun ⟨_, i, hi, hri⟩ =>
        hnew (h.cleared_once i j hi hclear ▸ hri)
      refine .inr ⟨by simp [hnone, hr], j, (hcleared j).mpr hclear, happened_after.mpr (.inr ⟨rfl, hr⟩)⟩
    · rw [List.filter_cons_of_neg (by simpa using hr), List.filter_nil, List.append_nil]
      exact h.recorded.imp_right fun ⟨hlen, i, hi, hr⟩ => ⟨hlen, i, (hcleared i).mpr hi, hr.after⟩

/-- An attempt to clear the context. -/
private theorem Opening.clear (h : Opening sid ctx calls v) (htook : Took sid v j) (hnot : ¬ AskedClear sid v j) :
    Opening sid ctx calls (v.after (handle env) j (.sql (.updatePhaseOpening sid none))) := by
  have hctx : v.state.opening sid = some ctx := (h.held j htook).resolve_left hnot
  have hfree : ∀ i, ¬ Cleared sid v i := fun i hi => by
    rw [h.cleared i hi] at hctx
    cases hctx
  have hrecorded : recordedTurns sid ctx calls v = [] :=
    h.recorded.resolve_right fun ⟨_, i, hi, _⟩ => hfree i hi
  have hturns : recordedTurns sid ctx calls (v.after (handle env) j (.sql (.updatePhaseOpening sid none))) = [] := by
    have hlast : recordsContext sid ctx (calls j) ⟨.sql (.updatePhaseOpening sid none),
        (handle env (.sql (.updatePhaseOpening sid none)) v.state).1⟩ = false := rfl
    simpa [recordedTurns, List.filter_append, hlast] using hrecorded
  have htook' : ∀ i, Took sid (v.after (handle env) j (.sql (.updatePhaseOpening sid none))) i ↔ Took sid v i :=
    fun i => happened_not (by simp [takesContext])
  have hasked : ∀ i, AskedClear sid (v.after (handle env) j (.sql (.updatePhaseOpening sid none))) i ↔
      AskedClear sid v i ∨ j = i := fun i => by
    rw [AskedClear, happened_after]
    simp [AskedClear, Request.asksClear]
  -- Whoever else took the context has asked already, since `j` is the one that has not.
  have hheld : ∀ i, Took sid v i → AskedClear sid v i ∨ j = i := fun i hi => by
    by_cases hask : AskedClear sid v i
    · exact .inl hask
    · exact .inr (h.held_once i j hi htook hask hnot).symm
  have honce : ∀ i k, Took sid (v.after (handle env) j (.sql (.updatePhaseOpening sid none))) i →
      ¬ AskedClear sid (v.after (handle env) j (.sql (.updatePhaseOpening sid none))) i → i = k := fun i k hi hni =>
    absurd ((hasked i).mpr (hheld i ((htook' i).mp hi))) hni
  cases hs : env.storeError v.state.steps with
  | some e =>
    have hrun : handle env (.sql (.updatePhaseOpening sid none)) v.state = (.error e, v.state.tick env) :=
      handle_sql_error _ hs
    have hcleared : ∀ i, ¬ Cleared sid (v.after (handle env) j (.sql (.updatePhaseOpening sid none))) i := fun i hi =>
      hfree i ((happened_not (by rw [hrun]; simp [clearsContext])).mp hi)
    have hcolumn : (v.after (handle env) j (.sql (.updatePhaseOpening sid none))).state.opening sid = some ctx := by
      rw [View.after_state, hrun]
      exact hctx
    exact {
      stored := .inl hcolumn
      cleared := fun i hi => absurd hi (hcleared i)
      clearing := fun hnone => by rw [hcolumn] at hnone; cases hnone
      cleared_once := fun i k hi _ => absurd hi (hcleared i)
      held := fun i hi => .inr hcolumn
      held_once := fun i k hi _ hni _ => honce i k hi hni
      recorded := .inl hturns }
  | none =>
    have hcolumn : (v.after (handle env) j (.sql (.updatePhaseOpening sid none))).state.opening sid = none := by
      cases hrow : v.state.store.row? sid with
      | none => rw [World.opening, hrow] at hctx; cases hctx
      | some row =>
        have hafter : (v.state.store.updateSession sid fun row => { row with phaseOpeningContext := none }).2.row? sid =
            (v.state.store.row? sid).map fun row => { row with phaseOpeningContext := none } :=
          Store.row?_updateSession_same fun _ => rfl
        rw [hrow] at hafter
        simp only [View.after_state, handle_sql_ok _ hs, Statement.exec, World.opening, hafter]
        rfl
    have hcleared : ∀ i, Cleared sid (v.after (handle env) j (.sql (.updatePhaseOpening sid none))) i ↔ j = i := by
      intro i
      rw [Cleared, happened_after, handle_sql_ok _ hs]
      exact ⟨fun hi => (hi.resolve_left (hfree i)).1, fun hi => .inr ⟨hi, by simp [clearsContext, Statement.exec]⟩⟩
    exact {
      stored := .inr hcolumn
      cleared := fun _ _ => hcolumn
      clearing := fun _ => ⟨j, (hcleared j).mpr rfl⟩
      cleared_once := fun i k hi hk => ((hcleared i).mp hi).symm.trans ((hcleared k).mp hk)
      held := fun i hi => .inl ((hasked i).mpr (hheld i ((htook' i).mp hi)))
      held_once := fun i k hi _ hni _ => honce i k hi hni
      recorded := .inl hturns }

/-- A look shows the column. -/
theorem opening_read {w : World} {c : Option String}
    (h : (handle env (.sql (.selectPhaseOpening sid)) w).1 = .ok (some c)) : w.opening sid = c := by
  cases hs : env.storeError w.steps with
  | some e => rw [handle_sql_error _ hs] at h; cases h
  | none =>
    rw [handle_sql_ok _ hs] at h
    obtain ⟨row, hrow, rfl⟩ := Option.map_eq_some_iff.mp (Except.ok.inj h)
    rw [World.opening, hrow]
    rfl

theorem opening_of_takes {w : World}
    (ht : takesContext sid ⟨.sql (.selectPhaseOpening sid), (handle env (.sql (.selectPhaseOpening sid)) w).1⟩ = true) :
    w.opening sid ≠ none := by
  intro hnone
  cases hr : (handle env (.sql (.selectPhaseOpening sid)) w).1 with
  | error e => rw [hr] at ht; cases ht
  | ok row =>
    rw [hr] at ht
    cases row with
    | none => cases ht
    | some c =>
      obtain rfl := (opening_read hr).symm.trans hnone
      cases ht

/-- A turn of a call. -/
theorem Opening.turn (h : Opening sid ctx calls v) (hC : Undisturbed sid v j q) (hq : OfTurns sid ctx calls v j q) :
    Opening sid ctx calls (v.after (handle env) j q) := by
  cases hq with
  | aside hq =>
    obtain ⟨htake, hask, hclear, hrecord⟩ := hq.events ctx (calls j) (handle env q v.state).1
    refine h.look (opening_keeps hq.keeps v.state) hask hclear (fun hr => ?_) fun ht => ?_
    · rw [hrecord] at hr
      cases hr
    · rw [htake] at ht
      cases ht
  | look =>
    have hidle : Request.Idle (.sql (.selectPhaseOpening sid)) := trivial
    refine h.look (opening_keeps hidle.keeps v.state) rfl rfl (fun hr => nomatch hr) fun ht => ⟨?_, ?_⟩
    · exact h.stored.resolve_right (opening_of_takes ht)
    · rintro i ⟨x, hx, rfl, htx⟩
      rcases hC rfl x hx htx with hj | ⟨y, hy, hxy, hask⟩
      · exact .inl hj
      · exact .inr ⟨y, hy, hxy, hask⟩
  | clear htook hnot => exact h.clear htook hnot
  | @record ms now hrec =>
    have hkeeps : Request.Keeps (·.phaseOpeningContext) sid (.sql (.appendMessages sid ms now)) := by
      intro s f hf
      cases hf
    refine h.look (opening_keeps hkeeps v.state) rfl rfl (fun hr => hrec ?_) fun ht => nomatch ht
    cases hreply : (handle env (.sql (.appendMessages sid ms now)) v.state).1 with
    | error e => rw [hreply] at hr; cases hr
    | ok u => rw [hreply] at hr; exact hr

end AgentVerse
