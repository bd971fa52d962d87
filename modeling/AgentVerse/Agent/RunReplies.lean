import AgentVerse.Agent.PlanReplies

/-!
# What a run of an agent makes of replies

Behind the approvals of an agent, a strategy run that gives no answer was kept from it by the replies of the model, or
the body of a step panicked (`runStrategy_stops`).
-/

namespace AgentVerse

open Effects

variable {t : List Event} {sid : SessionId}

/-! ### Statements -/

theorem query_plays {st : Statement} {x : Except SessionMemoryError st.Result} (h : (query st).Plays t x) :
    ∃ r, t = [⟨.sql st, r⟩] ∧ x = r.mapError SessionMemoryError.database := by
  obtain ⟨r, t', rfl, h⟩ := h
  cases r with
  | ok r =>
    obtain ⟨rfl, rfl⟩ := h
    exact ⟨_, rfl, rfl⟩
  | error e =>
    obtain ⟨rfl, rfl⟩ := h
    exact ⟨_, rfl, rfl⟩

theorem mustAffect_plays {n : Nat} {x : Except SessionMemoryError Unit}
    (h : (SessionMemory.mustAffect sid n).Plays t x) : t = [] ∧ ((∃ e, x = .error e) ↔ n = 0) := by
  unfold SessionMemory.mustAffect at h
  split at h
  · obtain ⟨rfl, rfl⟩ := h
    exact ⟨rfl, iff_of_true ⟨_, rfl⟩ ‹_›⟩
  · obtain ⟨rfl, rfl⟩ := h
    exact ⟨rfl, iff_of_false (fun ⟨e, he⟩ => by cases he) ‹_›⟩

/-- An update of a session ends well unless the database refuses it or has no such session. -/
theorem update_plays {st : Statement} {affected : st.Result → Nat} {x : Except SessionMemoryError Unit}
    (h : (query st >>= fun r => SessionMemory.mustAffect sid (affected r)).Plays t x) :
    ∃ r, t = [⟨.sql st, r⟩] ∧ ((∃ e, x = .error e) ↔ ∀ n, r = .ok n → affected n = 0) := by
  obtain ⟨e, h₁, rfl⟩ | ⟨n, t₁, t₂, rfl, h₁, h₂⟩ := Prog.plays_bind.mp h
  · obtain ⟨r, rfl, hr⟩ := query_plays h₁
    cases r with
    | ok n => cases hr
    | error e' => exact ⟨_, rfl, iff_of_true ⟨e, rfl⟩ fun n hn => by cases hn⟩
  · obtain ⟨r, rfl, hr⟩ := query_plays h₁
    cases r with
    | error e => cases hr
    | ok n' =>
      cases hr
      obtain ⟨rfl, hn⟩ := mustAffect_plays h₂
      exact ⟨_, rfl, hn.trans ⟨fun h n' hn' => by cases hn'; exact h, fun h => h n rfl⟩⟩

/-- A column is read unless the database refuses to or has no such session. -/
theorem column_plays {st : Statement} {α : Type} {column : st.Result → Option α} {x : Except SessionMemoryError α}
    (h : (query st >>= fun r => SessionMemory.readColumn sid (column r)).Plays t x) :
    ∃ r, t = [⟨.sql st, r⟩] ∧ ((∃ row v, r = .ok row ∧ column row = some v ∧ x = .ok v) ∨
      ((∃ e, x = .error e) ∧ ∀ row, r = .ok row → column row = none)) := by
  obtain ⟨e, h₁, rfl⟩ | ⟨row, t₁, t₂, rfl, h₁, h₂⟩ := Prog.plays_bind.mp h
  · obtain ⟨r, rfl, hr⟩ := query_plays h₁
    cases r with
    | ok row => cases hr
    | error e' => exact ⟨_, rfl, .inr ⟨⟨e, rfl⟩, fun row hrow => by cases hrow⟩⟩
  · obtain ⟨r, rfl, hr⟩ := query_plays h₁
    cases r with
    | error e => cases hr
    | ok row' =>
      cases hr
      cases hcolumn : column row with
      | none =>
        rw [hcolumn] at h₂
        obtain ⟨rfl, rfl⟩ := h₂
        exact ⟨_, rfl, .inr ⟨⟨_, rfl⟩, fun row' hrow => by cases hrow; exact hcolumn⟩⟩
      | some v =>
        rw [hcolumn] at h₂
        obtain ⟨rfl, rfl⟩ := h₂
        exact ⟨_, rfl, .inl ⟨row, v, rfl, hcolumn, rfl⟩⟩

namespace Agent

variable (agent : Agent)

/-! ### Strategy runs -/

/-- What a human is asked about a call of a run, if anything. -/
def askedAbout (ctx : HitlPolicy → HitlContext) (name : String) (args : Json) : Option InterruptKind :=
  agent.hitl.bind fun policy => (ctx policy).interruptKind name args

/-- The tools that a run has to call before it answers. -/
def mustCall (ctx : HitlPolicy → HitlContext) : List String :=
  (agent.hitl.map fun policy => (ctx policy).requiredToolNames).getD []

/-- The replies keep a run of a strategy from an answer. A run that has to call a tool is stopped there, if it gets so
far. -/
def RunStops (kind : StrategyKind) (sk : CycleSkeleton) (names : List String) (messages : List Message)
    (ctx : HitlPolicy → HitlContext) (rs : List (Except ModelError GenerateResponse)) : Prop :=
  match kind with
  | .react => agent.mustCall ctx ≠ [] ∨ ReActStops sk names (readReply sk.ext (agent.askedAbout ctx)) (fun _ => True) rs
  | .plan => PlanStops sk names messages rs
  | .hierarchical => HierarchicalStops sk names messages 3 rs

variable {agent} {sk : CycleSkeleton} {names : List String} {messages : List Message}
  {ctx : HitlPolicy → HitlContext} {x : Except AgentError StrategyOutcome}

/-- A ReAct run goes behind a hook that stops what a human is asked about. -/
theorem runStrategy_react_plays (h : (agent.runStrategy (buildStrategy .react sk) messages names ctx).Plays t x)
    (hmust : agent.mustCall ctx = []) :
    ∃ hook y, hook.Stops (agent.askedAbout ctx) ∧ hook.requiredToolNames = [] ∧
      (ReActStrategy.runHitl sk messages names hook).Plays t y ∧ x = y.mapError .llm := by
  unfold runStrategy at h
  unfold mustCall at hmust
  unfold askedAbout
  cases hpolicy : agent.hitl with
  | some policy =>
    rw [hpolicy] at h hmust
    obtain ⟨y, hy, rfl⟩ := Prog.plays_mapErr.mp h
    exact ⟨(ctx policy).hook, y, (ctx policy).hook_stops, hmust, hy, rfl⟩
  | none =>
    rw [hpolicy] at h
    obtain ⟨y, hy, rfl⟩ := Prog.plays_mapErr.mp h
    have hy : (ReActStrategy.loop sk names sk.maxIterations (prepareBuffer sk.ext messages)).Plays t y := hy
    rw [loop_eq_hitlLoop] at hy
    exact ⟨.absent, y, HitlHook.absent_stops, rfl, hy, rfl⟩

/-- The other kinds of runs do not come to a hook. -/
theorem runStrategy_other_plays {kind : StrategyKind} (hkind : kind ≠ .react)
    (h : (agent.runStrategy (buildStrategy kind sk) messages names ctx).Plays t x) :
    ∃ y, ((buildStrategy kind sk).runWithActiveTools messages names).Plays t y ∧ x = y.mapError .llm := by
  unfold runStrategy at h
  cases hpolicy : agent.hitl with
  | none =>
    rw [hpolicy] at h
    exact Prog.plays_mapErr.mp h
  | some policy =>
    rw [hpolicy] at h
    cases kind with
    | react => exact absurd rfl hkind
    | plan | hierarchical => exact Prog.plays_mapErr.mp h

/-- A run that gives no answer was kept from it by the replies, or the body of a step panicked. -/
theorem runStrategy_stops {kind : StrategyKind} (hroot : sk.AtRoot)
    (h : (agent.runStrategy (buildStrategy kind sk) messages names ctx).Plays t x)
    (hnot : ∀ text, x ≠ .ok (.done text)) :
    agent.RunStops kind sk names messages ctx (repliesOf t) ∨ ∃ y ∈ t, stepPanic y = true := by
  have hdone : ∀ {y : Except Core.AgentError StrategyOutcome}, x = y.mapError .llm → ∀ text, y ≠ .ok (.done text) := by
    rintro y hx text rfl
    exact hnot text hx
  unfold RunStops
  cases kind with
  | react =>
    by_cases hmust : agent.mustCall ctx = []
    · obtain ⟨hook, y, hstops, hrequired, hplays, hx⟩ := runStrategy_react_plays h hmust
      exact .inl (.inr (runHitl_stops hroot hstops hrequired hplays (hdone hx)))
    · exact .inl (.inl hmust)
  | plan =>
    obtain ⟨y, hplays, hx⟩ := runStrategy_other_plays (by simp) h
    exact plan_stops hroot hplays (hdone hx)
  | hierarchical =>
    obtain ⟨y, hplays, hx⟩ := runStrategy_other_plays (by simp) h
    exact hierarchical_stops hroot hplays (hdone hx)

end Agent

end AgentVerse
