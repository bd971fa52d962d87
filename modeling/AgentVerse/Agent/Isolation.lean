import Mathlib.Data.Fintype.Basic
import AgentVerse.Agent.Coherence
import AgentVerse.Agent.TwoRuns

/-!
# Isolation between users

What other users do makes no difference to a user (`users_isolated`), as long as no call of theirs sweeps a conversation
from the working memory that a turn of the user still needs. When one does, the turn is appended to nothing, and the
next turn starts from a truncated history (`history_truncated`). A call that is given a session of another user is
refused by its first request.
-/

namespace AgentVerse

open Effects

variable {ι : Type} {agent : Agent} {skills : SkillRegistry} {userId : String} {R R' : SessionRun ι} {P : SessionPool ι}

/-- The user cannot tell the two pools apart: the calls end alike, their turns started from the same histories and asked
the same of the model and of everything else, and the sessions are stored alike. -/
structure SameFor (low : ι → Bool) (userId : String) (P P' : SessionPool ι) : Prop where
  results : ∀ i, low i = true → (P.threads i).result? = (P'.threads i).result?
  asked : askedBy low P.view = askedBy low P'.view
  stored : P.view.state.store.part userId = P'.view.state.store.part userId

/-- Nothing has changed but the time. -/
structure World.Unchanged (w w' : World) : Prop where
  store : w'.store = w.store
  cache : w'.cache = w.cache
  queue : w'.queue = w.queue
  skills : w'.skills = w.skills

/-- A call that is given a session of another user ends with its next request, and changes nothing. The session is not
found, unless it cannot be looked for. -/
def RefusesOthers [DecidableEq ι] (R : SessionRun ι) (P : SessionPool ι) (i : ι) : Prop :=
  ∀ sid row, (R.calls i).session? = some sid → P.view.state.store.row? sid = some row → row.userId ≠ (R.calls i).userId →
    ∀ q k, P.threads i = .ask q k →
      (P.step R.handler i).threads i = .fail (match R.env.storeError P.view.state.steps with
        | some e => .session (.database e)
        | none => .session (.notFound sid)) ∧
      P.view.state.Unchanged (P.step R.handler i).view.state

/-- In no turn of the run does another user's call sweep a conversation of the user that is in use. -/
def SessionRun.Spares [DecidableEq ι] (R : SessionRun ι) (agent : Agent) (skills : SkillRegistry) (userId : String) : Prop :=
  (R.start agent skills).Throughout R.handler (Unswept userId R) R.schedule

theorem SessionRun.AgreesFor.sameCalls [DecidableEq ι] (h : R.AgreesFor agent skills userId R') :
    SameCalls userId (R.of userId) R R' where
  ours := rfl
  theirs := by
    funext i
    by_cases hi : R.of userId i = true ∨ R'.of userId i = true
    · rw [SessionRun.of, SessionRun.of, h.calls i hi]
    · obtain ⟨hi, hi'⟩ := not_or.mp hi
      rw [Bool.eq_false_iff.mpr hi, Bool.eq_false_iff.mpr hi']
  same i hi := h.calls i (.inl hi)
  ttl := h.ttl

theorem indistinct_start (hc : SameCalls userId (R.of userId) R R') :
    Indistinct agent userId (R.of userId) R R' (R.start agent skills) (R'.start agent skills) where
  left := confined_start
  right := confined_start
  threads i hi := congrArg agent.sessionProgram (hc.same i hi)
  asked := rfl
  stored := rfl
  skills := rfl
  cached _ := .inl rfl
  held _ _ := rfl

theorem refusesOthers [DecidableEq ι] (hP : Confined agent R P) (i : ι) : RefusesOthers R P i := by
  intro sid row hcall hrow hne q k hask
  have hmine := (hP.registered.belongs (List.mem_of_find?_eq_some hrow)).2
  have hforeign : ¬ P.view.state.store.Mine (R.calls i).userId sid := fun h =>
    hne (h row (List.mem_of_find?_eq_some hrow) (Store.row?_id hrow))
  have hunasked : Unasked i P.view := by
    cases hP.asks hask with
    | look _ hfirst => exact hfirst
    | list hnone => rw [hcall] at hnone; cases hnone
    | create hnone => rw [hcall] at hnone; cases hnone
    | free hnamed => exact absurd (hnamed sid hcall) hforeign
    | about hsid hmine => exact absurd (hsid sid hcall ▸ hmine) hforeign
    | append hnamed => exact absurd (hnamed sid hcall) hforeign
  obtain ⟨k₀, hlooks, hk₀⟩ := hP.looks hunasked hcall
  rw [Pool.step_ask hlooks]
  simp only [Function.update_self, View.after_state, handleDrawn]
  cases he : R.env.storeError P.view.state.steps with
  | some e =>
    rw [handle_sql_error (w := P.view.state.drawing R.draw) _ he]
    exact ⟨hk₀ _ (fun session h => by cases h), ⟨rfl, rfl, rfl, rfl⟩⟩
  | none =>
    rw [handle_sql_ok (w := P.view.state.drawing R.draw) _ he]
    simp only [Statement.exec, World.drawing_store, hrow, Option.map_some]
    exact ⟨hk₀ _ fun session h => by cases h; exact hne, ⟨rfl, rfl, rfl, rfl⟩⟩

/-- Isolation between users. In two runs in which a user makes the same calls, and the environment makes the same choices at
their turns, everything is the same to the user, whatever the calls of the others, unless these sweep a conversation that
the user's calls are using. In every run, calls that are given sessions of others are refused. -/
theorem users_isolated [DecidableEq ι] (agent : Agent) (skills : SkillRegistry) (userId : String) :
    (∀ R R' : SessionRun ι, R.AgreesFor agent skills userId R' → R.Spares agent skills userId →
      R'.Spares agent skills userId → SameFor (R.of userId) userId (R.final agent skills) (R'.final agent skills)) ∧
    ∀ R : SessionRun ι, (R.start agent skills).Throughout R.handler (RefusesOthers R) R.schedule := by
  constructor
  · intro R R' hagree hC hC'
    have hc := hagree.sameCalls
    have hend : Indistinct agent userId (R.of userId) R R' (R.final agent skills) (R'.final agent skills) := by
      refine Pool.unwind ?_ ?_ ?_ (indistinct_start hc) hC hC' hagree.turns
      · intro P P' i h hi hswept
        exact h.other hc hi hswept
      · intro P P' i h hi hswept
        exact ((h.symm hc).other hc.symm hi hswept).symm hc.symm
      · intro P P' i h hi _ _ hmoment
        exact h.both hc hi hmoment
    exact ⟨fun i hi => congrArg Prog.result? (hend.threads i hi), hend.asked, hend.stored⟩
  · intro R
    exact Pool.throughout_of (I := Confined agent R) (fun P i h => h.step i) (fun P i h => refusesOthers h i)
      confined_start R.schedule

/-! ### A conversation is swept -/

variable [DecidableEq ι]

instance (v : AgentView ι) (i : ι) : Decidable (TookHistory v i) :=
  inferInstanceAs (Decidable (∃ x ∈ v.trace, x.1 = i ∧ (historyTaken? x.2).isSome = true))

instance [Fintype ι] (low : ι → Bool) (calls : ι → SessionCall) (P : SessionPool ι) (sid : SessionId) :
    Decidable (InUse low calls P sid) := by
  unfold InUse
  infer_instance

instance [Fintype ι] (P : SessionPool ι) (i : ι) : Decidable (Unswept userId R P i) := by
  unfold Unswept
  split <;> infer_instance

instance [Fintype ι] : Decidable (R.Spares agent skills userId) := Pool.decThroughout R.handler _ _ _

/-- A user creates a session and takes three turns of it; another user creates one too, and takes a turn or, twice, looks
at it. -/
def callsOfTwo (turn : Bool) : Fin 7 → SessionCall
  | 0 => .createSession "u"
  | 1 => .invoke "u" 1 "first"
  | 2 => .invoke "u" 1 "second"
  | 3 => .invoke "u" 1 "third"
  | 4 => .createSession "v"
  | 5 => if turn then .invoke "v" 4 "hello" else .getSession "v" 4
  | 6 => .getSession "v" 4

/-- While the second turn waits for the model, the other user has four requests. -/
def runOfTwo (ttl : Nat) (turn : Bool) : SessionRun (Fin 7) where
  env := { Env.slow with cacheTtl := ttl }
  draw := id
  distinct := Function.injective_id
  clock := 0
  calls := callsOfTwo turn
  schedule := List.replicate 3 0 ++ List.replicate 3 4 ++ List.replicate 20 1 ++ List.replicate 4 2 ++
    (if turn then List.replicate 4 5 else [5, 5, 6, 6]) ++ List.replicate 20 2 ++ List.replicate 20 3

/-- Two runs in the same environment agree when the user's turns are taken at the same times. -/
theorem agreesFor_of_clocks (henv : R.env = R'.env) (hdraw : R.draw = R'.draw)
    (hcalls : ∀ i, R.of userId i = true ∨ R'.of userId i = true → R.calls i = R'.calls i)
    (hclocks : Pool.lowTurns (R.of userId)
        ((R.start agent skills).turns R.handler (fun w => (w.clock, w.steps)) R.schedule) =
      Pool.lowTurns (R.of userId)
        ((R'.start agent skills).turns R'.handler (fun w => (w.clock, w.steps)) R'.schedule)) :
    R.AgreesFor agent skills userId R' := by
  refine ⟨hcalls, congrArg Env.cacheTtl henv, ?_⟩
  have hmoment : ∀ w, R'.moment w = R.moment w := fun w => by
    unfold SessionRun.moment
    rw [henv, hdraw]
  have hturns : ∀ (R₁ : SessionRun ι), R₁.moment = R.moment → R₁.moments agent skills =
      ((R₁.start agent skills).turns R₁.handler (fun w => (w.clock, w.steps)) R₁.schedule).map
        fun x => (x.1, R.moment { World.fresh ⟨[]⟩ x.2.1 with steps := x.2.2 }) := by
    intro R₁ h₁
    unfold SessionRun.moments
    rw [h₁]
    exact Pool.turns_map (fun w : World => (w.clock, w.steps))
      (fun x : Nat × Nat => R.moment { World.fresh ⟨[]⟩ x.1 with steps := x.2 }) _ _
  rw [hturns R rfl, hturns R' (funext hmoment)]
  unfold Pool.lowTurns at hclocks ⊢
  rw [List.filter_map, List.filter_map]
  exact congrArg (List.map _) hclocks

/-- What the other user does is noticed: the turn it sweeps the conversation of is all that the next turn starts from. -/
theorem history_truncated : (runOfTwo 3 false).AgreesFor .plain ⟨[]⟩ "u" (runOfTwo 3 true) ∧
    ¬ SameFor ((runOfTwo 3 false).of "u") "u" ((runOfTwo 3 false).final .plain ⟨[]⟩)
      ((runOfTwo 3 true).final .plain ⟨[]⟩) := by
  constructor
  · exact agreesFor_of_clocks rfl rfl (by decide) (by decide +kernel)
  · intro h
    have hhistories := congrArg (List.map fun x => (x.1, x.2.2)) h.asked
    revert hhistories
    decide +kernel

/-- The same calls, when conversations do not expire that soon. -/
theorem users_isolated_in_time : SameFor ((runOfTwo 100 false).of "u") "u" ((runOfTwo 100 false).final .plain ⟨[]⟩)
    ((runOfTwo 100 true).final .plain ⟨[]⟩) :=
  (users_isolated .plain ⟨[]⟩ "u").1 (runOfTwo 100 false) (runOfTwo 100 true)
    (agreesFor_of_clocks rfl rfl (by decide) (by decide +kernel)) (by decide +kernel) (by decide +kernel)

end AgentVerse
