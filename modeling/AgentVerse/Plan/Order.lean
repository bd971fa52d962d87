import AgentVerse.Agent.Calls
import AgentVerse.Effects.Marks
import AgentVerse.Plan.Strategy

/-!
# Which steps of a plan run

The loop over the steps of a plan, with a mark where a step begins and one where it ends. Forgetting the marks gives
the loop of the two strategies (`unmark_markedSteps`). The loop stops at the first step whose id exceeds the
iteration limit, so the steps that run are those before it (`plays_markedSteps`), whatever they depend on.
-/

namespace AgentVerse

open Effects

/-- A step of a plan, by its place in the list, begins or ends. -/
inductive StepMark where
  | begins (i : Nat)
  | ends (i : Nat)
  deriving DecidableEq

def StepMark.isBegin : StepMark → Bool
  | begins _ => true
  | ends _ => false

/-- A program with marks of the steps of a plan. -/
abbrev MarkedM (ε α : Type) := Marked Request Reply StepMark ε α

/-- A play of such a program. -/
abbrev MarkedPlay := List (Step (SumReply Reply fun _ : StepMark => Unit))

/-- `runSteps` for steps that begin at place `i` of their plan, marked. -/
def markedSteps (sk : CycleSkeleton) (names : List String) (i : Nat) :
    List PlanStep → MarkedM Core.AgentError (List (Nat × String))
  | [] => .ret []
  | step :: steps =>
    if step.id > sk.maxIterations then .ret []
    else do
      Prog.mark (.begins i)
      let result ← (runStep sk names step).inl
      Prog.mark (.ends i)
      let rest ← markedSteps sk names (i + 1) steps
      return (step.id, result) :: rest

/-- The marks are all that the marked loop adds. -/
theorem unmark_markedSteps (sk : CycleSkeleton) (names : List String) (i : Nat) (steps : List PlanStep) :
    (markedSteps sk names i steps).unmark = runSteps sk names steps := by
  induction steps generalizing i with
  | nil => rfl
  | cons step steps ih =>
    unfold markedSteps runSteps
    by_cases h : step.id > sk.maxIterations
    · simp only [if_pos h, Prog.unmark_ret]
    · simp only [if_neg h, Prog.unmark_bind, Prog.unmark_inl, ih]
      rfl

/-! ### The marks of a play -/

/-- The marks of `n` steps that run one after the other, from place `i` on. -/
def trail (i : Nat) : Nat → List StepMark
  | 0 => []
  | n + 1 => .begins i :: .ends i :: trail (i + 1) n

/-- The steps before the first one whose id exceeds the limit. -/
def withinLimit (maxIterations : Nat) (steps : List PlanStep) : List PlanStep :=
  steps.takeWhile fun step => step.id ≤ maxIterations

/-- The loop runs the steps within the limit, in their order. A play that does not complete ends in one of them. -/
theorem plays_markedSteps {sk : CycleSkeleton} {names : List String} {i : Nat} {steps : List PlanStep}
    {t : MarkedPlay} {x : Except Core.AgentError (List (Nat × String))}
    (h : (markedSteps sk names i steps).Plays t x) :
    (∃ results, x = .ok results ∧ marksOf t = trail i (withinLimit sk.maxIterations steps).length) ∨
      ∃ e, x = .error e ∧
        ∃ m < (withinLimit sk.maxIterations steps).length, marksOf t = trail i m ++ [.begins (i + m)] := by
  induction steps generalizing i t x with
  | nil =>
    obtain ⟨rfl, rfl⟩ := h
    exact .inl ⟨_, rfl, rfl⟩
  | cons step steps ih =>
    unfold markedSteps at h
    by_cases hid : step.id > sk.maxIterations
    · rw [if_pos hid] at h
      obtain ⟨rfl, rfl⟩ := h
      exact .inl ⟨_, rfl, by simp [withinLimit, Nat.not_le.mpr hid, trail]⟩
    have hlength : (withinLimit sk.maxIterations (step :: steps)).length =
        (withinLimit sk.maxIterations steps).length + 1 := by
      simp [withinLimit, Nat.not_lt.mp hid]
    rw [if_neg hid, Prog.plays_mark_bind] at h
    obtain ⟨t, rfl, h⟩ := h
    rcases Prog.plays_bind.mp h with ⟨e, he, rfl⟩ | ⟨result, t₁, t₂, rfl, h₁, h₂⟩
    · exact .inr ⟨e, rfl, 0, by omega, by simp [(Prog.plays_inl he).1, trail]⟩
    have hfirst : marksOf t₁ = [] := (Prog.plays_inl h₁).1
    rw [Prog.plays_mark_bind] at h₂
    obtain ⟨t₃, rfl, h₃⟩ := h₂
    rcases Prog.plays_bind.mp h₃ with ⟨e, he, rfl⟩ | ⟨rest, t₄, t₅, rfl, h₄, h₅⟩
    · rcases ih he with ⟨results, hx, -⟩ | ⟨e, hx, m, hm, hmarks⟩
      · cases hx
      · refine .inr ⟨_, rfl, m + 1, by omega, ?_⟩
        simp [hfirst, hmarks, trail, Nat.add_comm m, Nat.add_assoc]
    · obtain ⟨rfl, rfl⟩ := h₅
      rcases ih h₄ with ⟨results, hx, hmarks⟩ | ⟨e, hx, -⟩
      · exact .inl ⟨_, rfl, by simp [hfirst, hmarks, hlength, trail]⟩
      · cases hx

/-! ### Budget and dependencies -/

/-- What a plan asks of the steps that run: they are at most `maxIterations`, and each begins when every step it
depends on has ended. -/
structure Respects (maxIterations : Nat) (steps : List PlanStep) (marks : List StepMark) : Prop where
  budget : (marks.filter StepMark.isBegin).length ≤ maxIterations
  order : ∀ before i after, marks = before ++ .begins i :: after →
    ∀ step ∈ steps[i]?, ∀ j, ∀ other ∈ steps[j]?, other.id ∈ step.dependsOn → .ends j ∈ before

/-- The plans whose steps within the limit are no more than the limit, and depend on earlier steps only. -/
structure WellOrdered (maxIterations : Nat) (steps : List PlanStep) : Prop where
  few : (withinLimit maxIterations steps).length ≤ maxIterations
  backward : ∀ i < (withinLimit maxIterations steps).length, ∀ step ∈ steps[i]?, ∀ j, ∀ other ∈ steps[j]?,
    other.id ∈ step.dependsOn → j < i

theorem filter_isBegin_trail (i n : Nat) : ((trail i n).filter StepMark.isBegin).length = n := by
  induction n generalizing i with
  | zero => rfl
  | succ n ih =>
    simp only [trail, List.filter_cons, StepMark.isBegin]
    simp [ih]

theorem ends_mem_trail {i n j : Nat} : .ends j ∈ trail i n ↔ i ≤ j ∧ j < i + n := by
  induction n generalizing i with
  | zero =>
    simp only [trail, List.not_mem_nil, false_iff]
    omega
  | succ n ih =>
    simp only [trail, List.mem_cons, reduceCtorEq, StepMark.ends.injEq, false_or, ih]
    omega

/-- What precedes the beginning of a step is the trail of the steps before it. -/
theorem trail_split {i n k : Nat} {before after : List StepMark} (h : trail i n = before ++ .begins k :: after) :
    ∃ m < n, k = i + m ∧ before = trail i m := by
  induction n generalizing i before with
  | zero => simp [trail] at h
  | succ n ih =>
    unfold trail at h
    cases before with
    | nil =>
      simp only [List.nil_append, List.cons.injEq, StepMark.begins.injEq] at h
      exact ⟨0, by omega, h.1.symm, rfl⟩
    | cons b before =>
      simp only [List.cons_append, List.cons.injEq] at h
      obtain ⟨rfl, h⟩ := h
      cases before with
      | nil => simp at h
      | cons b before =>
        simp only [List.cons_append, List.cons.injEq] at h
        obtain ⟨rfl, h⟩ := h
        obtain ⟨m, hm, rfl, rfl⟩ := ih h
        exact ⟨m + 1, by omega, by omega, rfl⟩

theorem trail_isPrefix {i m n : Nat} (h : m < n) : trail i m ++ [.begins (i + m)] <+: trail i n := by
  induction n generalizing i m with
  | zero => omega
  | succ n ih =>
    cases m with
    | zero => exact ⟨.ends i :: trail (i + 1) n, rfl⟩
    | succ m =>
      obtain ⟨rest, hrest⟩ := ih (i := i + 1) (show m < n by omega)
      refine ⟨rest, ?_⟩
      simp only [trail, ← hrest, List.cons_append, List.append_assoc]
      congr 5
      omega

theorem Respects.of_isPrefix {maxIterations : Nat} {steps : List PlanStep} {marks marks' : List StepMark}
    (h : Respects maxIterations steps marks) (hp : marks' <+: marks) : Respects maxIterations steps marks' := by
  obtain ⟨rest, rfl⟩ := hp
  refine ⟨?_, ?_⟩
  · have hle := h.budget
    rw [List.filter_append, List.length_append] at hle
    omega
  · rintro before i after rfl
    exact h.order before i (after ++ rest) (by simp)

/-- The trail of all steps within the limit is as it should be for the well-ordered plans only. -/
theorem respects_trail_iff {maxIterations : Nat} {steps : List PlanStep} :
    Respects maxIterations steps (trail 0 (withinLimit maxIterations steps).length) ↔
      WellOrdered maxIterations steps := by
  constructor
  · intro h
    refine ⟨by simpa only [filter_isBegin_trail] using h.budget, ?_⟩
    intro i hi step hstep j other hother hdep
    obtain ⟨after, hafter⟩ := trail_isPrefix (i := 0) hi
    rw [Nat.zero_add, List.append_assoc] at hafter
    have hended := h.order _ i after hafter.symm step hstep j other hother hdep
    have hrange := ends_mem_trail.mp hended
    omega
  · intro h
    refine ⟨by simpa only [filter_isBegin_trail] using h.few, ?_⟩
    intro before i after heq step hstep j other hother hdep
    obtain ⟨m, hm, hi, rfl⟩ := trail_split heq
    have hlt := h.backward i (by omega) step hstep j other hother hdep
    exact ends_mem_trail.mpr ⟨by omega, by omega⟩

/-- The steps of a plan run within the budget and after what they depend on, in plays that complete, exactly if the
plan is well ordered; and they do in every play then. The loop is the one of the plan strategy, and of every sub-goal
of the hierarchical strategy. -/
theorem plan_respected (sk : CycleSkeleton) (names : List String) :
    (∀ messages, ∃ finish : Plan → List (Nat × String) → M Core.AgentError StrategyOutcome,
      PlanStrategy.runWithActiveTools sk messages names =
        generatePlan sk.ext sk.depth (lastUserText messages) (sk.tools.toolSummariesFor names)
          (renderConversation messages) >>= fun plan =>
            (markedSteps sk names 0 plan.steps).unmark >>= finish plan) ∧
    (∀ messages goal, HierarchicalStrategy.runGoal sk messages names goal =
      (generatePlan sk.ext sk.depth goal (sk.tools.toolSummariesFor names)
        (renderConversation messages)).attempt >>= fun planned =>
          match planned with
          | .error e => return "Plan generation failed: " ++ e.display
          | .ok plan => (markedSteps sk names 0 plan.steps).unmark >>= fun results =>
              return "\n".intercalate (results.map (·.2))) ∧
    ∀ (plan : Plan) (t : MarkedPlay)
      (x : Except Core.AgentError (List (Nat × String))), (markedSteps sk names 0 plan.steps).Plays t x →
        (WellOrdered sk.maxIterations plan.steps → Respects sk.maxIterations plan.steps (marksOf t)) ∧
        ∀ results, x = .ok results →
          (Respects sk.maxIterations plan.steps (marksOf t) ↔ WellOrdered sk.maxIterations plan.steps) := by
  refine ⟨fun messages => ?_, fun messages goal => ?_, fun plan t x h => ?_⟩
  · simp only [unmark_markedSteps]
    exact ⟨_, rfl⟩
  · simp only [unmark_markedSteps]
    rfl
  · rcases plays_markedSteps h with ⟨results, rfl, hmarks⟩ | ⟨e, rfl, m, hm, hmarks⟩
    · rw [hmarks]
      exact ⟨respects_trail_iff.mpr, fun _ _ => respects_trail_iff⟩
    · rw [hmarks]
      refine ⟨fun hplan => (respects_trail_iff.mpr hplan).of_isPrefix (trail_isPrefix hm), ?_⟩
      intro results hx
      cases hx

/-! ### Plans that are not well ordered -/

/-- A skeleton whose limit is two iterations. -/
def CycleSkeleton.twoSteps : CycleSkeleton := ⟨.plain, .plain, runPlainTool, 0, 2⟩

/-- Three steps within the limit, of which the first depends on the last. -/
def overrunPlan : Plan where
  description := ""
  steps := [⟨1, "summarise", none, none, [2]⟩, ⟨1, "search", none, none, []⟩, ⟨2, "read", none, none, []⟩]

/-- More steps run than the limit allows, and the first before the one it depends on. -/
theorem plan_overrun :
    ∃ t results, (markedSteps .twoSteps [] 0 overrunPlan.steps).Plays t (.ok results) ∧
      CycleSkeleton.twoSteps.maxIterations < ((marksOf t).filter StepMark.isBegin).length ∧
      (∃ after, marksOf t = .begins 0 :: after) ∧
      ¬ Respects CycleSkeleton.twoSteps.maxIterations overrunPlan.steps (marksOf t) := by
  refine ⟨_, _, ⟨(), _, rfl, (), _, rfl, (), _, rfl, (), _, rfl, (), _, rfl, (), _, rfl, rfl, rfl⟩, by decide,
    ⟨_, rfl⟩, fun h => ?_⟩
  exact absurd h.budget (by decide)

def orderlyPlan : Plan where
  description := ""
  steps := [⟨1, "search", none, none, []⟩, ⟨2, "summarise", none, none, [1]⟩]

theorem plan_respected_orderly :
    ∃ t results, (markedSteps .twoSteps [] 0 orderlyPlan.steps).Plays t (.ok results) ∧
      (Respects 2 orderlyPlan.steps (marksOf t) ↔ WellOrdered 2 orderlyPlan.steps) := by
  have hplay : (markedSteps .twoSteps [] 0 orderlyPlan.steps).Plays
      [⟨.inr (.begins 0), ()⟩, ⟨.inr (.ends 0), ()⟩, ⟨.inr (.begins 1), ()⟩, ⟨.inr (.ends 1), ()⟩]
      (.ok [(1, "Reasoning: search"), (2, "Reasoning: summarise")]) :=
    ⟨(), _, rfl, (), _, rfl, (), _, rfl, (), _, rfl, rfl, rfl⟩
  exact ⟨_, _, hplay, ((plan_respected .twoSteps []).2.2 orderlyPlan _ _ hplay).2 _ rfl⟩

end AgentVerse
