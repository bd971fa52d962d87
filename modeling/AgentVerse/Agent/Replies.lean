import AgentVerse.Agent.Footprint

/-!
# What a run answers with

The replies of the model to a strategy (`repliesOf`), and what a ReAct run makes of them: it answers with the text of a
response, so what holds of the response of every model call that succeeds holds of the one behind the answer
(`loop_answers`, `hitlLoop_answers`).
-/

namespace AgentVerse

open Effects

/-- The reply of the model to a strategy. -/
def strategyReply : (q : Request) → Reply q → Option (Except ModelError GenerateResponse)
  | .generate 0 _, r => some r
  | _, _ => none

def repliesOf (t : List Event) : List (Except ModelError GenerateResponse) :=
  t.filterMap fun x => strategyReply x.1 x.2

variable {B : (q : Request) → Reply q → Prop} {P : GenerateResponse → Prop} (sk : CycleSkeleton) {names : List String}
  (hinvoke : ∀ buf, (sk.invoke buf names).Meets B (fun _ => True) fun r => ∀ response, r = .ok response → P response)

include hinvoke in
/-- ReAct answers with the text of a response, of which it has what every model call yields that is answered. -/
theorem loop_answers (remaining : Nat) (buf : List Message) :
    (ReActStrategy.loop sk names remaining buf).Meets B (fun _ => True) fun r =>
      ∀ text, r = .ok (.done text) → ∃ response, P response ∧ actionFromResponse response = .done text := by
  induction remaining generalizing buf with
  | zero => exact fun text h => by cases h
  | succ remaining ih =>
    refine Prog.Meets.bind (hinvoke buf) (fun response hresponse => ?_) fun e _ text h => by cases h
    cases haction : actionFromResponse response with
    | toolCalls calls => exact Prog.Meets.bind (meets_any _) (fun _ _ => ih _) fun e _ text h => by cases h
    | done answer =>
      intro text h
      cases h
      exact ⟨response, hresponse response rfl, haction⟩
    | error message => exact fun text h => by cases h

include hinvoke in
theorem hitlLoop_answers (hook : HitlHook) (remaining : Nat) (buf : List Message) (called : Bool) :
    (ReActStrategy.hitlLoop sk names hook remaining buf called).Meets B (fun _ => True) fun r =>
      ∀ text, r = .ok (.done text) → ∃ response, P response ∧ actionFromResponse response = .done text := by
  induction remaining generalizing buf called with
  | zero => exact fun text h => by cases h
  | succ remaining ih =>
    refine Prog.Meets.bind (hinvoke buf) (fun response hresponse => ?_) fun e _ text h => by cases h
    cases haction : actionFromResponse response with
    | toolCalls calls =>
      refine Prog.Meets.bind (meets_any _) (fun results _ => ?_) fun e _ text h => by cases h
      cases results with
      | ok results => exact ih ..
      | error interrupt => exact fun text h => by cases h
    | done answer =>
      dsimp only
      split
      · intro text h
        cases h
        exact ⟨response, hresponse response rfl, haction⟩
      · exact ih ..
    | error message => exact fun text h => by cases h

/-- What an error of the strategy becomes does not matter. -/
theorem llm_answers {Q : String → Prop} {p : M Core.AgentError StrategyOutcome}
    (hp : p.Meets B (fun _ => True) fun r => ∀ text, r = .ok (.done text) → Q text) :
    (llm p).Meets B (fun _ => True) fun r => ∀ text, r = .ok (.done text) → Q text := by
  refine Prog.Meets.mapErr hp fun r hr text h => ?_
  cases r with
  | ok outcome =>
    cases h
    exact hr text rfl
  | error e => cases h

end AgentVerse
