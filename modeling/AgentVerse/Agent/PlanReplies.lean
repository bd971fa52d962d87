import AgentVerse.Agent.LoopReplies

/-!
# What the plan strategies make of replies

When a plan strategy fails, read off the prompts and the replies of the model: a prompt cannot be used, the first reply
cannot be read, the last reply is no answer (`plan_stops`, `hierarchical_stops`) or the body of a step panicked. It fails
without having started a tool when moreover the plans have only steps without tools (`plan_breaks_iff`,
`hierarchical_breaks_iff`).
-/

namespace AgentVerse

open Effects

/-- A prompt that is rendered and passes the guardrail. -/
def askable (ext : Externals) : Except String String → Bool
  | .error _ => false
  | .ok prompt => (ext.checkPrompt prompt).isNone

/-- What a planner reads of a reply. -/
def readPlanner {α : Type} (parse : String → Except String α) : Except ModelError GenerateResponse → Option α
  | .error _ => none
  | .ok response => (parse response.asText).toOption

/-- A reply whose text passes the guardrail. -/
def passes (ext : Externals) : Except ModelError GenerateResponse → Bool
  | .error _ => false
  | .ok response => (ext.checkOutput response.asText).isNone

section

variable {sk : CycleSkeleton} {names : List String} {t : List Event}

/-- The step executes no tool. -/
def Toolless (sk : CycleSkeleton) (names : List String) (step : PlanStep) : Prop :=
  ∀ toolName, step.tool = some toolName → (names = [] ∨ toolName ∈ names) → sk.tools.hasTool toolName = false

/-- The steps of a plan that are executed. -/
def executedSteps (sk : CycleSkeleton) (plan : Plan) : List PlanStep :=
  plan.steps.takeWhile fun step => step.id ≤ sk.maxIterations

/-! ### Steps -/

/-- What steps come to: they start tools unless they are idle, do not ask the model, and fail only where a body
panics. -/
structure RunsTools {α : Type} (idle : Prop) (t : List Event) (x : Except Core.AgentError α) : Prop where
  started : Started t ↔ ¬ idle
  replies : repliesOf t = []
  fails : ∀ e, x = .error e → ∃ y ∈ t, stepPanic y = true

theorem RunsTools.nothing {α : Type} {idle : Prop} (h : idle) {a : α} : RunsTools idle [] (.ok a) where
  started := iff_of_false not_started_nil fun hnot => hnot h
  replies := rfl
  fails e he := by cases he

theorem executeTool_plays (hroot : sk.AtRoot) {toolName : String} {args : Json}
    {x : Except Core.AgentError (Except Core.AgentError String)} (h : (executeTool sk toolName args).Plays t x) :
    RunsTools (sk.tools.hasTool toolName = false) t x := by
  unfold executeTool ToolRegistry.execute at h
  cases hget : sk.tools.get toolName with
  | none =>
    rw [hget] at h
    obtain ⟨rfl, rfl⟩ := h
    exact .nothing (by rw [ToolRegistry.hasTool, hget]; rfl)
  | some tool =>
    rw [hget] at h
    have hhas : sk.tools.hasTool toolName = true := by rw [ToolRegistry.hasTool, hget]; rfl
    obtain ⟨e, h₁, -⟩ | ⟨r, t₁, t₂, rfl, h₁, h₂⟩ := Prog.plays_bind.mp h
    · obtain ⟨y, -, hy⟩ := Prog.plays_mapErr.mp h₁
      cases y with
      | ok r => cases hy
      | error e => exact e.elim
    · have hend : t₂ = [] ∧ ∀ e, x = .error e → r = .panicked := by
        split at h₂ <;> obtain ⟨rfl, rfl⟩ := h₂ <;> exact ⟨rfl, fun e he => by first | rfl | cases he⟩
      obtain ⟨rfl, hx⟩ := hend
      obtain ⟨y, hrun, hy⟩ := Prog.plays_mapErr.mp h₁
      rw [List.append_nil]
      exact {
        started := iff_of_true (hroot.starts _ _ _ _ hrun) (by simp [hhas])
        replies := repliesOf_eq_nil ((hroot.quiet _ _).plays hrun)
        fails := fun e he => by
          rw [hx e he] at hy
          cases y with
          | ok r' =>
            cases hy
            exact hroot.panics _ _ _ hrun rfl
          | error e => exact e.elim }

theorem runStep_plays (hroot : sk.AtRoot) {step : PlanStep} {x : Except Core.AgentError String}
    (h : (runStep sk names step).Plays t x) : RunsTools (Toolless sk names step) t x := by
  unfold runStep at h
  cases htool : step.tool with
  | none =>
    rw [htool] at h
    obtain ⟨rfl, rfl⟩ := h
    exact .nothing fun toolName hname => by rw [htool] at hname; cases hname
  | some toolName =>
    rw [htool] at h
    dsimp only at h
    have htoolless : Toolless sk names step ↔ (names = [] ∨ toolName ∈ names → sk.tools.hasTool toolName = false) := by
      unfold Toolless
      rw [htool]
      exact ⟨fun h => h toolName rfl, fun h _ heq => by cases heq; exact h⟩
    rw [htoolless]
    split at h
    · rename_i hout
      obtain ⟨rfl, rfl⟩ := h
      refine .nothing fun hin => ?_
      simp only [Bool.and_eq_true, Bool.not_eq_true', List.isEmpty_eq_false_iff, List.contains_eq_mem,
        decide_eq_false_iff_not] at hout
      exact absurd hin fun h => h.elim hout.1 hout.2
    · rename_i hin
      have hin : names = [] ∨ toolName ∈ names := by
        by_contra hnot
        simp only [not_or] at hnot
        exact hin (by simp [hnot.1, hnot.2])
      rw [imp_iff_right hin]
      obtain ⟨e, h₁, rfl⟩ | ⟨r, t₁, t₂, rfl, h₁, h₂⟩ := Prog.plays_bind.mp h
      · obtain ⟨hstarted, hreplies, hfails⟩ := executeTool_plays hroot h₁
        exact ⟨hstarted, hreplies, fun _ _ => hfails e rfl⟩
      · obtain ⟨hstarted, hreplies, -⟩ := executeTool_plays hroot h₁
        have hend : t₂ = [] ∧ ∃ result, x = .ok result := by
          cases r <;> obtain ⟨rfl, rfl⟩ := h₂ <;> exact ⟨rfl, _, rfl⟩
        obtain ⟨rfl, result, rfl⟩ := hend
        rw [List.append_nil]
        exact ⟨hstarted, hreplies, fun e he => by cases he⟩

theorem runSteps_plays (hroot : sk.AtRoot) {steps : List PlanStep}
    {x : Except Core.AgentError (List (Nat × String))} (h : (runSteps sk names steps).Plays t x) :
    RunsTools (∀ step ∈ steps.takeWhile fun step => step.id ≤ sk.maxIterations, Toolless sk names step) t x := by
  induction steps generalizing t x with
  | nil =>
    obtain ⟨rfl, rfl⟩ := h
    exact .nothing fun step hstep => by cases hstep
  | cons step steps ih =>
    unfold runSteps at h
    by_cases hover : step.id > sk.maxIterations
    · rw [if_pos hover] at h
      obtain ⟨rfl, rfl⟩ := h
      exact .nothing (by simp [Nat.not_le.mpr hover])
    · rw [if_neg hover] at h
      have hran : (step :: steps).takeWhile (fun step => step.id ≤ sk.maxIterations) =
          step :: steps.takeWhile fun step => step.id ≤ sk.maxIterations := by
        simp [Nat.not_lt.mp hover]
      rw [hran, List.forall_mem_cons]
      obtain ⟨e, h₁, rfl⟩ | ⟨result, t₁, t₂, rfl, h₁, h₂⟩ := Prog.plays_bind.mp h
      · obtain ⟨hstarted, hreplies, hfails⟩ := runStep_plays hroot h₁
        have hpanic := hfails e rfl
        have hnot := hstarted.mp (started_of_panic hpanic)
        exact ⟨iff_of_true (started_of_panic hpanic) fun h => hnot h.1, hreplies, fun _ _ => hpanic⟩
      · have hstep := runStep_plays hroot h₁
        obtain ⟨y, h₃, hx⟩ : ∃ y, (runSteps sk names steps).Plays t₂ y ∧ ∀ e, x = .error e → y = .error e := by
          obtain ⟨e, h₃, rfl⟩ | ⟨rest, t₃, t₄, rfl, h₃, rfl, rfl⟩ := Prog.plays_bind.mp h₂
          · exact ⟨_, h₃, fun e' he => by cases he; rfl⟩
          · rw [List.append_nil]
            exact ⟨_, h₃, fun e he => by cases he⟩
        have hrest := ih h₃
        exact {
          started := by rw [started_append, hstep.started, hrest.started, not_and_or]
          replies := by rw [repliesOf_append, hstep.replies, hrest.replies]; rfl
          fails := fun e he => (hrest.fails e (hx e he)).imp fun y hy => ⟨List.mem_append_right _ hy.1, hy.2⟩ }

/-! ### Planner and synthesis -/

/-- The planner asks the model once, if it can, and reads the reply. -/
theorem planner_plays {α : Type} {ext : Externals} {depth : Nat} (hdepth : depth = 0) {prompt : Except String String}
    {req what : String} {parse : String → Except String α} {x : Except Core.AgentError α}
    (h : (askPlanner ext depth prompt req what parse).Plays t x) :
    (askable ext prompt = false ∧ t = [] ∧ ∃ e, x = .error e) ∨
      (askable ext prompt = true ∧ ∃ q r, t = [⟨.generate 0 q, r⟩] ∧
        ((readPlanner parse r = none ∧ ∃ e, x = .error e) ∨ ∃ a, readPlanner parse r = some a ∧ x = .ok a)) := by
  unfold askPlanner at h
  cases prompt with
  | error e =>
    obtain ⟨rfl, rfl⟩ := h
    exact .inl ⟨rfl, rfl, _, rfl⟩
  | ok strategyPrompt =>
    dsimp only at h
    unfold checkPromptGuardrail at h
    cases hcheck : ext.checkPrompt strategyPrompt with
    | some msg =>
      rw [hcheck] at h
      obtain ⟨rfl, rfl⟩ := h
      exact .inl ⟨by simp [askable, hcheck], rfl, _, rfl⟩
    | none =>
      rw [hcheck] at h
      refine .inr ⟨by simp [askable, hcheck], ?_⟩
      obtain ⟨e, h₁, rfl⟩ | ⟨response, t₁, t₂, rfl, h₁, h₂⟩ := Prog.plays_bind.mp (Prog.ret_bind .. ▸ h)
      · obtain ⟨q, r, rfl, hr⟩ := invokeRunner_plays hdepth h₁
        cases r with
        | ok response => cases hr
        | error e' => exact ⟨q, _, rfl, .inl ⟨rfl, _, rfl⟩⟩
      · obtain ⟨q, r, rfl, hr⟩ := invokeRunner_plays hdepth h₁
        cases r with
        | error e' => cases hr
        | ok response' =>
          cases hr
          cases hparse : parse response.asText with
          | ok a =>
            rw [hparse] at h₂
            obtain ⟨rfl, rfl⟩ := h₂
            exact ⟨q, _, rfl, .inr ⟨a, by simp [readPlanner, hparse, Except.toOption], rfl⟩⟩
          | error e =>
            rw [hparse] at h₂
            obtain ⟨rfl, rfl⟩ := h₂
            exact ⟨q, _, rfl, .inl ⟨by simp [readPlanner, hparse, Except.toOption], _, rfl⟩⟩

/-- What a final reply comes to. -/
inductive Concludes (ext : Externals) (r : Except ModelError GenerateResponse) :
    Except Core.AgentError StrategyOutcome → Prop
  | refused {e : Core.AgentError} (h : passes ext r = false) : Concludes ext r (.error e)
  | answered {text : String} (h : passes ext r = true) : Concludes ext r (.ok (.done text))

theorem synthesize_plays (hdepth : sk.depth = 0) {system user : String} {x : Except Core.AgentError StrategyOutcome}
    (h : (synthesize sk system user).Plays t x) : ∃ q r, t = [⟨.generate 0 q, r⟩] ∧ Concludes sk.ext r x := by
  unfold synthesize at h
  obtain ⟨e, h₁, rfl⟩ | ⟨response, t₁, t₂, rfl, h₁, h₂⟩ := Prog.plays_bind.mp h
  · obtain ⟨q, r, rfl, hr⟩ := invokeRunner_plays hdepth h₁
    cases r with
    | ok response => cases hr
    | error e' => exact ⟨q, _, rfl, .refused rfl⟩
  · obtain ⟨q, r, rfl, hr⟩ := invokeRunner_plays hdepth h₁
    cases r with
    | error e' => cases hr
    | ok response' =>
      cases hr
      unfold checkOutputGuardrail at h₂
      cases hcheck : sk.ext.checkOutput response.asText with
      | some msg =>
        rw [hcheck] at h₂
        obtain ⟨rfl, rfl⟩ := h₂
        exact ⟨q, _, rfl, .refused (by simp [passes, hcheck])⟩
      | none =>
        rw [hcheck] at h₂
        obtain ⟨rfl, rfl⟩ := h₂
        exact ⟨q, _, rfl, .answered (by simp [passes, hcheck])⟩

/-! ### Runs with a planner -/

/-- How a run goes that asks a planner, does the body for what it reads in the reply, and asks for an answer. -/
inductive Planned {α β : Type} (ext : Externals) (prompt : Except String String) (parse : String → Except String α)
    (body : α → M Core.AgentError β) : List Event → Except Core.AgentError StrategyOutcome → Prop
  | unasked {e : Core.AgentError} (hask : askable ext prompt = false) : Planned ext prompt parse body [] (.error e)
  | unread {q : GenerateRequest} {r : Except ModelError GenerateResponse} {e : Core.AgentError}
      (hask : askable ext prompt = true) (hread : readPlanner parse r = none) :
      Planned ext prompt parse body [⟨.generate 0 q, r⟩] (.error e)
  | broken {q : GenerateRequest} {r : Except ModelError GenerateResponse} {a : α} {t : List Event} {e : Core.AgentError}
      (hask : askable ext prompt = true) (hread : readPlanner parse r = some a) (h : (body a).Plays t (.error e)) :
      Planned ext prompt parse body (⟨.generate 0 q, r⟩ :: t) (.error e)
  | ended {q q' : GenerateRequest} {r r' : Except ModelError GenerateResponse} {a : α} {b : β} {t : List Event}
      {x : Except Core.AgentError StrategyOutcome} (hask : askable ext prompt = true)
      (hread : readPlanner parse r = some a) (h : (body a).Plays t (.ok b)) (hx : Concludes ext r' x) :
      Planned ext prompt parse body (⟨.generate 0 q, r⟩ :: (t ++ [⟨.generate 0 q', r'⟩])) x

theorem planned_plays {α β : Type} (hdepth : sk.depth = 0) {prompt : Except String String} {req what : String}
    {parse : String → Except String α} {body : α → M Core.AgentError β} {system user : α → β → String}
    {x : Except Core.AgentError StrategyOutcome}
    (h : (askPlanner sk.ext sk.depth prompt req what parse >>= fun a => body a >>= fun b =>
      synthesize sk (system a b) (user a b)).Plays t x) : Planned sk.ext prompt parse body t x := by
  obtain ⟨e, h₁, rfl⟩ | ⟨a, t₁, t₂, rfl, h₁, h₂⟩ := Prog.plays_bind.mp h
  · obtain ⟨hask, rfl, -⟩ | ⟨hask, q, r, rfl, ⟨hread, -⟩ | ⟨a, -, ha⟩⟩ := planner_plays hdepth h₁
    · exact .unasked hask
    · exact .unread hask hread
    · cases ha
  · obtain ⟨-, -, e, he⟩ | ⟨hask, q, r, rfl, ⟨-, e, he⟩ | ⟨a, hread, ha⟩⟩ := planner_plays hdepth h₁
    · cases he
    · cases he
    · cases ha
      obtain ⟨e, h₃, rfl⟩ | ⟨b, t₃, t₄, rfl, h₃, h₄⟩ := Prog.plays_bind.mp h₂
      · exact .broken hask hread h₃
      · obtain ⟨q', r', rfl, hx⟩ := synthesize_plays hdepth h₄
        exact .ended hask hread h₃ hx

/-- The replies keep a run with a planner from an answer: it cannot ask, cannot read the first reply, or gets, after the
replies to the body, a final reply that is no answer, where what is read and the replies after it are such. -/
def PlannedStops {α : Type} (ext : Externals) (prompt : Except String String) (parse : String → Except String α)
    (count : α → Nat) (Such : α → List (Except ModelError GenerateResponse) → Prop)
    (rs : List (Except ModelError GenerateResponse)) : Prop :=
  askable ext prompt = false ∨ ∃ r rest, rs = r :: rest ∧ ∀ a, readPlanner parse r = some a →
    Such a rest ∧ ∃ r' ∈ rest[count a]?, passes ext r' = false

section Bodies

variable {α β : Type} {ext : Externals} {prompt : Except String String} {parse : String → Except String α}
  {body : α → M Core.AgentError β} {count : α → Nat} {Such : α → List (Except ModelError GenerateResponse) → Prop}

theorem plannedStops_cons {r : Except ModelError GenerateResponse} {rest : List (Except ModelError GenerateResponse)}
    {a : α} (hask : askable ext prompt = true) (hread : readPlanner parse r = some a) :
    PlannedStops ext prompt parse count Such (r :: rest) ↔
      Such a rest ∧ ∃ r' ∈ rest[count a]?, passes ext r' = false := by
  constructor
  · rintro (hnot | ⟨_, _, heq, h⟩)
    · rw [hask] at hnot
      cases hnot
    · cases heq
      exact h a hread
  · exact fun h => .inr ⟨r, rest, rfl, fun a' ha => by cases hread.symm.trans ha; exact h⟩

/-- What a body comes to: it gets so many replies, starts no tool where they are such, and fails only where the body of
a step panics. -/
structure BodyPlays (n : Nat) (Such : List (Except ModelError GenerateResponse) → Prop) (t : List Event)
    (x : Except Core.AgentError β) : Prop where
  replies : ∀ b, x = .ok b → (repliesOf t).length = n
  started : ∀ rest, Started t ↔ ¬ Such (repliesOf t ++ rest)
  fails : ∀ e, x = .error e → ∃ y ∈ t, stepPanic y = true

/-- When a run with a planner fails without having started a tool. It is never stopped for an approval. -/
theorem Planned.breaks_iff {x : Except Core.AgentError StrategyOutcome} (h : Planned ext prompt parse body t x)
    (hbody : ∀ a t y, (body a).Plays t y → BodyPlays (count a) (Such a) t y) :
    (∀ i, x ≠ .ok (.interrupted i)) ∧
      ((∃ e, x = .error e) ∧ ¬ Started t ↔ PlannedStops ext prompt parse count Such (repliesOf t)) := by
  cases h with
  | unasked hask => exact ⟨by simp, iff_of_true ⟨⟨_, rfl⟩, not_started_nil⟩ (.inl hask)⟩
  | @unread q r e hask hread =>
    refine ⟨by simp, iff_of_true ⟨⟨e, rfl⟩, by simp [Started, Request.dispatch?]⟩ (.inr ⟨r, [], rfl, fun a ha => ?_⟩)⟩
    rw [hread] at ha
    cases ha
  | @broken q r a t e hask hread h =>
    have hstarted := started_of_panic ((hbody a t _ h).fails e rfl)
    have hnot := ((hbody a t _ h).started []).mp hstarted
    rw [List.append_nil] at hnot
    rw [started_generate, repliesOf_generate, plannedStops_cons hask hread]
    exact ⟨by simp, iff_of_false (fun h => h.2 hstarted) fun h => hnot h.1⟩
  | @ended q q' r r' a b t x hask hread h hx =>
    have hfinal : repliesOf (t ++ [⟨.generate 0 q', r'⟩]) = repliesOf t ++ [r'] := repliesOf_append
    have hnone : ¬ Started [⟨.generate 0 q', r'⟩] := by simp [Started, Request.dispatch?]
    have hlast : (repliesOf t ++ [r'])[count a]? = some r' := by
      rw [← (hbody a t _ h).replies b rfl, List.getElem?_concat_length]
    rw [started_generate, repliesOf_generate, plannedStops_cons hask hread, hfinal, hlast, started_append,
      or_iff_left hnone, (hbody a t _ h).started [r'], not_not]
    cases hx with
    | refused hpass => exact ⟨by simp, by simp [hpass]⟩
    | answered hpass => exact ⟨by simp, by simp [hpass]⟩

/-- A run with a planner that gives no answer was kept from it by the replies, or the body of a step panicked. -/
theorem Planned.stops {x : Except Core.AgentError StrategyOutcome} (h : Planned ext prompt parse body t x)
    (hbody : ∀ a t y, (body a).Plays t y → BodyPlays (count a) (Such a) t y) (hnot : ∀ text, x ≠ .ok (.done text)) :
    PlannedStops ext prompt parse count (fun _ _ => True) (repliesOf t) ∨ ∃ y ∈ t, stepPanic y = true := by
  cases h with
  | unasked hask => exact .inl (.inl hask)
  | @unread q r e hask hread =>
    refine .inl (.inr ⟨r, [], rfl, fun a ha => ?_⟩)
    rw [hread] at ha
    cases ha
  | @broken q r a t e hask hread h =>
    obtain ⟨y, hy, hpanic⟩ := (hbody a t _ h).fails e rfl
    exact .inr ⟨y, List.mem_cons_of_mem _ hy, hpanic⟩
  | @ended q q' r r' a b t x hask hread h hx =>
    have hfinal : repliesOf (t ++ [⟨.generate 0 q', r'⟩]) = repliesOf t ++ [r'] := repliesOf_append
    have hlast : (repliesOf t ++ [r'])[count a]? = some r' := by
      rw [← (hbody a t _ h).replies b rfl, List.getElem?_concat_length]
    cases hx with
    | answered hpass => exact absurd rfl (hnot _)
    | refused hpass =>
      rw [repliesOf_generate, plannedStops_cons hask hread, hfinal, hlast]
      exact .inl ⟨trivial, r', rfl, hpass⟩

end Bodies

/-! ### Plan and execute -/

/-- The prompt for the plan of a conversation. -/
def planPrompt (sk : CycleSkeleton) (names : List String) (messages : List Message) : Except String String :=
  sk.ext.planPrompt (sk.tools.toolSummariesFor names) (renderConversation messages)

/-- The replies keep a plan run from an answer: there is no prompt, no plan in the first reply, or no answer in the
second one. -/
def PlanStops (sk : CycleSkeleton) (names : List String) (messages : List Message) :
    List (Except ModelError GenerateResponse) → Prop :=
  PlannedStops sk.ext (planPrompt sk names messages) sk.ext.parsePlan (fun _ => 0) fun _ _ => True

/-- A plan run breaks off on the replies, and starts no tool: they keep it from an answer, and the plan in the first one
has no tools. -/
def PlanBreaks (sk : CycleSkeleton) (names : List String) (messages : List Message) :
    List (Except ModelError GenerateResponse) → Prop :=
  PlannedStops sk.ext (planPrompt sk names messages) sk.ext.parsePlan (fun _ => 0) fun plan _ =>
    ∀ step ∈ executedSteps sk plan, Toolless sk names step

theorem runSteps_body (hroot : sk.AtRoot) (plan : Plan) {x : Except Core.AgentError (List (Nat × String))}
    (h : (runSteps sk names plan.steps).Plays t x) :
    BodyPlays 0 (fun _ => ∀ step ∈ executedSteps sk plan, Toolless sk names step) t x where
  replies b _ := by rw [(runSteps_plays hroot h).replies]; rfl
  started _ := (runSteps_plays hroot h).started
  fails := (runSteps_plays hroot h).fails

theorem plan_breaks_iff (hroot : sk.AtRoot) {messages : List Message} {x : Except Core.AgentError StrategyOutcome}
    (h : (PlanStrategy.runWithActiveTools sk messages names).Plays t x) :
    (∀ i, x ≠ .ok (.interrupted i)) ∧
      ((∃ e, x = .error e) ∧ ¬ Started t ↔ PlanBreaks sk names messages (repliesOf t)) :=
  (planned_plays hroot.depth h).breaks_iff fun plan _ _ => runSteps_body hroot plan

theorem plan_stops (hroot : sk.AtRoot) {messages : List Message} {x : Except Core.AgentError StrategyOutcome}
    (h : (PlanStrategy.runWithActiveTools sk messages names).Plays t x) (hnot : ∀ text, x ≠ .ok (.done text)) :
    PlanStops sk names messages (repliesOf t) ∨ ∃ y ∈ t, stepPanic y = true :=
  (planned_plays hroot.depth h).stops (fun plan _ _ => runSteps_body hroot plan) hnot

/-! ### Hierarchical planning -/

/-- The number of plans that a decomposition asks for. -/
def plansFor (sk : CycleSkeleton) (names : List String) (messages : List Message) (limit : Nat) (goals : List String) :
    Nat :=
  if askable sk.ext (planPrompt sk names messages) then min limit goals.length else 0

/-- The plan of a reply has no tools. -/
def Harmless (sk : CycleSkeleton) (names : List String) (r : Except ModelError GenerateResponse) : Prop :=
  ∀ plan, readPlanner sk.ext.parsePlan r = some plan → ∀ step ∈ executedSteps sk plan, Toolless sk names step

/-- The replies keep a hierarchical run from an answer: there is no prompt, no list of goals in the first reply, or no
answer in the reply after the plans for the goals. -/
def HierarchicalStops (sk : CycleSkeleton) (names : List String) (messages : List Message) (limit : Nat) :
    List (Except ModelError GenerateResponse) → Prop :=
  PlannedStops sk.ext (sk.ext.decomposePrompt (lastUserText messages)) sk.ext.parseGoals
    (plansFor sk names messages limit) fun _ _ => True

/-- A hierarchical run breaks off on the replies, and starts no tool: they keep it from an answer, and the plans for the
goals have no tools. -/
def HierarchicalBreaks (sk : CycleSkeleton) (names : List String) (messages : List Message) (limit : Nat) :
    List (Except ModelError GenerateResponse) → Prop :=
  PlannedStops sk.ext (sk.ext.decomposePrompt (lastUserText messages)) sk.ext.parseGoals
    (plansFor sk names messages limit) fun goals rest =>
      ∀ r ∈ rest.take (plansFor sk names messages limit goals), Harmless sk names r

section Goals

variable (hroot : sk.AtRoot)

include hroot

/-- A goal takes one reply, if there is a prompt for its plan, and runs the tools of the plan. -/
theorem runGoal_plays {messages : List Message} {goal : String} {x : Except Core.AgentError String}
    (h : (HierarchicalStrategy.runGoal sk messages names goal).Plays t x) :
    (askable sk.ext (planPrompt sk names messages) = false ∧ t = [] ∧ ∃ a, x = .ok a) ∨
      (askable sk.ext (planPrompt sk names messages) = true ∧ ∃ r, repliesOf t = [r] ∧
        (Started t ↔ ¬ Harmless sk names r) ∧ ∀ e, x = .error e → ∃ y ∈ t, stepPanic y = true) := by
  unfold HierarchicalStrategy.runGoal at h
  obtain ⟨e, h₁, -⟩ | ⟨planned, t₁, t₂, rfl, h₁, h₂⟩ := Prog.plays_bind.mp h
  · obtain ⟨y, -, hy⟩ := Prog.plays_attempt.mp h₁
    cases hy
  · obtain ⟨y, h₁, hy⟩ := Prog.plays_attempt.mp h₁
    cases hy
    obtain ⟨hask, rfl, e, rfl⟩ | ⟨hask, q, r, rfl, ⟨hread, e, rfl⟩ | ⟨plan, hread, rfl⟩⟩ := planner_plays hroot.depth h₁
    · obtain ⟨rfl, rfl⟩ := h₂
      exact .inl ⟨hask, rfl, _, rfl⟩
    · obtain ⟨rfl, rfl⟩ := h₂
      have hharmless : Harmless sk names r := fun plan hplan => by rw [hread] at hplan; cases hplan
      exact .inr ⟨hask, r, rfl, iff_of_false (by simp [Started, Request.dispatch?]) fun h => h hharmless, by simp⟩
    · have hharmless : Harmless sk names r ↔ ∀ step ∈ executedSteps sk plan, Toolless sk names step :=
        ⟨fun h => h plan hread, fun h plan' hplan => by cases hread.symm.trans hplan; exact h⟩
      obtain ⟨z, h₃, hx⟩ : ∃ z, (runSteps sk names plan.steps).Plays t₂ z ∧ ∀ e, x = .error e → z = .error e := by
        obtain ⟨e, h₃, rfl⟩ | ⟨results, t₃, t₄, rfl, h₃, rfl, rfl⟩ := Prog.plays_bind.mp h₂
        · exact ⟨_, h₃, fun e' he => by cases he; rfl⟩
        · rw [List.append_nil]
          exact ⟨_, h₃, fun e he => by cases he⟩
      have hsteps := runSteps_plays hroot h₃
      refine .inr ⟨hask, r, ?_, ?_, fun e he => ?_⟩
      · rw [List.singleton_append, repliesOf_generate, hsteps.replies]
      · rw [List.singleton_append, started_generate, hsteps.started, hharmless]
        rfl
      · exact (hsteps.fails e (hx e he)).imp fun y hy => ⟨List.mem_cons_of_mem _ hy.1, hy.2⟩

/-- The goals take one reply each, if there is a prompt for the plans, up to one that fails. -/
theorem runGoals_plays {messages : List Message} {goals : List (String × Nat)}
    {x : Except Core.AgentError (List (Nat × String))}
    (h : (HierarchicalStrategy.runGoals sk messages names goals).Plays t x) :
    let n := if askable sk.ext (planPrompt sk names messages) then goals.length else 0
    (repliesOf t).length ≤ n ∧ (∀ results, x = .ok results → (repliesOf t).length = n) ∧
      (Started t ↔ ∃ r ∈ repliesOf t, ¬ Harmless sk names r) ∧ ∀ e, x = .error e → ∃ y ∈ t, stepPanic y = true := by
  induction goals generalizing t x with
  | nil =>
    obtain ⟨rfl, rfl⟩ := h
    exact ⟨by simp [repliesOf], by simp [repliesOf], by simp [Started, repliesOf], by simp⟩
  | cons goal goals ih =>
    obtain ⟨goal, i⟩ := goal
    unfold HierarchicalStrategy.runGoals at h
    obtain ⟨e, h₁, rfl⟩ | ⟨result, t₁, t₂, rfl, h₁, h₂⟩ := Prog.plays_bind.mp h
    · obtain ⟨-, -, a, ha⟩ | ⟨hask, r, hr, hstarted, hfails⟩ := runGoal_plays hroot h₁
      · cases ha
      · rw [hr, hask, hstarted]
        exact ⟨by simp, by simp, by simp, fun _ _ => hfails e rfl⟩
    · obtain ⟨y, hy, hok, herror⟩ : ∃ y, (HierarchicalStrategy.runGoals sk messages names goals).Plays t₂ y ∧
          (∀ results, x = .ok results → ∃ rest, y = .ok rest) ∧ ∀ e, x = .error e → y = .error e := by
        obtain ⟨e, h₃, rfl⟩ | ⟨rest, t₃, t₄, rfl, h₃, rfl, rfl⟩ := Prog.plays_bind.mp h₂
        · exact ⟨_, h₃, by simp, fun e' he => by cases he; rfl⟩
        · rw [List.append_nil]
          exact ⟨_, h₃, fun _ _ => ⟨_, rfl⟩, by simp⟩
      obtain ⟨hle, hall, hlater, hfails⟩ := ih hy
      have hpanic : ∀ e, x = .error e → ∃ z ∈ t₁ ++ t₂, stepPanic z = true := fun e he =>
        (hfails e (herror e he)).imp fun z hz => ⟨List.mem_append_right _ hz.1, hz.2⟩
      obtain ⟨hask, rfl, -⟩ | ⟨hask, r, hr, hstarted, -⟩ := runGoal_plays hroot h₁
      · rw [hask] at hle hall ⊢
        refine ⟨hle, fun results hresults => ?_, hlater, hpanic⟩
        obtain ⟨rest, hrest⟩ := hok results hresults
        exact hall rest hrest
      · rw [hask] at hle hall ⊢
        rw [repliesOf_append, hr, started_append, hstarted, hlater]
        refine ⟨Nat.succ_le_succ hle, fun results hresults => ?_, by simp, hpanic⟩
        obtain ⟨rest, hrest⟩ := hok results hresults
        exact congrArg (· + 1) (hall rest hrest)

theorem runGoals_body {messages : List Message} (limit : Nat) (goals : List String)
    {x : Except Core.AgentError (List (Nat × String))}
    (h : (HierarchicalStrategy.runGoals sk messages names (goals.zipIdx.take limit)).Plays t x) :
    BodyPlays (plansFor sk names messages limit goals)
      (fun rest => ∀ r ∈ rest.take (plansFor sk names messages limit goals), Harmless sk names r) t x := by
  have hgoals := runGoals_plays hroot h
  rw [List.length_take, List.length_zipIdx] at hgoals
  obtain ⟨hle, hall, hstarted, hfails⟩ := hgoals
  have hle : (repliesOf t).length ≤ plansFor sk names messages limit goals := hle
  have hall : ∀ results, x = .ok results → (repliesOf t).length = plansFor sk names messages limit goals := hall
  refine ⟨hall, fun rest => ?_, hfails⟩
  rw [hstarted]
  simp only [not_forall, exists_prop]
  constructor
  · rintro ⟨r, hr, hharmful⟩
    refine ⟨r, ?_, hharmful⟩
    rw [List.take_append, List.take_of_length_le hle]
    exact List.mem_append_left _ hr
  · rintro ⟨r, hr, hharmful⟩
    cases x with
    | error e => exact hstarted.mp (started_of_panic (hfails e rfl))
    | ok results =>
      rw [← hall results rfl, List.take_left] at hr
      exact ⟨r, hr, hharmful⟩

theorem hierarchical_breaks_iff {messages : List Message} {limit : Nat}
    {x : Except Core.AgentError StrategyOutcome}
    (h : (HierarchicalStrategy.runWithActiveTools sk limit messages names).Plays t x) :
    (∀ i, x ≠ .ok (.interrupted i)) ∧
      ((∃ e, x = .error e) ∧ ¬ Started t ↔ HierarchicalBreaks sk names messages limit (repliesOf t)) :=
  (planned_plays hroot.depth h).breaks_iff fun goals _ _ => runGoals_body hroot limit goals

theorem hierarchical_stops {messages : List Message} {limit : Nat} {x : Except Core.AgentError StrategyOutcome}
    (h : (HierarchicalStrategy.runWithActiveTools sk limit messages names).Plays t x)
    (hnot : ∀ text, x ≠ .ok (.done text)) :
    HierarchicalStops sk names messages limit (repliesOf t) ∨ ∃ y ∈ t, stepPanic y = true :=
  (planned_plays hroot.depth h).stops (fun goals _ _ => runGoals_body hroot limit goals) hnot

end Goals

end

end AgentVerse
