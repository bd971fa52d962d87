import AgentVerse.Effects.Marks
import AgentVerse.Agent.Replies
import AgentVerse.Agent.Spending

/-!
# What the ReAct loop makes of replies

How the loop ends, read off the replies of the model: it starts a tool that one of its replies calls, or ends with the
first reply that is no batch of calls that the hook lets pass, or is out of iterations (`hitlLoop_plays`). Without
approvals the loop is the one with a hook that lets everything pass (`loop_eq_hitlLoop`).
-/

namespace AgentVerse

open Effects

/-! ### Traces -/

/-- A tool body was started. -/
def Started (t : List Event) : Prop := ∃ x ∈ t, x.1.dispatch? ≠ none

variable {t t' : List Event}

theorem started_append : Started (t ++ t') ↔ Started t ∨ Started t' := by
  simp [Started, or_and_right, exists_or]

theorem not_started_nil : ¬ Started [] := fun ⟨_, hx, _⟩ => by cases hx

theorem repliesOf_append : repliesOf (t ++ t') = repliesOf t ++ repliesOf t' := List.filterMap_append

theorem repliesOf_eq_nil (h : ∀ x ∈ t, x.1.callsModel = false) : repliesOf t = [] := by
  refine List.filterMap_eq_nil_iff.mpr fun ⟨q, r⟩ hx => ?_
  have hq := h _ hx
  cases q with
  | generate depth req =>
    cases depth with
    | zero => cases hq
    | succ depth => rfl
  | _ => rfl

theorem started_generate {req : GenerateRequest} {r : Except ModelError GenerateResponse} :
    Started (⟨.generate 0 req, r⟩ :: t) ↔ Started t := by
  simp [Started, Request.dispatch?]

theorem repliesOf_generate {req : GenerateRequest} {r : Except ModelError GenerateResponse} :
    repliesOf (⟨.generate 0 req, r⟩ :: t) = r :: repliesOf t := rfl

/-- A body panicked that was run outside of a batch, as those of the steps of a plan are. -/
def stepPanic : Event → Bool
  | ⟨.executeRaw d, .panicked⟩ => d.callId = none
  | _ => false

theorem started_of_panic (h : ∃ x ∈ t, stepPanic x = true) : Started t := by
  obtain ⟨⟨q, r⟩, hx, hpanic⟩ := h
  cases q with
  | executeRaw d => exact ⟨_, hx, by simp [Request.dispatch?]⟩
  | _ => cases hpanic

/-! ### Tool runs -/

/-- Tool runs that begin with the body of the tool. -/
def Starting (runTool : ToolRunner) : Prop :=
  ∀ tool d s x, (runTool tool d).Plays s x → Started s

theorem SubAgentExecutor.runTool_starting (executor : SubAgentExecutor) : Starting executor.runTool := by
  intro tool d s x h
  unfold SubAgentExecutor.runTool at h
  cases hbody : tool.body with
  | plain =>
    rw [hbody] at h
    obtain ⟨r, s', rfl, -⟩ := h
    exact ⟨_, List.mem_cons_self, by simp [Request.dispatch?]⟩
  | subagent =>
    rw [hbody] at h
    obtain ⟨r, s', rfl, -⟩ := h
    exact ⟨_, List.mem_cons_self, by simp [Request.dispatch?]⟩

/-- Outside of a batch only the body of a tool panics: the subagent tool does not. -/
theorem SubAgentExecutor.runTool_panics (executor : SubAgentExecutor) {tool : ErasedTool} {d : Dispatch}
    (h : (executor.runTool tool d).Plays t (.ok .panicked)) (hd : d.callId = none) : ∃ x ∈ t, stepPanic x = true := by
  unfold SubAgentExecutor.runTool at h
  cases hbody : tool.body with
  | plain =>
    rw [hbody] at h
    obtain ⟨r, s', rfl, rfl, hr⟩ := h
    cases hr
    exact ⟨_, List.mem_cons_self, decide_eq_true hd⟩
  | subagent =>
    rw [hbody] at h
    obtain ⟨r, s', rfl, h⟩ := h
    dsimp only at h
    cases hargs : executor.ext.parseSubAgentArgs d.args with
    | error e =>
      rw [hargs] at h
      obtain ⟨-, hx⟩ := h
      cases hx
    | ok args =>
      rw [hargs] at h
      obtain ⟨e, -⟩ | ⟨result, t₁, t₂, rfl, -, h₂⟩ := Prog.plays_bind.mp h
      · exact e.elim
      · cases result with
        | ok result =>
          obtain ⟨-, hx⟩ := h₂
          cases hx
        | error e =>
          obtain ⟨-, hx⟩ := h₂
          cases hx

/-- A skeleton of the agent itself: the model that it calls is the agent's, the runs of its tools begin with the body of
the tool and do not call that model, and outside of a batch it is the body that panics. -/
structure CycleSkeleton.AtRoot (sk : CycleSkeleton) : Prop where
  depth : sk.depth = 0
  starts : Starting sk.runTool
  quiet : ∀ tool d, (sk.runTool tool d).Only fun q => q.callsModel = false
  panics : ∀ tool d t, (sk.runTool tool d).Plays t (.ok .panicked) → d.callId = none → ∃ x ∈ t, stepPanic x = true

theorem Agent.skeleton_atRoot (agent : Agent) (tools : ToolRegistry) (n : Nat) : (agent.skeleton tools n).AtRoot where
  depth := rfl
  starts := agent.executor.runTool_starting
  quiet := runTool_quiet agent.executor
  panics _ _ _ := agent.executor.runTool_panics

/-! ### Batches -/

/-- The result of a call of which there is no tool. -/
def ToolCall.missing (c : ToolCall) : ToolCallResult := ⟨c.id, c.name, .error (.notFound c.name)⟩

namespace ToolRegistry

variable {reg : ToolRegistry} {runTool : ToolRunner} {depth : Nat} {calls : List ToolCall}

/-- None of the calls has a tool. -/
def Lacks (reg : ToolRegistry) (calls : List ToolCall) : Prop := ∀ c ∈ calls, reg.hasTool c.name = false

/-- Tasks are started if one of the calls has a tool, and all results are at hand otherwise. -/
theorem joinAll_plays (hstart : Starting runTool) {x : Except Empty (List ToolCallResult)}
    (h : (reg.joinAll runTool depth calls).Plays t x) :
    (reg.Lacks calls ∧ t = [] ∧ x = .ok (calls.map ToolCall.missing)) ∨ (¬ reg.Lacks calls ∧ Started t) := by
  induction calls generalizing t x with
  | nil => exact .inl ⟨fun c hc => (by cases hc), h⟩
  | cons c cs ih =>
    unfold joinAll at h
    obtain ⟨e, -⟩ | ⟨r, t₁, t₂, rfl, h₁, h₂⟩ := Prog.plays_bind.mp h
    · exact e.elim
    · unfold runTask at h₁
      cases hget : reg.get c.name with
      | some tool =>
        rw [hget] at h₁
        refine .inr ⟨fun hlacks => ?_, started_append.mpr (.inl (hstart _ _ _ _ h₁))⟩
        have hnone := hlacks c List.mem_cons_self
        rw [hasTool, hget] at hnone
        cases hnone
      | none =>
        rw [hget] at h₁
        obtain ⟨rfl, hr⟩ := h₁
        cases hr
        obtain ⟨e, -⟩ | ⟨rest, t₃, t₄, rfl, h₃, rfl, rfl⟩ := Prog.plays_bind.mp h₂
        · exact e.elim
        · have hhead : reg.hasTool c.name = false := by rw [hasTool, hget]; rfl
          obtain ⟨hlacks, rfl, hrest⟩ | ⟨hlacks, hstarted⟩ := ih h₃
          · cases hrest
            exact .inl ⟨List.forall_mem_cons.mpr ⟨hhead, hlacks⟩, rfl, rfl⟩
          · exact .inr ⟨fun hall => hlacks fun c hc => hall c (List.mem_cons_of_mem _ hc), by simpa using hstarted⟩

theorem executeMany_plays (hstart : Starting runTool) {x : Except Empty (List ToolCallResult)}
    (h : (reg.executeMany runTool depth calls).Plays t x) :
    (reg.Lacks calls ∧ ∃ schedule : Schedule calls, t = [⟨.joinSet depth calls, schedule⟩] ∧
        x = .ok (schedule.order.map ToolCall.missing)) ∨
      (¬ reg.Lacks calls ∧ Started t) := by
  obtain ⟨schedule, t', rfl, h⟩ := h
  have hsame : reg.Lacks schedule.order ↔ reg.Lacks calls :=
    ⟨fun h c hc => h c (schedule.perm.mem_iff.mpr hc), fun h c hc => h c (schedule.perm.mem_iff.mp hc)⟩
  obtain ⟨hlacks, rfl, rfl⟩ | ⟨hlacks, x, hx, hstarted⟩ := joinAll_plays hstart h
  · exact .inl ⟨hsame.mp hlacks, schedule, rfl, rfl⟩
  · exact .inr ⟨fun hall => hlacks (hsame.mpr hall), x, List.mem_cons_of_mem _ hx, hstarted⟩

end ToolRegistry

/-! ### Hooks -/

/-- The hook stops the calls of a kind, and what it does for it is neither a tool nor a call of the model. -/
structure HitlHook.Stops (hook : HitlHook) (kindOf : String → Json → Option InterruptKind) : Prop where
  passes : ∀ name args, kindOf name args = none → hook.checkTool name args = .ret none
  stops : ∀ name args kind, kindOf name args = some kind → ∀ t x, (hook.checkTool name args).Plays t x →
    (∃ id, x = .ok (some (id, .ofValue kind))) ∧ ¬ Started t ∧ repliesOf t = []

/-- The hook of a run without approvals. -/
def HitlHook.absent : HitlHook := ⟨fun _ _ => .ret none, []⟩

theorem HitlHook.absent_stops : HitlHook.absent.Stops fun _ _ => none :=
  ⟨fun _ _ _ => rfl, fun _ _ _ h => by cases h⟩

theorem HitlContext.hook_stops (ctx : HitlContext) : ctx.hook.Stops ctx.interruptKind where
  passes name args h := by
    show ctx.checkTool name args = _
    rw [checkTool, h]
  stops name args kind h t x hplays := by
    have hplays : (ctx.checkTool name args).Plays t x := hplays
    rw [checkTool, h] at hplays
    obtain ⟨e, -⟩ | ⟨r, t₁, t₂, rfl, h₁, rfl, rfl⟩ := Prog.plays_bind.mp hplays
    · exact e.elim
    · obtain ⟨reply, t', rfl, h₁⟩ := h₁
      cases reply with
      | ok id =>
        obtain ⟨rfl, hr⟩ := h₁
        cases hr
        exact ⟨⟨id, rfl⟩, by simp [Started, Request.dispatch?], rfl⟩
      | error e =>
        obtain ⟨sentinel, t'', rfl, rfl, hr⟩ := h₁
        cases hr
        exact ⟨⟨sentinel, rfl⟩, by simp [Started, Request.dispatch?], rfl⟩

/-- What is shown of calls: the kind of the first one that is stopped. -/
def shownKind (kindOf : String → Json → Option InterruptKind) (calls : List ToolCall) : Option InterruptKind :=
  calls.findSome? fun c => kindOf c.name c.args

section Hook

variable {reg : ToolRegistry} {runTool : ToolRunner} {depth : Nat} {hook : HitlHook}
  {kindOf : String → Json → Option InterruptKind} (hhook : hook.Stops kindOf) {calls : List ToolCall}

include hhook

theorem checkAll_passed (h : shownKind kindOf calls = none) : ToolRegistry.checkAll hook calls = .ret none := by
  induction calls with
  | nil => rfl
  | cons c cs ih =>
    rw [shownKind, List.findSome?_cons] at h
    cases hkind : kindOf c.name c.args with
    | some kind => rw [hkind] at h; cases h
    | none =>
      rw [hkind] at h
      unfold ToolRegistry.checkAll
      rw [hhook.passes _ _ hkind]
      exact ih h

theorem checkAll_stopped {kind : InterruptKind} (h : shownKind kindOf calls = some kind)
    {x : Except Empty (Option HitlInterruptResult)} (hplays : (ToolRegistry.checkAll hook calls).Plays t x) :
    (∃ id, x = .ok (some ⟨id, .ofValue kind⟩)) ∧ ¬ Started t ∧ repliesOf t = [] := by
  induction calls generalizing t x with
  | nil => cases h
  | cons c cs ih =>
    rw [shownKind, List.findSome?_cons] at h
    unfold ToolRegistry.checkAll at hplays
    cases hkind : kindOf c.name c.args with
    | some kind' =>
      rw [hkind] at h
      cases h
      obtain ⟨e, -⟩ | ⟨r, t₁, t₂, rfl, h₁, h₂⟩ := Prog.plays_bind.mp hplays
      · exact e.elim
      · obtain ⟨⟨id, hr⟩, hquiet⟩ := hhook.stops _ _ _ hkind _ _ h₁
        cases hr
        obtain ⟨rfl, rfl⟩ := h₂
        rw [List.append_nil]
        exact ⟨⟨id, rfl⟩, hquiet⟩
    | none =>
      rw [hkind] at h
      rw [hhook.passes _ _ hkind] at hplays
      exact ih h hplays

theorem executeManyHitl_stopped {ε : Type} {kind : InterruptKind} (h : shownKind kindOf calls = some kind)
    {x : Except ε (Except HitlInterruptResult (List ToolCallResult))}
    (hplays : (infallible (reg.executeManyHitl runTool depth hook calls)).Plays t x) :
    (∃ id, x = .ok (.error ⟨id, .ofValue kind⟩)) ∧ ¬ Started t ∧ repliesOf t = [] := by
  obtain ⟨y, h₀, rfl⟩ := Prog.plays_mapErr.mp hplays
  obtain ⟨e, -⟩ | ⟨r, t₁, t₂, rfl, h₁, h₂⟩ := Prog.plays_bind.mp h₀
  · exact e.elim
  · obtain ⟨⟨id, hr⟩, hquiet⟩ := checkAll_stopped hhook h h₁
    cases hr
    obtain ⟨rfl, rfl⟩ := h₂
    rw [List.append_nil]
    exact ⟨⟨id, rfl⟩, hquiet⟩

theorem executeManyHitl_plays {ε : Type} {sk : CycleSkeleton} (hroot : sk.AtRoot) (h : shownKind kindOf calls = none)
    {x : Except ε (Except HitlInterruptResult (List ToolCallResult))}
    (hplays : (infallible (sk.tools.executeManyHitl sk.runTool sk.depth hook calls)).Plays t x) :
    (∃ results, x = .ok (.ok results)) ∧ (Started t ↔ ¬ sk.tools.Lacks calls) ∧ repliesOf t = [] := by
  obtain ⟨y, h₀, rfl⟩ := Prog.plays_mapErr.mp hplays
  unfold ToolRegistry.executeManyHitl at h₀
  rw [checkAll_passed hhook h, Prog.ret_bind] at h₀
  have hquiet : (sk.tools.executeMany sk.runTool sk.depth calls).Only fun q => q.callsModel = false :=
    executeMany_meets (P := fun _ => True) (fun tool d _ => hroot.quiet tool d) rfl rfl fun _ _ _ => trivial
  obtain ⟨e, -⟩ | ⟨results, t₁, t₂, rfl, h₁, rfl, rfl⟩ := Prog.plays_bind.mp h₀
  · exact e.elim
  · rw [List.append_nil]
    refine ⟨⟨results, rfl⟩, ?_, repliesOf_eq_nil (hquiet.plays h₁)⟩
    obtain ⟨hlacks, schedule, rfl, -⟩ | ⟨hlacks, hstarted⟩ := ToolRegistry.executeMany_plays hroot.starts h₁
    · exact iff_of_false (by simp [Started, Request.dispatch?]) fun h => h hlacks
    · exact iff_of_true hstarted hlacks

end Hook

/-! ### ReAct -/

/-- What the ReAct loop makes of a reply. -/
inductive Reading where
  /-- An error, a text that the guardrail blocks, or nothing. -/
  | useless
  | answer
  | shown (kind : InterruptKind)
  | batch (calls : List ToolCall)

/-- The reading of a reply, where the calls of a kind are stopped. -/
def readReply (ext : Externals) (kindOf : String → Json → Option InterruptKind) :
    Except ModelError GenerateResponse → Reading
  | .error _ => .useless
  | .ok response =>
    if (ext.checkOutput response.asText).isSome then .useless
    else
      match actionFromResponse response with
      | .toolCalls calls =>
        match shownKind kindOf calls with
        | some kind => .shown kind
        | none => .batch calls
      | .done _ => .answer
      | .error _ => .useless

/-- The replies to a loop of so many iterations: it goes on with every batch, and ends with another reply or, without
one, when its iterations are used up. -/
inductive Converses (read : Except ModelError GenerateResponse → Reading) :
    Nat → List (Except ModelError GenerateResponse) → Option Reading → Prop
  | exhausted : Converses read 0 [] none
  | last {n : Nat} {r : Except ModelError GenerateResponse} (h : ∀ calls, read r ≠ .batch calls) :
      Converses read (n + 1) [r] (some (read r))
  | next {n : Nat} {r : Except ModelError GenerateResponse} {rs : List (Except ModelError GenerateResponse)}
      {v : Option Reading} {calls : List ToolCall} (h : read r = .batch calls) (hrest : Converses read n rs v) :
      Converses read (n + 1) (r :: rs) v

namespace Converses

variable {read : Except ModelError GenerateResponse → Reading} {n : Nat}
  {rs : List (Except ModelError GenerateResponse)} {v : Option Reading}

/-- The loop is out of iterations exactly when it got a batch in each. -/
theorem exhausted_iff (h : Converses read n rs v) :
    v = none ↔ rs.length = n ∧ ∀ r ∈ rs, ∃ calls, read r = .batch calls := by
  induction h with
  | exhausted => simp
  | @last n r hr =>
    refine ⟨fun h => (by cases h), fun ⟨_, hbatch⟩ => ?_⟩
    obtain ⟨calls, hcalls⟩ := hbatch r List.mem_cons_self
    exact absurd hcalls (hr calls)
  | @next n r rs v calls hr _ ih =>
    rw [ih, List.forall_mem_cons, List.length_cons, Nat.add_right_cancel_iff]
    exact ⟨fun ⟨hn, hrest⟩ => ⟨hn, ⟨calls, hr⟩, hrest⟩, fun ⟨hn, _, hrest⟩ => ⟨hn, hrest⟩⟩

/-- The loop ends with a reading exactly when it got it. -/
theorem ends_iff (h : Converses read n rs v) {w : Reading} (hw : ∀ calls, w ≠ .batch calls) :
    v = some w ↔ ∃ r ∈ rs, read r = w := by
  induction h with
  | exhausted => simp
  | @last n r hr => simp
  | @next n r rs v calls hr _ ih =>
    rw [ih]
    refine ⟨fun ⟨r', hr', hread⟩ => ⟨r', List.mem_cons_of_mem _ hr', hread⟩, fun ⟨r', hr', hread⟩ => ?_⟩
    rcases List.mem_cons.mp hr' with rfl | hr'
    · exact absurd (hread.symm.trans hr) (hw calls)
    · exact ⟨r', hr', hread⟩

end Converses

/-- The outcome of a loop that ends so. -/
inductive Yielding : Option Reading → Except Core.AgentError StrategyOutcome → Prop
  | exhausted {e : Core.AgentError} : Yielding none (.error e)
  | useless {e : Core.AgentError} : Yielding (some .useless) (.error e)
  | answer {text : String} : Yielding (some .answer) (.ok (.done text))
  | shown {kind : InterruptKind} {i : HitlInterrupt} (h : i.kindJson = .ofValue kind) :
      Yielding (some (.shown kind)) (.ok (.interrupted i))

/-- What a play of the loop comes to: it ends as its replies have it, and starts a tool if one of them calls one. -/
structure Unfolds (reg : ToolRegistry) (read : Except ModelError GenerateResponse → Reading) (n : Nat) (t : List Event)
    (x : Except Core.AgentError StrategyOutcome) : Prop where
  heard : ∃ v, Converses read n (repliesOf t) v ∧ Yielding v x
  started : Started t ↔ ∃ r ∈ repliesOf t, ∃ calls, read r = .batch calls ∧ ¬ reg.Lacks calls

namespace Unfolds

variable {reg : ToolRegistry} {read : Except ModelError GenerateResponse → Reading} {n : Nat}
  {x : Except Core.AgentError StrategyOutcome} {req : GenerateRequest} {r : Except ModelError GenerateResponse}

/-- A reply that is no batch ends the loop. -/
theorem last (hr : ∀ calls, read r ≠ .batch calls) (ht : ¬ Started t) (hreplies : repliesOf t = [])
    (hx : Yielding (some (read r)) x) : Unfolds reg read (n + 1) (⟨.generate 0 req, r⟩ :: t) x where
  heard := by
    rw [repliesOf_generate, hreplies]
    exact ⟨_, .last hr, hx⟩
  started := by
    rw [started_generate, repliesOf_generate, hreplies]
    refine iff_of_false ht ?_
    rintro ⟨r', hr', calls, hread, -⟩
    exact hr calls (List.mem_singleton.mp hr' ▸ hread)

/-- After a batch the loop goes on. -/
theorem next {calls : List ToolCall} (hr : read r = .batch calls) (ht : Started t ↔ ¬ reg.Lacks calls)
    (hreplies : repliesOf t = []) (h : Unfolds reg read n t' x) :
    Unfolds reg read (n + 1) (⟨.generate 0 req, r⟩ :: (t ++ t')) x where
  heard := by
    obtain ⟨v, hv, hx⟩ := h.heard
    rw [repliesOf_generate, repliesOf_append, hreplies, List.nil_append]
    exact ⟨v, .next hr hv, hx⟩
  started := by
    rw [started_generate, started_append, repliesOf_generate, repliesOf_append, hreplies, List.nil_append, ht, h.started,
      List.exists_mem_cons_iff, hr]
    simp

end Unfolds

section ReAct

variable {sk : CycleSkeleton} {names : List String}

theorem invokeRunner_plays {depth : Nat} (hdepth : depth = 0) {messages : List Message}
    {tools : Option (List ToolDefinition)} {x : Except Core.AgentError GenerateResponse}
    (h : (invokeRunner depth messages tools).Plays t x) :
    ∃ req r, t = [⟨.generate 0 req, r⟩] ∧ x = r.mapError Core.AgentError.model := by
  subst hdepth
  obtain ⟨r, t', rfl, h⟩ := h
  cases r with
  | ok response =>
    obtain ⟨rfl, rfl⟩ := h
    exact ⟨_, _, rfl, rfl⟩
  | error e =>
    obtain ⟨rfl, rfl⟩ := h
    exact ⟨_, _, rfl, rfl⟩

/-- A call of the model gives its response, if the guardrail lets it through. -/
theorem invoke_plays (hdepth : sk.depth = 0) {definitions : List ToolDefinition} (hdefs : sk.tools.toolDefinitionsFor names = .ok definitions)
    {buf : List Message} {x : Except Core.AgentError GenerateResponse} (h : (sk.invoke buf names).Plays t x) :
    ∃ req r, t = [⟨.generate 0 req, r⟩] ∧
      ((∃ e, x = .error e ∧ ∀ kindOf, readReply sk.ext kindOf r = .useless) ∨
        ∃ response, r = .ok response ∧ x = .ok response ∧ sk.ext.checkOutput response.asText = none) := by
  unfold CycleSkeleton.invoke at h
  rw [hdefs] at h
  obtain ⟨e, h₁, rfl⟩ | ⟨response, t₁, t₂, rfl, h₁, h₂⟩ := Prog.plays_bind.mp h
  · obtain ⟨req, r, rfl, hr⟩ := invokeRunner_plays hdepth h₁
    cases r with
    | ok response => cases hr
    | error e' => exact ⟨req, _, rfl, .inl ⟨e, rfl, fun _ => rfl⟩⟩
  · obtain ⟨req, r, rfl, hr⟩ := invokeRunner_plays hdepth h₁
    cases r with
    | error e' => cases hr
    | ok response' =>
      cases hr
      unfold checkOutputGuardrail at h₂
      cases hcheck : sk.ext.checkOutput response.asText with
      | some msg =>
        rw [hcheck] at h₂
        obtain ⟨rfl, rfl⟩ := h₂
        exact ⟨req, _, rfl, .inl ⟨_, rfl, fun _ => by simp [readReply, hcheck]⟩⟩
      | none =>
        rw [hcheck] at h₂
        obtain ⟨rfl, rfl⟩ := h₂
        exact ⟨req, _, rfl, .inr ⟨response, rfl, rfl, hcheck⟩⟩

/-- Without approvals the loop is the one with a hook that stops nothing. -/
theorem loop_eq_hitlLoop (remaining : Nat) (buf : List Message) :
    ReActStrategy.loop sk names remaining buf = ReActStrategy.hitlLoop sk names .absent remaining buf true := by
  induction remaining generalizing buf with
  | zero => rfl
  | succ remaining ih =>
    unfold ReActStrategy.loop ReActStrategy.hitlLoop
    congr 1
    funext response
    cases actionFromResponse response with
    | toolCalls calls =>
      dsimp only
      have hnone : shownKind (fun _ _ => none) calls = none := List.findSome?_eq_none_iff.mpr fun _ _ => rfl
      unfold ToolRegistry.executeManyHitl
      rw [checkAll_passed HitlHook.absent_stops hnone, Prog.ret_bind]
      dsimp only
      rw [infallible, infallible, Prog.mapErr_bind, Prog.bind_assoc]
      congr 1
      funext results
      exact ih _
    | done answer => rfl
    | error message => rfl

variable {hook : HitlHook} {kindOf : String → Json → Option InterruptKind}

/-- The loop starts the tools that its replies call, and ends with the first reply that is no batch. -/
theorem hitlLoop_plays (hroot : sk.AtRoot) (hhook : hook.Stops kindOf) {definitions : List ToolDefinition}
    (hdefs : sk.tools.toolDefinitionsFor names = .ok definitions) (remaining : Nat) (buf : List Message)
    {x : Except Core.AgentError StrategyOutcome}
    (h : (ReActStrategy.hitlLoop sk names hook remaining buf true).Plays t x) :
    Unfolds sk.tools (readReply sk.ext kindOf) remaining t x := by
  induction remaining generalizing buf t with
  | zero =>
    obtain ⟨rfl, rfl⟩ := h
    exact ⟨⟨none, .exhausted, .exhausted⟩, by simp [Started, repliesOf]⟩
  | succ remaining ih =>
    unfold ReActStrategy.hitlLoop at h
    obtain ⟨e, h₁, rfl⟩ | ⟨response, t₁, t₂, rfl, h₁, h₂⟩ := Prog.plays_bind.mp h
    · obtain ⟨req, r, rfl, ⟨e', he, hread⟩ | ⟨response, -, he, -⟩⟩ := invoke_plays hroot.depth hdefs h₁
      · exact .last (by simp [hread]) not_started_nil rfl (hread kindOf ▸ .useless)
      · cases he
    · obtain ⟨req, r, rfl, ⟨e', he, -⟩ | ⟨response', rfl, hx, hcheck⟩⟩ := invoke_plays hroot.depth hdefs h₁
      · cases he
      · cases hx
        cases haction : actionFromResponse response with
        | toolCalls calls =>
          rw [haction] at h₂
          dsimp only at h₂
          cases hkind : shownKind kindOf calls with
          | some kind =>
            have hread : readReply sk.ext kindOf (.ok response) = .shown kind := by
              simp [readReply, hcheck, haction, hkind]
            obtain ⟨e, h₃, rfl⟩ | ⟨results, t₃, t₄, rfl, h₃, h₄⟩ := Prog.plays_bind.mp h₂
            · obtain ⟨⟨id, hid⟩, -⟩ := executeManyHitl_stopped hhook hkind h₃
              cases hid
            · obtain ⟨⟨id, hid⟩, hstarted, hreplies⟩ := executeManyHitl_stopped hhook hkind h₃
              cases hid
              obtain ⟨rfl, rfl⟩ := h₄
              rw [List.append_nil]
              exact .last (by simp [hread]) hstarted hreplies (hread ▸ .shown rfl)
          | none =>
            have hread : readReply sk.ext kindOf (.ok response) = .batch calls := by
              simp [readReply, hcheck, haction, hkind]
            obtain ⟨e, h₃, rfl⟩ | ⟨results, t₃, t₄, rfl, h₃, h₄⟩ := Prog.plays_bind.mp h₂
            · obtain ⟨⟨results, hok⟩, -⟩ := executeManyHitl_plays hhook hroot hkind h₃
              cases hok
            · show Unfolds _ _ _ (_ :: (t₃ ++ t₄)) _
              obtain ⟨⟨results', hok⟩, hstarted, hreplies⟩ := executeManyHitl_plays hhook hroot hkind h₃
              cases hok
              exact .next hread hstarted hreplies (ih _ h₄)
        | done answer =>
          rw [haction] at h₂
          obtain ⟨rfl, rfl⟩ := h₂
          have hread : readReply sk.ext kindOf (.ok response) = .answer := by simp [readReply, hcheck, haction]
          exact .last (by simp [hread]) not_started_nil rfl (hread ▸ .answer)
        | error message =>
          rw [haction] at h₂
          obtain ⟨rfl, rfl⟩ := h₂
          have hread : readReply sk.ext kindOf (.ok response) = .useless := by simp [readReply, hcheck, haction]
          exact .last (by simp [hread]) not_started_nil rfl (hread ▸ .useless)

/-- The replies keep a ReAct run from an answer: the tools have no definitions, one of the replies is useless, the
iterations are used up, or at one of them an interrupt is shown, of a kind that counts. -/
def ReActStops (sk : CycleSkeleton) (names : List String) (read : Except ModelError GenerateResponse → Reading)
    (Counts : InterruptKind → Prop) (rs : List (Except ModelError GenerateResponse)) : Prop :=
  (∃ e, sk.tools.toolDefinitionsFor names = .error e) ∨ (∃ r ∈ rs, read r = .useless) ∨
    (rs.length = sk.maxIterations ∧ ∀ r ∈ rs, ∃ calls, read r = .batch calls) ∨
    ∃ r ∈ rs, ∃ kind, read r = .shown kind ∧ Counts kind

theorem reActStops_iff {read : Except ModelError GenerateResponse → Reading} (Counts : InterruptKind → Prop)
    {rs : List (Except ModelError GenerateResponse)} {v : Option Reading}
    (hdefs : ∀ e, sk.tools.toolDefinitionsFor names ≠ .error e) (hv : Converses read sk.maxIterations rs v) :
    ReActStops sk names read Counts rs ↔
      v = none ∨ v = some .useless ∨ ∃ kind, v = some (.shown kind) ∧ Counts kind := by
  unfold ReActStops
  rw [hv.exhausted_iff, hv.ends_iff (w := .useless) (by simp)]
  constructor
  · rintro (⟨e, he⟩ | huseless | hexhausted | ⟨r, hr, kind, hread, hcounts⟩)
    · exact absurd he (hdefs e)
    · exact .inr (.inl huseless)
    · exact .inl hexhausted
    · exact .inr (.inr ⟨kind, (hv.ends_iff (by simp)).mpr ⟨r, hr, hread⟩, hcounts⟩)
  · rintro (hexhausted | huseless | ⟨kind, hshown, hcounts⟩)
    · exact .inr (.inr (.inl hexhausted))
    · exact .inr (.inl huseless)
    · obtain ⟨r, hr, hread⟩ := (hv.ends_iff (by simp)).mp hshown
      exact .inr (.inr (.inr ⟨r, hr, kind, hread, hcounts⟩))

/-- A ReAct run breaks off on the replies, and starts no tool: no batch in them has a tool, and they keep it from an
answer, with an interrupt that is lost if there is one. -/
def ReActBreaks (sk : CycleSkeleton) (names : List String) (read : Except ModelError GenerateResponse → Reading)
    (Loses : InterruptKind → Prop) (rs : List (Except ModelError GenerateResponse)) : Prop :=
  (∀ r ∈ rs, ∀ calls, read r = .batch calls → sk.tools.Lacks calls) ∧ ReActStops sk names read Loses rs

/-- Without definitions of the tools the model is not asked. -/
theorem runHitl_plays (hroot : sk.AtRoot) (hhook : hook.Stops kindOf) (hrequired : hook.requiredToolNames = [])
    {messages : List Message} {x : Except Core.AgentError StrategyOutcome}
    (h : (ReActStrategy.runHitl sk messages names hook).Plays t x) :
    ((∃ e, sk.tools.toolDefinitionsFor names = .error e) ∧ t = [] ∧ ∃ e, x = .error e) ∨
      ((∀ e, sk.tools.toolDefinitionsFor names ≠ .error e) ∧
        Unfolds sk.tools (readReply sk.ext kindOf) sk.maxIterations t x) := by
  unfold ReActStrategy.runHitl at h
  rw [hrequired] at h
  cases hdefs : sk.tools.toolDefinitionsFor names with
  | ok definitions =>
    exact .inr ⟨fun e he => (by cases he), hitlLoop_plays hroot hhook hdefs _ _ h⟩
  | error e =>
    refine .inl ⟨⟨e, rfl⟩, ?_⟩
    cases hmax : sk.maxIterations with
    | zero =>
      rw [hmax] at h
      obtain ⟨rfl, rfl⟩ := h
      exact ⟨rfl, _, rfl⟩
    | succ n =>
      rw [hmax] at h
      have hinvoke : ∀ buf, sk.invoke buf names = .fail (.config ("invalid tool schema for active tools: " ++ e)) :=
        fun buf => by rw [CycleSkeleton.invoke, hdefs]
      unfold ReActStrategy.hitlLoop at h
      rw [hinvoke] at h
      obtain ⟨rfl, rfl⟩ := h
      exact ⟨rfl, _, rfl⟩

/-- A ReAct run that gives no answer was kept from it by the replies. -/
theorem runHitl_stops (hroot : sk.AtRoot) (hhook : hook.Stops kindOf) (hrequired : hook.requiredToolNames = [])
    {messages : List Message} {x : Except Core.AgentError StrategyOutcome}
    (h : (ReActStrategy.runHitl sk messages names hook).Plays t x) (hnot : ∀ text, x ≠ .ok (.done text)) :
    ReActStops sk names (readReply sk.ext kindOf) (fun _ => True) (repliesOf t) := by
  obtain ⟨hdefs, -⟩ | ⟨hdefs, hunfolds⟩ := runHitl_plays hroot hhook hrequired h
  · exact .inl hdefs
  · obtain ⟨v, hv, hyields⟩ := hunfolds.heard
    rw [reActStops_iff _ hdefs hv]
    cases hyields with
    | exhausted => exact .inl rfl
    | useless => exact .inr (.inl rfl)
    | answer => exact absurd rfl (hnot _)
    | shown => exact .inr (.inr ⟨_, rfl, trivial⟩)

end ReAct

end AgentVerse
