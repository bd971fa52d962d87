import Mathlib.Algebra.GroupWithZero.Nat
import AgentVerse.Agent.Calls
import AgentVerse.Agent.Footprint
import AgentVerse.Effects.Marks

/-!
# The token budget of a subagent

The loop of a subagent, with a mark at each addition of token counts. In release builds an addition wraps, in debug
builds it panics, so both do what the loop is meant to do as long as every marked addition stays below `2 ^ 32`
(`KeepsBudget`). Which plays these are is read off the counts that the responses report (`Countable`).
-/

namespace AgentVerse

open Effects

/-! ### The marked loop -/

/-- An addition of two token counts. -/
abbrev Addition := UInt32 × UInt32

/-- The sum is a `u32`. -/
def Addition.Exact (a : Addition) : Prop := a.1.toNat + a.2.toNat < 2 ^ 32

theorem Addition.exact_mk {a b : UInt32} : Addition.Exact (a, b) ↔ a.toNat + b.toNat < 2 ^ 32 := Iff.rfl

instance (a : Addition) : Decidable a.Exact := inferInstanceAs (Decidable (_ < _))

/-- The additions of `add_assign`. -/
def UsageStats.additions (a b : UsageStats) : List Addition :=
  [(a.inputTokens, b.inputTokens), (a.outputTokens, b.outputTokens), (a.cacheWriteTokens, b.cacheWriteTokens),
    (a.cacheReadTokens, b.cacheReadTokens)]

/-- A program with marks of the additions that it performs. -/
abbrev Counting (α : Type) := Marked Request Reply Addition SubAgentError α

/-- A play of such a program. -/
abbrev CountedPlay := List (Step (SumReply Reply fun _ : Addition => Unit))

/-- `total_usage += response.usage`. -/
def addUsage (a b : UsageStats) : Counting UsageStats := do
  Prog.mark (a.inputTokens, b.inputTokens)
  Prog.mark (a.outputTokens, b.outputTokens)
  Prog.mark (a.cacheWriteTokens, b.cacheWriteTokens)
  Prog.mark (a.cacheReadTokens, b.cacheReadTokens)
  return a.add b

theorem unmark_addUsage (a b : UsageStats) : (addUsage a b).unmark = .ret (a.add b) := rfl

/-- `runCycle`, marked. -/
def countedCycle (sk : CycleSkeleton) (budget : Budget) :
    (remaining : Nat) → List Message → UsageStats → (steps : Nat) → Counting SubAgentResult
  | remaining, buf, usage, steps => do
    Prog.mark (usage.inputTokens, usage.outputTokens)
    let tokensUsed := usage.inputTokens + usage.outputTokens
    if tokensUsed > budget.maxTokens then .fail (.tokenBudgetExceeded tokensUsed budget.maxTokens)
    else match remaining with
      | 0 => .fail (.stepBudgetExceeded steps)
      | remaining + 1 =>
        match sk.tools.toolDefinitionsFor sk.tools.toolNames with
        | .error e => .fail (.llm (.config ("invalid tool schema for active tools: " ++ e)))
        | .ok definitions => do
          let tools := if definitions.isEmpty then none else some definitions
          let response ← ((invokeRunner sk.depth buf tools).mapErr .llm).inl
          let usage ← addUsage usage response.usage
          ((checkOutputGuardrail sk.ext response.asText).mapErr .llm).inl
          match actionFromResponse response with
          | .toolCalls calls => do
            let results ← (infallible (sk.tools.executeMany sk.runTool sk.depth calls)).inl
            countedCycle sk budget remaining (buf ++ batchMessages sk.ext response calls results) usage (steps + 1)
          | .done answer => return ⟨answer, usage, steps + 1⟩
          | .error message => .fail (.llm (.model (.invalidResponse message)))

/-- The marks are all that the marked loop adds. -/
theorem unmark_countedCycle (sk : CycleSkeleton) (budget : Budget) (remaining : Nat) (buf : List Message)
    (usage : UsageStats) (steps : Nat) :
    (countedCycle sk budget remaining buf usage steps).unmark = runCycle sk budget remaining buf usage steps := by
  induction remaining generalizing buf usage steps with
  | zero =>
    unfold countedCycle runCycle
    simp only [Prog.unmark_mark_bind]
    split <;> rfl
  | succ remaining ih =>
    unfold countedCycle runCycle
    simp only [Prog.unmark_mark_bind]
    split
    · rfl
    cases hdefs : sk.tools.toolDefinitionsFor sk.tools.toolNames with
    | error e => simp only [CycleSkeleton.invoke, hdefs, Prog.mapErr_fail, Prog.fail_bind, Prog.unmark]
    | ok definitions =>
      simp only [CycleSkeleton.invoke, hdefs, Prog.mapErr_bind, Prog.unmark_bind, Prog.unmark_inl, Prog.bind_assoc,
        Prog.pure_eq, Prog.mapErr_ret, Prog.ret_bind]
      congr 1
      funext response
      simp only [unmark_addUsage, Prog.ret_bind]
      congr 1
      funext _
      cases actionFromResponse response with
      | toolCalls calls => simp only [Prog.unmark_bind, Prog.unmark_inl, ih]
      | done answer => rfl
      | error message => rfl

/-! ### What a play heard -/

def asksGenerate : Event → Bool
  | ⟨.generate .., _⟩ => true
  | _ => false

/-- The responses of the model in a play, in order. -/
def heard (es : List Event) : List GenerateResponse :=
  es.filterMap fun
    | ⟨.generate .., .ok response⟩ => some response
    | _ => none

/-- The sum of one count over some responses. -/
def total (count : UsageStats → UInt32) (rs : List GenerateResponse) : Nat :=
  (rs.map fun r => (count r.usage).toNat).sum

/-- The input and output tokens of some responses. -/
def tokens (rs : List GenerateResponse) : Nat := total (·.inputTokens) rs + total (·.outputTokens) rs

/-- A response after which the loop goes on. -/
def continues (ext : Externals) (r : GenerateResponse) : Bool :=
  (ext.checkOutput r.asText).isNone &&
    match actionFromResponse r with
    | .toolCalls _ => true
    | _ => false

theorem heard_eq_nil {es : List Event} (h : ∀ e ∈ es, asksGenerate e = false) : heard es = [] := by
  refine List.filterMap_eq_nil_iff.mpr fun ⟨q, r⟩ he => ?_
  have hsilent := h ⟨q, r⟩ he
  cases q with
  | generate depth req => cases hsilent
  | _ => rfl

/-- Plain tools ask nothing of the model. -/
theorem executeMany_silent {reg : ToolRegistry} {depth : Nat} {calls : List ToolCall} {t : CountedPlay}
    {x : Except SubAgentError (List ToolCallResult)}
    (h : ((infallible (reg.executeMany runPlainTool depth calls)).inl :
      Counting (List ToolCallResult)).Plays t x) :
    (∃ results, x = .ok results) ∧ marksOf t = [] ∧ ∀ e ∈ unmarked t, asksGenerate e = false := by
  obtain ⟨hmarks, hplays⟩ := Prog.plays_inl h
  obtain ⟨y, hy, rfl⟩ := Prog.plays_mapErr.mp hplays
  refine ⟨?_, hmarks, fun e he => ?_⟩
  · cases y with
    | ok results => exact ⟨results, rfl⟩
    | error e => exact e.elim
  · have honly : (reg.executeMany runPlainTool depth calls).Only fun q => ∀ d req, q ≠ .generate d req :=
      by
      refine executeMany_meets (P := fun _ => True) (fun t d _ => ?_) ?_ ?_ ?_
      · refine ⟨fun _ _ h => ?_, fun _ _ => trivial⟩
        cases h
      all_goals simp
    have := honly.plays hy e he
    obtain ⟨q, r⟩ := e
    cases q <;> simp_all [asksGenerate]

/-- The rounds of a play: the loop stops before it asks the model, the model fails, the response ends the loop, or the
loop goes on. -/
inductive Rounds (ext : Externals) (depth : Nat) (budget : Budget) :
    Nat → UsageStats → List Addition → List Event → Except SubAgentError SubAgentResult → Prop where
  | exceeded {remaining : Nat} {usage : UsageStats}
    (hover : usage.inputTokens + usage.outputTokens > budget.maxTokens) :
    Rounds ext depth budget remaining usage [(usage.inputTokens, usage.outputTokens)] []
      (.error (.tokenBudgetExceeded (usage.inputTokens + usage.outputTokens) budget.maxTokens))
  | stopped {remaining : Nat} {usage : UsageStats} (hle : usage.inputTokens + usage.outputTokens ≤ budget.maxTokens)
    (x : Except SubAgentError SubAgentResult) :
    Rounds ext depth budget remaining usage [(usage.inputTokens, usage.outputTokens)] [] x
  | failed {remaining : Nat} {usage : UsageStats} (hle : usage.inputTokens + usage.outputTokens ≤ budget.maxTokens)
    (req : GenerateRequest) (e : ModelError) (x : Except SubAgentError SubAgentResult) :
    Rounds ext depth budget (remaining + 1) usage [(usage.inputTokens, usage.outputTokens)]
      [⟨.generate depth req, .error e⟩] x
  | ended {remaining : Nat} {usage : UsageStats} (hle : usage.inputTokens + usage.outputTokens ≤ budget.maxTokens)
    (req : GenerateRequest) {r : GenerateResponse} (hr : continues ext r = false)
    (x : Except SubAgentError SubAgentResult) :
    Rounds ext depth budget (remaining + 1) usage
      ((usage.inputTokens, usage.outputTokens) :: usage.additions r.usage) [⟨.generate depth req, .ok r⟩] x
  | next {remaining : Nat} {usage : UsageStats} (hle : usage.inputTokens + usage.outputTokens ≤ budget.maxTokens)
    (req : GenerateRequest) {r : GenerateResponse} (hr : continues ext r = true) {es es' : List Event}
    (hes : ∀ e ∈ es, asksGenerate e = false) {marks : List Addition} {x : Except SubAgentError SubAgentResult}
    (hrest : Rounds ext depth budget remaining (usage.add r.usage) marks es' x) :
    Rounds ext depth budget (remaining + 1) usage
      ((usage.inputTokens, usage.outputTokens) :: (usage.additions r.usage ++ marks))
      (⟨.generate depth req, .ok r⟩ :: (es ++ es')) x

theorem plays_addUsage {a b : UsageStats} {β : Type} {f : UsageStats → Counting β} {t : CountedPlay}
    {x : Except SubAgentError β} (h : (addUsage a b >>= f).Plays t x) :
    ∃ t', (f (a.add b)).Plays t' x ∧ marksOf t = a.additions b ++ marksOf t' ∧ unmarked t = unmarked t' := by
  obtain ⟨_, _, rfl, _, _, rfl, _, _, rfl, _, t', rfl, h⟩ := h
  exact ⟨t', h, rfl, rfl⟩

/-- A call of the model fails, or gives a response. -/
private theorem plays_invokeRunner {depth : Nat} {buf : List Message} {tools : Option (List ToolDefinition)}
    {t : CountedPlay} {x : Except SubAgentError GenerateResponse}
    (h : (((invokeRunner depth buf tools).mapErr .llm).inl : Counting GenerateResponse).Plays t x) :
    marksOf t = [] ∧ ∃ req,
      (∃ e err, x = .error err ∧ unmarked t = [⟨.generate depth req, .error e⟩]) ∨
        ∃ r, x = .ok r ∧ unmarked t = [⟨.generate depth req, .ok r⟩] := by
  obtain ⟨hmarks, hplays⟩ := Prog.plays_inl h
  refine ⟨hmarks, ?_⟩
  obtain ⟨y, ⟨reply, t', ht, hy⟩, rfl⟩ := Prog.plays_mapErr.mp hplays
  rw [ht]
  cases reply with
  | error e =>
    obtain ⟨rfl, rfl⟩ := hy
    exact ⟨_, .inl ⟨e, _, rfl, rfl⟩⟩
  | ok r =>
    obtain ⟨rfl, rfl⟩ := hy
    exact ⟨_, .inr ⟨r, rfl, rfl⟩⟩

/-- The output guardrail asks nothing. -/
private theorem plays_guardrail {ext : Externals} {text : String} {t : CountedPlay} {x : Except SubAgentError Unit}
    (h : (((checkOutputGuardrail ext text).mapErr .llm).inl : Counting Unit).Plays t x) :
    t = [] ∧ ((ext.checkOutput text = none ∧ x = .ok ()) ∨
      ((ext.checkOutput text).isNone = false ∧ ∃ err, x = .error err)) := by
  unfold checkOutputGuardrail at h
  cases hc : ext.checkOutput text with
  | none =>
    simp only [hc] at h
    obtain ⟨rfl, rfl⟩ := h
    exact ⟨rfl, .inl ⟨rfl, rfl⟩⟩
  | some msg =>
    simp only [hc] at h
    obtain ⟨rfl, rfl⟩ := h
    exact ⟨rfl, .inr ⟨rfl, _, rfl⟩⟩

/-- Every play of the loop goes in rounds. -/
theorem plays_rounds {sk : CycleSkeleton} (hplain : sk.runTool = runPlainTool) {budget : Budget}
    {remaining : Nat} {buf : List Message} {usage : UsageStats} {steps : Nat} {t : CountedPlay}
    {x : Except SubAgentError SubAgentResult} (h : (countedCycle sk budget remaining buf usage steps).Plays t x) :
    Rounds sk.ext sk.depth budget remaining usage (marksOf t) (unmarked t) x := by
  -- A round is the check of the budget, a request, the guardrail on its reply, and what the reply asks for.
  induction remaining generalizing buf usage steps t x with
  | zero =>
    unfold countedCycle at h
    rw [Prog.plays_mark_bind] at h
    obtain ⟨t, rfl, h⟩ := h
    by_cases hover : usage.inputTokens + usage.outputTokens > budget.maxTokens
    · simp only [if_pos hover, Prog.plays_fail] at h
      obtain ⟨rfl, rfl⟩ := h
      exact .exceeded hover
    · simp only [if_neg hover, Prog.plays_fail] at h
      obtain ⟨rfl, rfl⟩ := h
      exact .stopped (UInt32.not_lt.mp hover) _
  | succ remaining ih =>
    unfold countedCycle at h
    rw [Prog.plays_mark_bind] at h
    obtain ⟨t, rfl, h⟩ := h
    by_cases hover : usage.inputTokens + usage.outputTokens > budget.maxTokens
    · simp only [if_pos hover, Prog.plays_fail] at h
      obtain ⟨rfl, rfl⟩ := h
      exact .exceeded hover
    have hle := UInt32.not_lt.mp hover
    simp only [if_neg hover] at h
    cases hdefs : sk.tools.toolDefinitionsFor sk.tools.toolNames with
    | error e =>
      simp only [hdefs, Prog.plays_fail] at h
      obtain ⟨rfl, rfl⟩ := h
      exact .stopped hle _
    | ok definitions =>
      simp only [hdefs] at h
      rcases Prog.plays_bind.mp h with ⟨e, he, rfl⟩ | ⟨r, t₁, t₂, rfl, h₁, h₂⟩
      · obtain ⟨hmarks, req, ⟨err, _, -, hun⟩ | ⟨r, hr, -⟩⟩ := plays_invokeRunner he
        · simpa [marksOf_inr, unmarked, hmarks, hun] using Rounds.failed hle req err _
        · cases hr
      obtain ⟨hmarks, req, ⟨_, _, hr, -⟩ | ⟨r', hr, hun⟩⟩ := plays_invokeRunner h₁
      · cases hr
      cases hr
      obtain ⟨t₃, h₃, hmarks₃, hun₃⟩ := plays_addUsage h₂
      simp only [marksOf_inr, unmarked, marksOf_append, unmarked_append, hmarks, hun, hmarks₃, hun₃, List.nil_append,
        List.singleton_append]
      rcases Prog.plays_bind.mp h₃ with ⟨e, he, rfl⟩ | ⟨_, t₄, t₅, rfl, h₄, h₅⟩
      · obtain ⟨rfl, ⟨-, hx⟩ | ⟨hrejected, -⟩⟩ := plays_guardrail he
        · cases hx
        · simpa [unmarked] using Rounds.ended hle req (by simp [continues, hrejected]) _
      obtain ⟨rfl, ⟨hpassed, -⟩ | ⟨-, _, hx⟩⟩ := plays_guardrail h₄
      swap
      · cases hx
      cases haction : actionFromResponse r with
      | toolCalls calls =>
        simp only [haction, hplain] at h₅
        rcases Prog.plays_bind.mp h₅ with ⟨e, he, rfl⟩ | ⟨results, t₆, t₇, rfl, h₆, h₇⟩
        · obtain ⟨⟨_, hx⟩, -, -⟩ := executeMany_silent he
          cases hx
        obtain ⟨-, hmarks₆, hsilent⟩ := executeMany_silent h₆
        simp only [List.nil_append, marksOf_append, unmarked_append, hmarks₆]
        exact .next hle req (by simp [continues, hpassed, haction]) hsilent (ih h₇)
      | done answer =>
        simp only [haction] at h₅
        obtain ⟨rfl, rfl⟩ := h₅
        simpa [unmarked] using Rounds.ended hle req (by simp [continues, haction]) _
      | error message =>
        simp only [haction] at h₅
        obtain ⟨rfl, rfl⟩ := h₅
        simpa [unmarked] using Rounds.ended hle req (by simp [continues, haction]) _

/-! ### Counts -/

@[simp] theorem heard_nil : heard [] = [] := rfl

@[simp] theorem heard_ok (depth : Nat) (req : GenerateRequest) (r : GenerateResponse) (es : List Event) :
    heard (⟨.generate depth req, .ok r⟩ :: es) = r :: heard es := rfl

@[simp] theorem heard_error (depth : Nat) (req : GenerateRequest) (e : ModelError) (es : List Event) :
    heard (⟨.generate depth req, .error e⟩ :: es) = heard es := rfl

theorem heard_silent {es : List Event} (h : ∀ e ∈ es, asksGenerate e = false) (es' : List Event) :
    heard (es ++ es') = heard es' := by
  have hnil := heard_eq_nil h
  unfold heard at hnil ⊢
  rw [List.filterMap_append, hnil, List.nil_append]

@[simp] theorem total_nil (count : UsageStats → UInt32) : total count [] = 0 := rfl

@[simp] theorem total_cons (count : UsageStats → UInt32) (r : GenerateResponse) (rs : List GenerateResponse) :
    total count (r :: rs) = (count r.usage).toNat + total count rs := rfl

theorem toNat_add_of_exact {a b : UInt32} (h : Addition.Exact (a, b)) : (a + b).toNat = a.toNat + b.toNat := by
  rw [UInt32.toNat_add, Nat.mod_eq_of_lt h]

/-- The counts of some responses, on top of those in `usage`: each of them, and the input and output tokens of the
responses after which the loop goes on together, stays in a `u32`. -/
structure CountableFrom (ext : Externals) (usage : UsageStats) (rs : List GenerateResponse) : Prop where
  input : usage.inputTokens.toNat + total (·.inputTokens) rs < 2 ^ 32
  output : usage.outputTokens.toNat + total (·.outputTokens) rs < 2 ^ 32
  cacheWrite : usage.cacheWriteTokens.toNat + total (·.cacheWriteTokens) rs < 2 ^ 32
  cacheRead : usage.cacheReadTokens.toNat + total (·.cacheReadTokens) rs < 2 ^ 32
  both : usage.inputTokens.toNat + usage.outputTokens.toNat + tokens (rs.filter (continues ext)) < 2 ^ 32

namespace CountableFrom

variable {ext : Externals} {usage : UsageStats} {r : GenerateResponse} {rs : List GenerateResponse}

theorem nil_iff : CountableFrom ext usage [] ↔ Addition.Exact (usage.inputTokens, usage.outputTokens) := by
  constructor
  · intro h
    exact h.both
  · intro h
    exact ⟨UInt32.toNat_lt _, UInt32.toNat_lt _, UInt32.toNat_lt _, UInt32.toNat_lt _, h⟩

/-- A response that ends the loop is added to the counts, which are then not compared with the limit any more. -/
theorem last_iff (hr : continues ext r = false) :
    CountableFrom ext usage [r] ↔ Addition.Exact (usage.inputTokens, usage.outputTokens) ∧
      ∀ a ∈ usage.additions r.usage, a.Exact := by
  have hfilter : [r].filter (continues ext) = [] := by simp [hr]
  constructor
  · intro h
    have hboth := h.both
    rw [hfilter] at hboth
    refine ⟨hboth, ?_⟩
    simp only [UsageStats.additions, List.forall_mem_cons, List.not_mem_nil, false_imp_iff, implies_true, and_true]
    exact ⟨h.input, h.output, h.cacheWrite, h.cacheRead⟩
  · rintro ⟨hhead, hadds⟩
    simp only [UsageStats.additions, List.forall_mem_cons, List.not_mem_nil, false_imp_iff, implies_true,
      and_true] at hadds
    obtain ⟨h₁, h₂, h₃, h₄⟩ := hadds
    exact ⟨h₁, h₂, h₃, h₄, by rw [hfilter]; exact hhead⟩

/-- A response after which the loop goes on. -/
theorem cons_iff (hr : continues ext r = true) :
    CountableFrom ext usage (r :: rs) ↔ Addition.Exact (usage.inputTokens, usage.outputTokens) ∧
      (∀ a ∈ usage.additions r.usage, a.Exact) ∧ CountableFrom ext (usage.add r.usage) rs := by
  have hfilter : (r :: rs).filter (continues ext) = r :: rs.filter (continues ext) := by simp [hr]
  simp only [UsageStats.additions, List.forall_mem_cons, List.not_mem_nil, false_imp_iff, implies_true, and_true]
  constructor
  · rintro ⟨h₁, h₂, h₃, h₄, h₅⟩
    rw [hfilter] at h₅
    simp only [tokens, total_cons] at h₁ h₂ h₃ h₄ h₅
    have hin : Addition.Exact (usage.inputTokens, r.usage.inputTokens) := Addition.exact_mk.mpr (by omega)
    have hout : Addition.Exact (usage.outputTokens, r.usage.outputTokens) := Addition.exact_mk.mpr (by omega)
    have hwrite : Addition.Exact (usage.cacheWriteTokens, r.usage.cacheWriteTokens) := Addition.exact_mk.mpr (by omega)
    have hread : Addition.Exact (usage.cacheReadTokens, r.usage.cacheReadTokens) := Addition.exact_mk.mpr (by omega)
    refine ⟨Addition.exact_mk.mpr (by omega), ⟨hin, hout, hwrite, hread⟩, ?_⟩
    constructor <;>
      simp only [UsageStats.add, tokens, toNat_add_of_exact hin, toNat_add_of_exact hout, toNat_add_of_exact hwrite,
        toNat_add_of_exact hread] <;> omega
  · rintro ⟨-, ⟨hin, hout, hwrite, hread⟩, h₁, h₂, h₃, h₄, h₅⟩
    simp only [UsageStats.add, tokens, toNat_add_of_exact hin, toNat_add_of_exact hout, toNat_add_of_exact hwrite,
      toNat_add_of_exact hread] at h₁ h₂ h₃ h₄ h₅
    refine ⟨?_, ?_, ?_, ?_, ?_⟩
    all_goals simp only [hfilter, tokens, total_cons]; omega

end CountableFrom

namespace Rounds

variable {ext : Externals} {depth : Nat} {budget : Budget} {remaining : Nat} {usage : UsageStats}
  {marks : List Addition} {es : List Event} {x : Except SubAgentError SubAgentResult}

/-- The model is asked once a round. -/
theorem calls_le (h : Rounds ext depth budget remaining usage marks es x) : es.countP asksGenerate ≤ remaining := by
  induction h with
  | exceeded => simp
  | stopped => simp
  | failed => simp [asksGenerate]
  | ended => simp [asksGenerate]
  | next _ _ _ hes _ ih =>
    rw [List.countP_cons_of_pos rfl, List.countP_append, List.countP_eq_zero.mpr fun e he => by simp [hes e he]]
    omega

theorem exact_iff (h : Rounds ext depth budget remaining usage marks es x) :
    (∀ a ∈ marks, a.Exact) ↔ CountableFrom ext usage (heard es) := by
  induction h with
  | exceeded hover => simpa using CountableFrom.nil_iff.symm
  | stopped hle x => simpa using CountableFrom.nil_iff.symm
  | failed hle req e x => simpa using CountableFrom.nil_iff.symm
  | ended hle req hr x =>
    rw [List.forall_mem_cons]
    exact (CountableFrom.last_iff hr).symm
  | next hle req hr hes hrest ih =>
    rw [List.forall_mem_cons, List.forall_mem_append, ih, heard_ok, heard_silent hes]
    exact (CountableFrom.cons_iff hr).symm

/-- The comparison with the limit is right when the sum is. -/
private theorem within {a b : UInt32} {rest : List Addition} (hle : a + b ≤ budget.maxTokens)
    (hexact : ∀ c ∈ (a, b) :: rest, Addition.Exact c) : a.toNat + b.toNat ≤ budget.maxTokens.toNat := by
  have hsum : (a + b).toNat = a.toNat + b.toNat := toNat_add_of_exact (hexact _ List.mem_cons_self)
  have := UInt32.le_iff_toNat_le.mp hle
  omega

private theorem forall_head_append {a : Addition} {adds rest : List Addition}
    (hexact : ∀ b ∈ a :: (adds ++ rest), b.Exact) :
    a.Exact ∧ (∀ b ∈ adds, b.Exact) ∧ ∀ b ∈ rest, b.Exact := by
  rw [List.forall_mem_cons, List.forall_mem_append] at hexact
  exact hexact

/-- The counts after a response. -/
private theorem used_add {u : UsageStats} (hexact : ∀ a ∈ usage.additions u, a.Exact) :
    (usage.add u).inputTokens.toNat = usage.inputTokens.toNat + u.inputTokens.toNat ∧
      (usage.add u).outputTokens.toNat = usage.outputTokens.toNat + u.outputTokens.toNat := by
  refine ⟨toNat_add_of_exact (hexact _ ?_), toNat_add_of_exact (hexact _ ?_)⟩
  all_goals simp [UsageStats.additions]

/-- While the additions are exact, the model is asked only when the tokens so far are within the limit. -/
theorem stops (h : Rounds ext depth budget remaining usage marks es x) (hexact : ∀ a ∈ marks, a.Exact)
    {pre post : List Event} {e : Event} (hes : es = pre ++ e :: post) (he : asksGenerate e = true) :
    usage.inputTokens.toNat + usage.outputTokens.toNat + tokens (heard pre) ≤ budget.maxTokens.toNat := by
  induction h generalizing pre with
  | exceeded => simp at hes
  | stopped => simp at hes
  | failed hle req err x =>
    cases pre with
    | nil => exact within hle hexact
    | cons e' pre => simp at hes
  | ended hle req hr x =>
    cases pre with
    | nil => exact within hle hexact
    | cons e' pre => simp at hes
  | @next remaining usage hle req r hr es es' hsilent marks x hrest ih =>
    cases pre with
    | nil => exact within hle hexact
    | cons e' pre =>
      rw [List.cons_append] at hes
      obtain ⟨rfl, htail⟩ := List.cons.inj hes
      obtain ⟨-, hadds, hmarks⟩ := forall_head_append hexact
      obtain ⟨hin, hout⟩ := used_add hadds
      obtain ⟨pre', rfl, hrest⟩ : ∃ pre', pre = es ++ pre' ∧ es' = pre' ++ e :: post := by
        rcases List.append_eq_append_iff.mp htail with h | ⟨c, rfl, hc⟩
        · exact h
        cases c with
        | nil => exact ⟨[], by simp, hc.symm⟩
        | cons e' c =>
          obtain ⟨rfl, -⟩ := List.cons.inj hc
          exact absurd he (by simp [hsilent e (by simp)])
      have := ih hmarks hrest
      rw [heard_ok, heard_silent hsilent]
      simp only [tokens, total_cons] at this ⊢
      omega

/-- While the additions are exact, the tokens that exceed the limit are reported, unless the last response ended the
loop. -/
theorem reports (h : Rounds ext depth budget remaining usage marks es x) (hexact : ∀ a ∈ marks, a.Exact)
    (hlast : ∀ r ∈ (heard es).getLast?, continues ext r = true)
    (hover : budget.maxTokens.toNat < usage.inputTokens.toNat + usage.outputTokens.toNat + tokens (heard es)) :
    ∃ used, x = .error (.tokenBudgetExceeded used budget.maxTokens) ∧
      used.toNat = usage.inputTokens.toNat + usage.outputTokens.toNat + tokens (heard es) := by
  induction h with
  | exceeded => exact ⟨_, rfl, toNat_add_of_exact (hexact _ List.mem_cons_self)⟩
  | stopped hle x =>
    have hwithin := within hle hexact
    simp only [heard_nil, tokens, total_nil] at hover
    omega
  | failed hle req err x =>
    have hwithin := within hle hexact
    simp only [heard_error, heard_nil, tokens, total_nil] at hover
    omega
  | ended hle req hr x => simp [hr] at hlast
  | @next remaining usage hle req r hr es es' hsilent marks x hrest ih =>
    obtain ⟨-, hadds, hmarks⟩ := forall_head_append hexact
    obtain ⟨hin, hout⟩ := used_add hadds
    rw [heard_ok, heard_silent hsilent] at hlast hover ⊢
    simp only [tokens, total_cons] at hover ih ⊢
    have hlast' : ∀ r' ∈ (heard es').getLast?, continues ext r' = true := by
      intro r' hr'
      rw [Option.mem_def] at hr'
      exact hlast r' (by simp [List.getLast?_cons, hr'])
    obtain ⟨used, hx, hused⟩ := ih hmarks hlast' (by omega)
    exact ⟨used, hx, by omega⟩

end Rounds

/-! ### The budget -/

/-- What the loop does for its budget: it asks the model at most `maxSteps` times, and never once the responses so far
have more tokens than the limit; unless the last response ended the loop, it reports that condition; and no addition
of token counts overflows. -/
structure KeepsBudget (ext : Externals) (budget : Budget) (marks : List Addition) (es : List Event)
    (x : Except SubAgentError SubAgentResult) : Prop where
  calls : es.countP asksGenerate ≤ budget.maxSteps
  stops : ∀ pre e post, es = pre ++ e :: post → asksGenerate e = true → tokens (heard pre) ≤ budget.maxTokens.toNat
  reports : budget.maxTokens.toNat < tokens (heard es) → (∀ r ∈ (heard es).getLast?, continues ext r = true) →
    ∃ used, x = .error (.tokenBudgetExceeded used budget.maxTokens) ∧ used.toNat = tokens (heard es)
  exact : ∀ a ∈ marks, a.Exact

/-- The counts of the responses fit in a `u32`: each count over all responses, and the input and output tokens
together over the responses after which the loop goes on. -/
structure Countable (ext : Externals) (rs : List GenerateResponse) : Prop where
  input : total (·.inputTokens) rs < 2 ^ 32
  output : total (·.outputTokens) rs < 2 ^ 32
  cacheWrite : total (·.cacheWriteTokens) rs < 2 ^ 32
  cacheRead : total (·.cacheReadTokens) rs < 2 ^ 32
  both : tokens (rs.filter (continues ext)) < 2 ^ 32

theorem countableFrom_zero {ext : Externals} {rs : List GenerateResponse} :
    CountableFrom ext .zero rs ↔ Countable ext rs := by
  constructor
  · rintro ⟨h₁, h₂, h₃, h₄, h₅⟩
    simp only [UsageStats.zero, UInt32.toNat_zero, Nat.zero_add] at h₁ h₂ h₃ h₄ h₅
    exact ⟨h₁, h₂, h₃, h₄, h₅⟩
  · rintro ⟨h₁, h₂, h₃, h₄, h₅⟩
    constructor <;> simp only [UsageStats.zero, UInt32.toNat_zero, Nat.zero_add] <;> assumption

/-- The loop of a subagent keeps its budget exactly in the plays whose token counts fit. -/
theorem subagent_budget (budget : Budget) (buf : List Message) :
    (∀ sk remaining usage steps,
      (countedCycle sk budget remaining buf usage steps).unmark = runCycle sk budget remaining buf usage steps) ∧
    ∀ (ext : Externals) (tools : ToolRegistry) (depth maxIterations : Nat) (t : CountedPlay)
      (x : Except SubAgentError SubAgentResult),
      (countedCycle ⟨ext, tools, runPlainTool, depth, maxIterations⟩ budget budget.maxSteps buf .zero 0).Plays t x →
        (KeepsBudget ext budget (marksOf t) (unmarked t) x ↔ Countable ext (heard (unmarked t))) := by
  refine ⟨fun sk remaining => unmark_countedCycle sk budget remaining buf,
    fun ext tools depth maxIterations t x h => ?_⟩
  have hrounds := plays_rounds rfl h
  rw [← countableFrom_zero, ← hrounds.exact_iff]
  constructor
  · exact KeepsBudget.exact
  · intro hexact
    refine ⟨hrounds.calls_le, fun pre e post hes he => ?_, fun hover hlast => ?_, hexact⟩
    · simpa [UsageStats.zero] using hrounds.stops hexact hes he
    · simpa [UsageStats.zero] using hrounds.reports hexact hlast (by simpa [UsageStats.zero] using hover)

/-! ### Counts that wrap -/

/-- A response that calls a tool and reports `2 ^ 32 - 1` input tokens and one output token. -/
def hugeResponse : GenerateResponse := ⟨[.toolUse "c" "search" .null], ⟨4294967295, 1, 0, 0⟩⟩

def finalResponse : GenerateResponse := ⟨[.text "done"], .zero⟩

/-- A subagent without tools, with a budget of three steps and a hundred tokens. -/
def bareCycle : Counting SubAgentResult :=
  countedCycle ⟨.plain, ⟨[], .nil⟩, runPlainTool, 1, 3⟩ ⟨3, 100⟩ 3 [] .zero 0

def hugeCall : ToolCall := ⟨"c", "search", .null⟩

/-- The first response has more tokens than the limit, but their sum wraps to zero: the model is asked again, and the
subagent succeeds. -/
theorem budget_wraps :
    ∃ t result, bareCycle.Plays t (.ok result) ∧
      (∃ pre e, unmarked t = pre ++ [e] ∧ asksGenerate e = true ∧ heard pre = [hugeResponse] ∧
        100 < tokens (heard pre)) ∧
      (4294967295, 1) ∈ marksOf t ∧ ¬ Addition.Exact (4294967295, 1) ∧
      ¬ KeepsBudget .plain ⟨3, 100⟩ (marksOf t) (unmarked t) (.ok result) := by
  refine ⟨_, _, ⟨(), _, rfl, .ok hugeResponse, _, rfl, (), _, rfl, (), _, rfl, (), _, rfl, (), _, rfl,
    ⟨[hugeCall], .refl _⟩, _, rfl, (), _, rfl, .ok finalResponse, _, rfl, (), _, rfl, (), _, rfl, (), _, rfl,
    (), _, rfl, rfl, rfl⟩, ⟨[_, _], _, rfl, rfl, rfl, by decide⟩, by decide, by decide, fun h => ?_⟩
  exact absurd (h.exact (4294967295, 1) (by decide)) (by decide)

theorem subagent_budget_kept :
    ∃ t result, bareCycle.Plays t (.ok result) ∧ heard (unmarked t) = [finalResponse] ∧
      (KeepsBudget .plain ⟨3, 100⟩ (marksOf t) (unmarked t) (.ok result) ↔ Countable .plain [finalResponse]) := by
  have hplay : ∃ t result, bareCycle.Plays t (.ok result) ∧ heard (unmarked t) = [finalResponse] :=
    ⟨_, _, ⟨(), _, rfl, .ok finalResponse, _, rfl, (), _, rfl, (), _, rfl, (), _, rfl, (), _, rfl, rfl, rfl⟩, rfl⟩
  obtain ⟨t, result, ht, hheard⟩ := hplay
  refine ⟨t, result, ht, hheard, ?_⟩
  rw [← hheard]
  exact (subagent_budget ⟨3, 100⟩ []).2 .plain ⟨[], .nil⟩ 1 3 t (.ok result) ht

end AgentVerse
