import AgentVerse.Agent.Contents
import AgentVerse.Agent.Replies
import AgentVerse.Agent.Settlement
import AgentVerse.Guardrails.Output

/-!
# What gets past the output guardrail

A strategy answers with a text of a response that passed the guardrail: the plan strategies with the text that was
checked, the ReAct strategy with the texts in it that are not blank. So no answer of an agent, and nothing that it keeps
as an answer, has a social security number or an e-mail address, and one with a card number has it over several lines, in
every interleaving of calls (`answers_filtered`). The texts about phase gates are not checked.
-/

namespace AgentVerse

open Effects OutputGuard Pattern

/-- A text that a strategy makes of a response that passed the guardrail. -/
def Released (ext : Externals) (kind : StrategyKind) (text : String) : Prop :=
  ∃ response : GenerateResponse, ext.checkOutput response.asText = none ∧
    match kind with
    | .react => actionFromResponse response = .done text
    | .plan | .hierarchical => text = response.asText

/-- The outcome of a strategy run is such a text, if it is a text. -/
def Releases {ε : Type} (ext : Externals) (kind : StrategyKind) (r : Except ε StrategyOutcome) : Prop :=
  ∀ text, r = .ok (.done text) → Released ext kind text

/-- The result of a program, whatever it is answered. -/
abbrev Yields {ε α : Type} (p : M ε α) (P : Except ε α → Prop) : Prop :=
  p.Meets (fun _ _ => True) (fun _ => True) P

/-! ### Strategies -/

section Strategies

variable (sk : CycleSkeleton)

theorem checkOutputGuardrail_yields (ext : Externals) (text : String) :
    Yields (checkOutputGuardrail ext text) fun r => ∀ u, r = .ok u → ext.checkOutput text = none := by
  unfold checkOutputGuardrail
  cases h : ext.checkOutput text with
  | none => exact fun _ _ => rfl
  | some msg => exact fun u hu => by cases hu

theorem CycleSkeleton.invoke_yields (messages : List Message) (names : List String) :
    Yields (sk.invoke messages names) fun r => ∀ response, r = .ok response →
      sk.ext.checkOutput response.asText = none := by
  unfold CycleSkeleton.invoke
  cases sk.tools.toolDefinitionsFor names with
  | error e => exact fun response h => by cases h
  | ok definitions =>
    refine Prog.Meets.bind (meets_any _) (fun response _ => ?_) fun e _ response h => by cases h
    refine Prog.Meets.bind (checkOutputGuardrail_yields ..) (fun u hu => ?_) fun e _ response h => by cases h
    intro response' h
    cases h
    exact hu u rfl

/-- The plan strategies answer with the text that was checked. -/
theorem synthesize_yields {kind : StrategyKind} (hkind : kind ≠ .react) (system user : String) :
    Yields (synthesize sk system user) (Releases sk.ext kind) := by
  refine Prog.Meets.bind (meets_any _) (fun response _ => ?_) fun e _ text h => by cases h
  refine Prog.Meets.bind (checkOutputGuardrail_yields ..) (fun u hu => ?_) fun e _ text h => by cases h
  intro text h
  cases h
  refine ⟨response, hu u rfl, ?_⟩
  cases kind with
  | react => exact absurd rfl hkind
  | plan | hierarchical => rfl

theorem runWithActiveTools_yields (kind : StrategyKind) (messages : List Message) (names : List String) :
    Yields ((buildStrategy kind sk).runWithActiveTools messages names) (Releases sk.ext kind) := by
  cases kind with
  | react => exact loop_answers sk (fun buf => sk.invoke_yields buf names) ..
  | plan =>
    refine Prog.Meets.bind (meets_any _) (fun plan _ => ?_) fun e _ text h => by cases h
    refine Prog.Meets.bind (meets_any _) (fun results _ => ?_) fun e _ text h => by cases h
    exact synthesize_yields sk (by decide) ..
  | hierarchical =>
    refine Prog.Meets.bind (meets_any _) (fun goals _ => ?_) fun e _ text h => by cases h
    refine Prog.Meets.bind (meets_any _) (fun results _ => ?_) fun e _ text h => by cases h
    exact synthesize_yields sk (by decide) ..

theorem runHitl_yields (kind : StrategyKind) (messages : List Message) (names : List String) (hook : HitlHook) :
    Yields ((buildStrategy kind sk).runHitl messages names hook) (Releases sk.ext kind) := by
  cases kind with
  | react => exact hitlLoop_answers sk (fun buf => sk.invoke_yields buf names) ..
  | plan => exact runWithActiveTools_yields sk .plan messages names
  | hierarchical => exact runWithActiveTools_yields sk .hierarchical messages names

end Strategies

/-! ### Calls -/

/-- The text of an answer. -/
def AgentOutput.text? : AgentOutput → Option String
  | .done text => some text
  | .interrupted .. => none

def ApiResult.text? : ApiResult → Option String
  | .output out => out.text?
  | .text answer => some answer
  | _ => none

/-- The text by which a resume answers that decides on a phase gate. -/
def GateAnswer : ApiCall → String → Prop
  | .resume _ _ _ (.rejected reason), text => text = "Phase transition rejected: " ++ reason
  | .resume .., text => ∃ nextSkill, text = "Phase transition to " ++ nextSkill ++ " approved."
  | _, _ => False

namespace Agent

variable (agent : Agent) {sid : SessionId}

/-- A text that a run of the agent makes of a response that passed the guardrail. -/
def Vetted (text : String) : Prop :=
  ∃ kind, Released agent.ext kind text ∧ (agent.strategyRouter = none → kind = agent.kind)

/-- An answer in a conversation is such a text. -/
def VettedMessage (m : Message) : Prop := m.role = .assistant → ∃ text, m = .ofText .assistant text ∧ agent.Vetted text

theorem runStrategy_yields {strategy : RunStrategy} (hs : agent.MayRun strategy) (messages : List Message)
    (names : List String) (ctx : HitlPolicy → HitlContext) :
    Yields (agent.runStrategy strategy messages names ctx) fun r => ∀ text, r = .ok (.done text) → agent.Vetted text := by
  obtain ⟨kind, tools, n, rfl, hkind⟩ := hs
  have hvetted : ∀ {r : Except AgentError StrategyOutcome}, Releases agent.ext kind r →
      ∀ text, r = .ok (.done text) → agent.Vetted text := by
    intro r hr text h
    refine ⟨kind, hr text h, fun hrouter => ?_⟩
    rcases hkind with ⟨hkind, -⟩ | ⟨hsome, -⟩
    · exact hkind
    · rw [hrouter] at hsome
      cases hsome
  refine Prog.Meets.mono (P := Releases agent.ext kind) ?_ (fun _ _ h => h) (fun _ h => h) fun _ => hvetted
  unfold runStrategy
  cases agent.hitl with
  | some policy => exact llm_answers (runHitl_yields (agent.skeleton tools n) kind ..)
  | none => exact llm_answers (runWithActiveTools_yields (agent.skeleton tools n) kind ..)

theorem runPrepared_yields (userId : String) (p : Prepared) :
    Yields (agent.runPrepared userId sid p) fun r => ∀ text, r = .ok (.done text) → agent.Vetted text := by
  refine Prog.Meets.bind (meets_any _) (fun longTerm _ => ?_) fun e _ text h => by cases h
  refine Prog.Meets.bind (Prog.Meets.mono (agent.strategyForInvoke_meets (W := fun _ => False) p.input
    (agent.activeToolNames p.skillCtx)) (fun _ _ h => h) (fun _ _ => trivial) fun _ h => h) (fun strategy hs => ?_)
    fun e _ text h => by cases h
  exact agent.runStrategy_yields (hs strategy rfl) ..

theorem handleToolInterrupt_yields (interrupt : HitlInterrupt) (skillCtx : Option SkillContext) :
    Yields (handleToolInterrupt sid interrupt skillCtx) fun r => ∀ out, r = .ok out → out.text? = none := by
  unfold handleToolInterrupt
  cases interrupt.kindJson.fromStr with
  | error e => exact fun out h => by cases h
  | ok kind =>
    refine Prog.Meets.bind (meets_any _) (fun _ _ out h => ?_) fun e _ out h => by cases h
    cases h
    rfl

theorem continueRun_yields (state : InterruptedState) (messages : List Message) :
    Yields (agent.continueRun sid state messages) fun r => ∀ out text, r = .ok out → out.text? = some text →
      agent.Vetted text := by
  refine Prog.Meets.bind (agent.runStrategy_yields (agent.strategyForResume_mayRun state.activeToolNames) ..)
    (fun outcome houtcome => ?_) fun e _ out text h => by cases h
  cases outcome with
  | done text =>
    intro out text' h htext
    cases h
    cases htext
    exact houtcome text rfl
  | interrupted interrupt =>
    refine Prog.Meets.mono (handleToolInterrupt_yields interrupt _) (fun _ _ h => h) (fun _ h => h) ?_
    intro r hr out text h htext
    rw [hr out h] at htext
    cases htext

theorem resume_yields (userId : String) (id : ApprovalId) (decision : ApprovalDecision) :
    Yields (agent.resume userId sid id decision) fun r => ∀ out text, r = .ok out → out.text? = some text →
      agent.Vetted text ∨ GateAnswer (.resume userId sid id decision) text := by
  refine Prog.Meets.bind (meets_any _) (fun resolved _ => ?_) fun e _ out text h => by cases h
  refine Prog.Meets.bind (meets_any _) (fun _ _ => ?_) fun e _ out text h => by cases h
  have hcontinue : ∀ state history pending,
      Yields (agent.resumeToolCallOrCheckpoint sid state decision history pending) fun r => ∀ out text, r = .ok out →
        out.text? = some text → agent.Vetted text ∨ GateAnswer (.resume userId sid id decision) text := by
    intro state history pending
    refine Prog.Meets.bind (meets_any _) (fun observation _ => ?_) fun e _ out text h => by cases h
    exact Prog.Meets.mono (agent.continueRun_yields state _) (fun _ _ h => h) (fun _ h => h)
      fun r hr out text h htext => .inl (hr out text h htext)
  unfold resumeAct
  split
  · -- The decision on a phase gate is answered without a run.
    unfold resumePhaseGate
    split
    · intro out text h htext
      cases h
      cases htext
      exact .inr rfl
    · rename_i hrejected
      refine Prog.Meets.bind (meets_any _) (fun transition _ => ?_) fun e _ out text h => by cases h
      refine Prog.Meets.bind (meets_any _) (fun _ _ out text h htext => ?_) fun e _ out text h => by cases h
      cases h
      cases htext
      cases decision with
      | rejected reason => exact absurd rfl (hrejected reason)
      | approved | modified => exact .inr ⟨transition.nextSkill, rfl⟩
  · exact hcontinue ..
  · exact fun out text h => by cases h

theorem invokeStateless_yields (input : String) :
    Yields (agent.invokeStateless input) fun r => ∀ text, r = .ok text → agent.Vetted text := by
  have hrun : Yields (llm (agent.strategy.run (assembleMessages (agent.assembleSystem none none) [] input)))
      (Releases agent.ext agent.kind) := by
    refine llm_answers ?_
    have h := runWithActiveTools_yields (agent.skeleton agent.tools agent.maxIterations) agent.kind
      (assembleMessages (agent.assembleSystem none none) [] input) agent.tools.toolNames
    unfold strategy
    cases hkind : agent.kind with
    | _ => rw [hkind] at h; exact h
  refine Prog.Meets.bind hrun (fun outcome houtcome => ?_) fun e _ text h => by cases h
  cases outcome with
  | done text =>
    intro text' h
    cases h
    exact ⟨agent.kind, houtcome text rfl, fun _ => rfl⟩
  | interrupted interrupt => exact fun text h => by cases h

/-! ### What calls keep -/

theorem vettedMessage_user (text : String) : agent.VettedMessage (.ofText .user text) := fun h => by cases h

theorem vettedMessage_turn {input text : String} (h : agent.Vetted text) :
    ∀ m ∈ [Message.ofText .user input, .ofText .assistant text], agent.VettedMessage m := by
  intro m hm
  rcases List.mem_cons.mp hm with rfl | hm
  · exact agent.vettedMessage_user input
  · rw [List.mem_singleton.mp hm]
    exact fun _ => ⟨text, rfl, h⟩

theorem getCacheMemory_brings {K : Message → Prop} (userId : String) : Brings K (getCacheMemory userId sid) AnyResult := by
  refine ⟨fun m hm => (by cases hm), fun r hr => ?_⟩
  cases r with
  | some messages => trivial
  | none =>
    refine Prog.Meets.bind (P := fun r => ∀ history, r = .ok history → ∀ m ∈ history, K m) ?_ (fun history hhistory => ?_)
      fun _ _ => trivial
    · refine Prog.Meets.mapErr (P := fun r => ∀ history, r = .ok history → ∀ m ∈ history, K m)
        ⟨fun m hm => (by cases hm), fun r hr => ?_⟩ fun r hr history h => ?_
      · cases r with
        | ok history =>
          intro history' h
          cases h
          exact hr
        | error e => exact fun history h => by cases h
      · cases r with
        | ok history' =>
          cases h
          exact hr history rfl
        | error e => cases h
    · exact ⟨hhistory history rfl, fun _ _ => trivial⟩

/-- An invocation caches the stored messages, and brings in no others before its run. -/
theorem prepare_brings {K : Message → Prop} (userId input : String) :
    Brings K (agent.prepare userId sid input) AnyResult := by
  have hreads : ∀ {α : Type} {p : M AgentError α}, p.Only Request.Reads → Brings K p AnyResult :=
    fun hp => brings_of_only hp (fun _ h => h.brings) (meets_any _)
  refine Prog.Meets.bind (hreads (sess_only (SessionManager.assertOwner_only trivial))) (fun _ _ => ?_)
    fun _ _ => trivial
  refine Prog.Meets.bind (P := AnyResult) ?_ (fun opened _ => ?_) fun _ _ => trivial
  · have hphase : Brings K (agent.phaseOpening sid) AnyResult := by
      unfold phaseOpening
      split
      · exact hreads (sess_only (SessionMemory.getPhaseOpeningContext_only trivial))
      · trivial
    refine Prog.Meets.bind hphase (fun phaseCtx _ => ?_) fun _ _ => trivial
    cases phaseCtx with
    | some ctx =>
      have hused : ((request (.cacheEvict userId sid) : M AgentError _) >>= fun _ =>
          sess (SessionMemory.setPhaseOpeningContext sid none)).Only fun q => q.brings = [] :=
        Prog.Only.bind (request_only rfl) fun _ => sess_only (SessionMemory.setPhaseOpeningContext_only rfl)
      have hopen := Prog.Only.bind (f := fun _ => (.ret ([], ctx ++ "\n\n" ++ input) : M AgentError (List Message × String)))
        hused fun _ => trivial
      rw [Prog.bind_assoc] at hopen
      exact brings_of_only hopen (fun _ h => h) (meets_any _)
    | none => exact Prog.Meets.bind (getCacheMemory_brings userId) (fun _ _ => trivial) fun _ _ => trivial
  · refine Prog.Meets.bind (brings_of_only (agent.resolveSkill_binds input) ?_ (meets_any _)) (fun _ _ => trivial)
      fun _ _ => trivial
    rintro q (hq | ⟨x, rfl⟩)
    · exact hq.brings
    · rfl

/-- A finished turn brings in its input and its answer. -/
theorem keepTurn_brings {input response : String} (h : agent.Vetted response) (userId : String) :
    Brings agent.VettedMessage (agent.keepTurn userId sid input response) fun r => ∀ out text, r = .ok out →
      out.text? = some text → agent.Vetted text := by
  have hlook : ∀ q : Request, q.brings = [] → ∀ m ∈ q.brings, agent.VettedMessage m := by
    intro q hq m hm
    rw [hq] at hm
    cases hm
  refine Prog.Meets.bind (P := AnyResult) (Prog.Meets.mono (sess_only (SessionMemory.append_only
    (A := fun q => ∀ m ∈ q.brings, agent.VettedMessage m) (hlook _ rfl) (hlook _ rfl) fun now =>
      agent.vettedMessage_turn h)) (fun _ _ _ => trivial) (fun _ h => h) fun _ h => h) (fun _ _ => ?_)
    fun e _ out text hout => by cases hout
  refine ⟨agent.vettedMessage_turn h, fun _ _ => ?_⟩
  have hdone : ∀ out text, (.ok (.done response) : Except AgentError AgentOutput) = .ok out → out.text? = some text →
      agent.Vetted text := by
    intro out text hout htext
    cases hout
    cases htext
    exact h
  dsimp only
  split
  · exact ⟨hlook _ rfl, fun _ _ => hdone⟩
  · exact hdone

theorem invoke_brings (userId input : String) :
    Brings agent.VettedMessage (agent.invoke userId sid input) fun r => ∀ out text, r = .ok out →
      out.text? = some text → agent.Vetted text := by
  refine Prog.Meets.bind (agent.prepare_brings userId input) (fun p _ => ?_) fun e _ out text h => by cases h
  refine Prog.Meets.bind (brings_of_only (agent.runPrepared_works userId p) ?_ (agent.runPrepared_yields userId p))
    (fun outcome houtcome => ?_) fun e _ out text h => by cases h
  · rintro q (hq | hq)
    · exact hq.brings
    · exact hq.brings
  · cases outcome with
    | done text => exact agent.keepTurn_brings (houtcome text rfl) userId
    | interrupted interrupt =>
      refine brings_of_only (handleToolInterrupt_only interrupt _) (fun q hq => ?_) ?_
      · exact Request.OfResume.brings (.inr (.inr hq))
      · refine Prog.Meets.mono (handleToolInterrupt_yields interrupt _) (fun _ _ h => h) (fun _ h => h) ?_
        intro r hr out text h htext
        rw [hr out h] at htext
        cases htext

/-- What a call ends with is an answer only with a text that is vetted, or about a phase gate. -/
def Answers (call : ApiCall) (r : Except AgentError ApiResult) : Prop :=
  ∀ result text, r = .ok result → result.text? = some text → agent.Vetted text ∨ GateAnswer call text

theorem program_brings (call : ApiCall) : Brings agent.VettedMessage (agent.program call) (agent.Answers call) := by
  -- Most calls bring in no message and end with no text.
  have hsilent : ∀ {α : Type} {p : M AgentError α} {f : α → ApiResult}, p.Only (fun q => q.brings = []) →
      (∀ a, (f a).text? = none) → Brings agent.VettedMessage (p >>= fun a => .ret (f a)) (agent.Answers call) := by
    intro α p f hp hf
    refine Prog.Meets.bind (brings_of_only hp (fun _ h => h) (meets_any _)) (fun a _ => ?_)
      fun e _ result text h => by cases h
    intro result text h htext
    cases h
    rw [hf a] at htext
    cases htext
  cases call with
  | createSession u =>
    exact hsilent (sess_only (Prog.Only.bind (SessionMemory.createWith_only rfl rfl fun _ _ => rfl) fun _ => trivial))
      fun _ => rfl
  | createSessionWithSkill u skillId =>
    refine hsilent ?_ fun _ => rfl
    unfold createSessionWithSkill
    split
    · trivial
    · refine Prog.Only.bind (request_only rfl) fun reg => ?_
      split
      · trivial
      · exact sess_only (Prog.Only.bind (SessionMemory.createWith_only rfl rfl fun _ _ => rfl) fun _ => trivial)
  | invoke u s input =>
    refine Prog.Meets.bind (agent.invoke_brings u input) (fun out hout => ?_) fun e _ result text h => by cases h
    intro result text h htext
    cases h
    exact .inl (hout out text rfl htext)
  | invokeStateless input =>
    refine Prog.Meets.bind (brings_of_only (agent.invokeStateless_only input) (fun _ h => h.brings)
      (agent.invokeStateless_yields input)) (fun answer hanswer => ?_) fun e _ result text h => by cases h
    intro result text h htext
    cases h
    cases htext
    exact .inl (hanswer answer rfl)
  | resume u s id d =>
    refine Prog.Meets.bind (brings_of_only (agent.resume_resumes u id d) (fun _ h => h.brings)
      (agent.resume_yields u id d)) (fun out hout => ?_) fun e _ result text h => by cases h
    intro result text h htext
    cases h
    exact hout out text rfl htext
  | advancePhase u s output =>
    exact hsilent (Prog.Only.mono (agent.advancePhase_advances u output) fun _ h => h.brings) fun _ => rfl
  | endSession u s =>
    refine hsilent (Prog.Only.bind (sess_only (SessionManager.assertOwner_only rfl)) fun _ => ?_) fun _ => rfl
    exact Prog.Only.bind (sess_only (SessionMemory.updateStatus_only rfl fun _ => rfl)) fun _ => request_only rfl
  | deleteAllUserData u =>
    refine hsilent (Prog.Only.bind (sess_only (query_only rfl)) fun sessions => ?_) fun _ => rfl
    exact deleteAll_only u (fun _ _ => rfl) fun _ _ => rfl
  | resolve id d => exact hsilent (request_only rfl) fun _ => rfl
  | sweepExpired => exact hsilent (request_only rfl) fun _ => rfl
  | checkTool ctx name args =>
    refine hsilent (Prog.Only.mapErr (Prog.Meets.mono (checkTool_meets (B := fun _ _ => True) (W := fun _ => False)
      ctx name args) (fun _ _ h => h) (fun _ h => h.1.brings) fun _ _ => trivial)) fun _ => rfl
  | cleanup cfg =>
    exact hsilent (Prog.Only.attempt (CleanupWorker.tick_only rfl (fun _ => rfl) (fun _ => rfl) (fun _ => rfl)
      fun _ _ _ => rfl)) fun _ => rfl

/-! ### What the guardrail keeps out -/

/-- A clean text, which has passed the guardrail itself unless a ReAct strategy may have made it. -/
structure LetsThrough (cl : CharClasses) (text : String) : Prop where
  clean : Clean cl text
  checked : agent.strategyRouter = none → agent.kind ≠ .react → checkOutput cl text = none

theorem clean_of_done {cl : CharClasses} {response : GenerateResponse} {text : String}
    (hcheck : checkOutput cl response.asText = none) (hdone : actionFromResponse response = .done text) :
    Clean cl text := by
  unfold actionFromResponse at hdone
  split at hdone
  · cases hdone
  · split at hdone
    · rename_i hparts
      cases hdone
      refine (clean_of_check hcheck).intercalate (fun part hpart => ?_) (by simpa using hparts)
      obtain ⟨block, hblock, hsome⟩ := List.mem_filterMap.mp hpart
      cases block with
      | text t =>
        dsimp only at hsome
        split at hsome
        · cases hsome
        · cases hsome
          exact List.mem_map.mpr ⟨.text part, hblock, rfl⟩
      | toolUse | toolResult => cases hsome
    · cases hdone

variable {agent}

theorem Vetted.letsThrough {cl : CharClasses} (hguard : agent.ext.checkOutput = checkOutput cl) {text : String}
    (h : agent.Vetted text) : agent.LetsThrough cl text := by
  obtain ⟨kind, ⟨response, hcheck, hmade⟩, hkind⟩ := h
  rw [hguard] at hcheck
  cases kind with
  | react => exact ⟨clean_of_done hcheck hmade, fun hrouter hne => absurd (hkind hrouter).symm hne⟩
  | plan | hierarchical =>
    obtain rfl : text = response.asText := hmade
    exact ⟨clean_of_check hcheck, fun _ _ => hcheck⟩

variable (agent) {ι : Type} [DecidableEq ι]

/-- What is kept as an answer, and what calls answer with, is let through. -/
structure Filters (cl : CharClasses) (calls : ι → ApiCall) (P : Pool ι Reply World AgentError ApiResult) : Prop where
  stored : ∀ row ∈ P.view.state.store.messages, row.message.role = .assistant →
    ∃ text, row.message = .ofText .assistant text ∧ agent.LetsThrough cl text
  cached : ∀ e ∈ P.view.state.cache, ∀ m ∈ e.2.messages, m.role = .assistant →
    ∃ text, m = .ofText .assistant text ∧ agent.LetsThrough cl text
  answered : ∀ i result text, (P.threads i).result? = some (.ok result) → result.text? = some text →
    agent.LetsThrough cl text ∨ GateAnswer (calls i) text

end Agent

/-- No answer of an agent, in whatever interleaving of calls, has a social security number or an e-mail address, and a
card number only over several lines, but for the answers about phase gates. -/
theorem answers_filtered {ι : Type} [DecidableEq ι] (agent : Agent) {cl : CharClasses}
    (hguard : agent.ext.checkOutput = checkOutput cl) (env : Env) (skills : SkillRegistry) (clock : Nat)
    (calls : ι → ApiCall) (schedule : List ι) :
    agent.Filters cl calls ((agent.pool calls (.fresh skills clock)).run (handle env) schedule) := by
  obtain ⟨hholds, hends⟩ := agent.pool_holds agent.program_brings
    (World.holds_fresh agent.VettedMessage skills clock) schedule
  have hkept : ∀ m, agent.VettedMessage m → m.role = .assistant →
      ∃ text, m = .ofText .assistant text ∧ agent.LetsThrough cl text := by
    intro m hm hrole
    obtain ⟨text, hmessage, hvetted⟩ := hm hrole
    exact ⟨text, hmessage, hvetted.letsThrough hguard⟩
  refine ⟨fun row hrow => hkept _ (hholds.stored row hrow), fun e he m hm => hkept m (hholds.cached e he m hm), ?_⟩
  intro i result text hresult htext
  exact (hends i (.ok result) hresult result text rfl htext).imp_left fun h => h.letsThrough hguard

/-- A plain agent behind the output guardrail. -/
def Agent.guarded : Agent := { Agent.plain with ext := { Externals.plain with checkOutput := checkOutput .ascii } }

/-- A model that breaks a card number by a blank block. -/
def Env.breaksCard : Env := .steady fun _ _ => ⟨[.text "1234", .text " ", .text "5678 1234 5678"], .zero⟩

/-- A session and an invocation in it. -/
def cardCalls (invokes : Bool) : ApiCall := if invokes then .invoke "u" 0 "go" else .createSession "u"

def cardRun : Pool Bool Reply World AgentError ApiResult :=
  (Agent.guarded.pool cardCalls (.fresh ⟨[]⟩ 0)).run (handle .breaksCard)
    (List.replicate 10 false ++ List.replicate 20 true)

/-- The blank block is checked with the others and left out of the answer, which has a card number then. -/
theorem answers_filtered_lines :
    (cardRun.threads true).result? = some (.ok (.output (.done "1234\n5678 1234 5678"))) ∧
      In .ascii (creditCard .ascii) "1234\n5678 1234 5678" ∧ Agent.guarded.Filters .ascii cardCalls cardRun :=
  ⟨by decide +kernel, by decide +kernel, answers_filtered Agent.guarded rfl ..⟩

end AgentVerse
