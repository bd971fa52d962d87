import AgentVerse.Agent.Opening
import AgentVerse.Agent.RunReplies

/-!
# What an invocation makes of replies

An invocation that cleared the opening context and gives no answer was spoilt by what the environment answered
(`invoke_spoilt`): a refused statement, a skill that does not compile, a router that selects no strategy, or replies of
the model that keep the strategy from an answer.
-/

namespace AgentVerse

open Effects

variable {t t' : List Event} {sid : SessionId}

/-! ### Single answers -/

/-- An answer with which a turn cannot go on: a statement is refused or does not find its session, the stored skill
context cannot be read, or the body of a step panics. -/
def failsTurn : Event → Bool
  | ⟨.sql (.selectSession _), .ok none⟩ => true
  | ⟨.sql (.selectSkillContext _), .ok none⟩ => true
  | ⟨.sql (.selectSkillContext _), .ok (some (some json))⟩ => json.fromStr.toOption.isNone
  | ⟨.sql (.updatePhaseOpening ..), .ok n⟩ => n = 0
  | ⟨.sql (.updateSkillContext ..), .ok n⟩ => n = 0
  | ⟨.sql _, .error _⟩ => true
  | x => stepPanic x

theorem failsTurn_error {st : Statement} (e : String) : failsTurn ⟨.sql st, .error e⟩ = true := by
  cases st <;> rfl

theorem failsTurn_panic {x : Event} (h : stepPanic x = true) : failsTurn x = true := by
  obtain ⟨q, r⟩ := x
  cases q with
  | executeRaw d => exact h
  | _ => cases h

/-! ### What an invocation is told -/

/-- The skill context and the discovery text of an invocation. -/
inductive HearsSkill (cfg : SkillConfig) (input : String) (t : List Event) :
    Option SkillContext → Option String → Prop
  | bound {s : SessionId} {json : JsonText SkillContext} {ctx : SkillContext}
      (h : ⟨.sql (.selectSkillContext s), .ok (some (some json))⟩ ∈ t) (hread : json.fromStr = .ok ctx) :
      HearsSkill cfg input t (some ctx) none
  | routed {reg reg' : SkillRegistry} {skillId : SkillId} {ctx : SkillContext}
      (h : [⟨.readSkills, reg⟩, ⟨.readSkills, reg'⟩].Sublist t)
      (hroute : cfg.route input (reg.eligible cfg.mode) = some skillId) (hctx : reg'.compileContext skillId = .ok ctx) :
      HearsSkill cfg input t (some ctx) none
  | unrouted {reg : SkillRegistry} {text : String} (h : ⟨.readSkills, reg⟩ ∈ t)
      (hroute : cfg.route input (reg.eligible cfg.mode) = none) (htext : ⟨.readSummaries, text⟩ ∈ t) :
      HearsSkill cfg input t none (if text = "" then none else some text)

theorem HearsSkill.mono {cfg : SkillConfig} {skillCtx : Option SkillContext} {summaries : Option String}
    (h : HearsSkill cfg input t skillCtx summaries) (ht : t.Sublist t') : HearsSkill cfg input t' skillCtx summaries := by
  cases h with
  | bound h hread => exact .bound (ht.subset h) hread
  | routed h hroute hctx => exact .routed (h.trans ht) hroute hctx
  | unrouted h hroute htext => exact .unrouted (ht.subset h) hroute (ht.subset htext)

/-- The skill that the input is routed to does not compile. -/
def Uncompiled (cfg : SkillConfig) (input : String) (t : List Event) : Prop :=
  ∃ reg reg' skillId e, [⟨.readSkills, reg⟩, ⟨.readSkills, reg'⟩].Sublist t ∧
    cfg.route input (reg.eligible cfg.mode) = some skillId ∧ reg'.compileContext skillId = .error e

theorem Uncompiled.mono {cfg : SkillConfig} (h : Uncompiled cfg input t) (ht : t.Sublist t') :
    Uncompiled cfg input t' := by
  obtain ⟨reg, reg', skillId, e, hregs, hskill⟩ := h
  exact ⟨reg, reg', skillId, e, hregs.trans ht, hskill⟩

/-- The text of retrieved memories. -/
def memoryText : Except String (List String) → Option String
  | .error _ => none
  | .ok memories =>
    if memories.isEmpty then none else some ("\n".intercalate (memories.map fun m => "[Memory] " ++ m))

/-- The long-term text of an invocation. -/
inductive HearsMemory (agent : Agent) (t : List Event) : Option String → Prop
  | off (h : agent.longtermMemory = false) : HearsMemory agent t none
  | told {userId query : String} {limit : Nat} {r : Except String (List String)}
      (h : ⟨.retrieve userId query limit, r⟩ ∈ t) : HearsMemory agent t (memoryText r)

theorem HearsMemory.mono {agent : Agent} {longTerm : Option String} (h : HearsMemory agent t longTerm)
    (ht : t.Sublist t') : HearsMemory agent t' longTerm := by
  cases h with
  | off h => exact .off h
  | told h => exact .told (ht.subset h)

/-- The strategy of a router that a reply names. -/
def StrategyRouter.readRoute (router : StrategyRouter) : Except ModelError GenerateResponse → Option StrategyName
  | .error _ => none
  | .ok response => (parseName response.asText).filter router.strategies.contains

namespace Agent

variable (agent : Agent)

/-- The strategy that a reply selects, if it is one that the agent can run with its approvals. -/
def readSelection (router : StrategyRouter) (r : Except ModelError GenerateResponse) : Option StrategyName :=
  (router.readRoute r).filter fun selected => agent.hitl.isNone || selected = .reAct

/-- The router cannot ask, or the first reply selects no strategy. -/
def Unselected (effective : String) (rs : List (Except ModelError GenerateResponse)) : Prop :=
  ∃ router, agent.strategyRouter = some router ∧
    ((∃ e, router.prompt effective = .error e) ∨ ∃ r ∈ rs.head?, agent.readSelection router r = none)

/-- The strategy of an invocation, which the first reply selects where there is a router, and the replies to its run. -/
inductive Selects (names : List String) : List (Except ModelError GenerateResponse) → StrategyKind → CycleSkeleton →
    List (Except ModelError GenerateResponse) → Prop
  | fixed {rs : List (Except ModelError GenerateResponse)} (h : agent.strategyRouter = none) :
      Selects names rs agent.kind (agent.skeleton agent.tools agent.maxIterations) rs
  | routed {router : StrategyRouter} {r : Except ModelError GenerateResponse} {selected : StrategyName}
      {rs : List (Except ModelError GenerateResponse)} (h : agent.strategyRouter = some router)
      (hsel : agent.readSelection router r = some selected) :
      Selects names (r :: rs) (strategyKind selected)
        (agent.skeleton (agent.tools.restrictedToNames names) defaultRoutedStrategyMaxIterations) rs

/-- What an invocation is told before its strategy runs. -/
structure Told where
  opening : String
  skillCtx : Option SkillContext
  summaries : Option String
  longTerm : Option String

/-- The input with the opening context. -/
def Told.input (told : Told) (input : String) : String := told.opening ++ "\n\n" ++ input

/-- The messages that the strategy begins with. The opening context replaces the history. -/
def Told.messages (told : Told) (input : String) : List Message :=
  assembleMessagesWithContext (agent.assembleSystem told.skillCtx told.summaries) told.longTerm [] (told.input input)

structure Hears (cfg : SkillConfig) (sid : SessionId) (input : String) (t : List Event) (told : Told) : Prop where
  opening : ⟨.sql (.selectPhaseOpening sid), .ok (some (some told.opening))⟩ ∈ t
  skill : HearsSkill cfg input t told.skillCtx told.summaries
  memory : HearsMemory agent t told.longTerm

/-- What the environment answered spoils an invocation that cleared the opening context. -/
inductive Spoilt (sid : SessionId) (input : String) (t : List Event) : Prop where
  | failed (h : ∃ x ∈ t, failsTurn x = true)
  | uncompiled {cfg : SkillConfig} (hskills : agent.skills = some cfg) (h : Uncompiled cfg input t)
  | unselected {c : String} (hopening : ⟨.sql (.selectPhaseOpening sid), .ok (some (some c))⟩ ∈ t)
      (h : agent.Unselected (c ++ "\n\n" ++ input) (repliesOf t))
  | stopped {cfg : SkillConfig} (hskills : agent.skills = some cfg) {told : Told}
      (htold : agent.Hears cfg sid input t told) {kind : StrategyKind} {sk : CycleSkeleton}
      {rs : List (Except ModelError GenerateResponse)}
      (hselects : agent.Selects (agent.activeToolNames told.skillCtx) (repliesOf t) kind sk rs)
      (h : agent.RunStops kind sk (agent.activeToolNames told.skillCtx) (told.messages agent input)
        (HitlContext.new sid (told.skillCtx.map (·.skillId))) rs)

end Agent

/-! ### Before the strategy -/

theorem Request.Idle.not_clear {q : Request} (hq : q.Idle) : q.asksClear sid = false := by
  cases q with
  | sql st => cases st <;> first | rfl | exact hq.elim
  | _ => rfl

theorem Request.Idle.not_model {q : Request} (hq : q.Idle) : q.callsModel = false := by
  cases q <;> first | rfl | exact hq.elim

/-- Where nobody asks for it, the context is not cleared. -/
theorem not_cleared (h : ∀ y ∈ t, y.1.asksClear sid = false) : ¬ ∃ y ∈ t, clearsContext sid y = true := by
  rintro ⟨⟨q, r⟩, hy, hclear⟩
  have hask := h _ hy
  cases q with
  | sql st =>
    cases st with
    | updatePhaseOpening s x =>
      cases r with
      | ok n => exact absurd (hask.symm.trans hclear) (by simp)
      | error e => cases hclear
    | _ => cases hclear
  | _ => cases hclear

namespace Agent

variable {agent : Agent} {userId input : String}

theorem phaseOpening_plays {c : String} (h : (agent.phaseOpening sid).Plays t (.ok (some c))) :
    (∃ cfg, agent.skills = some cfg) ∧ ⟨.sql (.selectPhaseOpening sid), .ok (some (some c))⟩ ∈ t := by
  unfold phaseOpening at h
  split at h
  · rename_i hskills
    refine ⟨Option.isSome_iff_exists.mp hskills, ?_⟩
    obtain ⟨y, h₁, hy⟩ := Prog.plays_mapErr.mp h
    obtain ⟨r, rfl, ⟨row, v, rfl, rfl, rfl⟩ | ⟨⟨e, rfl⟩, -⟩⟩ := column_plays h₁
    · cases hy
      exact List.mem_cons_self
    · cases hy
  · obtain ⟨-, hnone⟩ := h
    cases hnone

/-- A write of the opening context or of the skill context ends well, or its answer fails the turn. -/
theorem setColumn_plays {st : Statement} {affected : st.Result → Nat} {x : Except AgentError Unit}
    (h : (sess (query st >>= fun r => SessionMemory.mustAffect sid (affected r))).Plays t x)
    (hfails : ∀ n, affected n = 0 → failsTurn ⟨.sql st, .ok n⟩ = true) :
    (∃ y ∈ t, failsTurn y = true) ∨ x = .ok () := by
  obtain ⟨y, h₁, rfl⟩ := Prog.plays_mapErr.mp h
  obtain ⟨r, rfl, hr⟩ := update_plays h₁
  cases y with
  | ok u => exact .inr rfl
  | error e =>
    refine .inl ⟨_, List.mem_cons_self, ?_⟩
    cases r with
    | error e' => exact failsTurn_error e'
    | ok n => exact hfails n (hr.mp ⟨e, rfl⟩ n rfl)

/-- The context that is cleared was looked up before, and the invocation goes on with it unless the database refuses. -/
theorem openingContext_plays {x : Except AgentError (List Message × String)}
    (h : (agent.openingContext userId sid input).Plays t x) (hclear : ∃ y ∈ t, clearsContext sid y = true) :
    (∃ y ∈ t, failsTurn y = true) ∨ ∃ cfg c, agent.skills = some cfg ∧
      ⟨.sql (.selectPhaseOpening sid), .ok (some (some c))⟩ ∈ t ∧ x = .ok ([], c ++ "\n\n" ++ input) := by
  have hlook : (agent.phaseOpening sid).Only fun q => q.asksClear sid = false := by
    unfold phaseOpening
    split
    · exact sess_only (SessionMemory.getPhaseOpeningContext_only rfl)
    · trivial
  obtain ⟨e, h₁, rfl⟩ | ⟨found, t₁, t₂, rfl, h₁, h₂⟩ := Prog.plays_bind.mp h
  · exact absurd hclear (not_cleared (hlook.plays h₁))
  · cases found with
    | none =>
      have hcache : (getCacheMemory userId sid >>= fun history => Prog.ret (history, input)).Only fun q =>
          q.asksClear sid = false := by
        refine Prog.Only.bind ⟨rfl, fun r _ => ?_⟩ fun _ => trivial
        cases r with
        | some messages => trivial
        | none =>
          exact Prog.Only.bind (sess_only (query_only rfl)) fun _ => Prog.Only.bind (request_only rfl) fun _ => trivial
      refine absurd hclear (not_cleared fun y hy => ?_)
      exact (List.mem_append.mp hy).elim (hlook.plays h₁ y) (hcache.plays h₂ y)
    | some c =>
      obtain ⟨⟨cfg, hskills⟩, hfound⟩ := phaseOpening_plays h₁
      obtain ⟨u, t₃, rfl, h₃⟩ := h₂
      have h₃ : (sess (SessionMemory.setPhaseOpeningContext sid none) >>= fun _ =>
        Prog.ret (([] : List Message), c ++ "\n\n" ++ input)).Plays t₃ x := h₃
      obtain ⟨e, h₄, rfl⟩ | ⟨u', t₄, t₅, rfl, -, rfl, rfl⟩ := Prog.plays_bind.mp h₃
      · obtain ⟨y, hy, hfails⟩ | hok := setColumn_plays h₄ fun n hn => decide_eq_true hn
        · exact .inl ⟨y, List.mem_append_right _ (List.mem_cons_of_mem _ hy), hfails⟩
        · cases hok
      · exact .inr ⟨cfg, c, hskills, List.mem_append_left _ hfound, rfl⟩

/-- The skill of an invocation with skills is the one that it is told. -/
theorem resolveSkill_plays {cfg : SkillConfig} (hskills : agent.skills = some cfg)
    {x : Except AgentError (Option SkillContext × Option String)} (h : (agent.resolveSkill sid input).Plays t x) :
    (∃ y ∈ t, failsTurn y = true) ∨ Uncompiled cfg input t ∨
      ∃ skillCtx summaries, HearsSkill cfg input t skillCtx summaries ∧ x = .ok (skillCtx, summaries) := by
  unfold resolveSkill at h
  rw [hskills] at h
  obtain ⟨e, h₁, rfl⟩ | ⟨existing, t₁, t₂, rfl, h₁, h₂⟩ := Prog.plays_bind.mp h
  · obtain ⟨y, h₀, hy⟩ := Prog.plays_mapErr.mp h₁
    obtain ⟨r, rfl, ⟨row, v, rfl, rfl, rfl⟩ | ⟨-, hnone⟩⟩ := column_plays h₀
    · cases hy
    · refine .inl ⟨_, List.mem_cons_self, ?_⟩
      cases r with
      | error e => exact failsTurn_error e
      | ok row =>
        obtain rfl := hnone row rfl
        rfl
  · obtain ⟨y, h₀, hy⟩ := Prog.plays_mapErr.mp h₁
    obtain ⟨r, rfl, ⟨row, v, rfl, rfl, rfl⟩ | ⟨⟨e, rfl⟩, -⟩⟩ := column_plays h₀
    · cases hy
      cases existing with
      | some json =>
        dsimp only at h₂
        unfold orJson at h₂
        cases hread : json.fromStr with
        | error e => exact .inl ⟨_, List.mem_cons_self, by simp [failsTurn, hread, Except.toOption]⟩
        | ok ctx =>
          rw [hread] at h₂
          obtain ⟨rfl, rfl⟩ := h₂
          exact .inr (.inr ⟨_, _, .bound List.mem_cons_self hread, rfl⟩)
      | none =>
        obtain ⟨reg, t₃, rfl, h₃⟩ := h₂
        dsimp only [Prog.bind] at h₃
        cases hroute : cfg.route input (reg.eligible cfg.mode) with
        | none =>
          rw [hroute] at h₃
          obtain ⟨text, t₄, rfl, rfl, rfl⟩ := h₃
          exact .inr (.inr ⟨_, _, .unrouted (by simp) hroute (by simp), rfl⟩)
        | some skillId =>
          rw [hroute] at h₃
          obtain ⟨reg', t₄, rfl, h₄⟩ := h₃
          have hregs : [⟨.readSkills, reg⟩, ⟨.readSkills, reg'⟩].Sublist
              ([⟨.sql (.selectSkillContext sid), .ok (some none)⟩] ++ ⟨.readSkills, reg⟩ :: ⟨.readSkills, reg'⟩ :: t₄) :=
            List.Sublist.cons _ (.cons_cons _ (.cons_cons _ (List.nil_sublist _)))
          dsimp only [Prog.bind] at h₄
          cases hctx : reg'.compileContext skillId with
          | error e => exact .inr (.inl ⟨reg, reg', skillId, e, hregs, hroute, hctx⟩)
          | ok ctx =>
            rw [hctx] at h₄
            obtain ⟨e, h₅, rfl⟩ | ⟨u, t₅, t₆, rfl, -, rfl, rfl⟩ := Prog.plays_bind.mp h₄
            · obtain ⟨y, hy, hfails⟩ | hok := setColumn_plays h₅ fun n hn => decide_eq_true hn
              · exact .inl ⟨y, by simp [hy], hfails⟩
              · cases hok
            · exact .inr (.inr ⟨_, _, .routed hregs hroute hctx, rfl⟩)
    · cases hy

/-- What an invocation that cleared the context starts from is what it is told. -/
theorem prepare_plays {x : Except AgentError Prepared} (h : (agent.prepare userId sid input).Plays t x)
    (hclear : ∃ y ∈ t, clearsContext sid y = true) :
    (∃ y ∈ t, failsTurn y = true) ∨ ∃ cfg, agent.skills = some cfg ∧ (Uncompiled cfg input t ∨
      ∃ c skillCtx summaries, ⟨.sql (.selectPhaseOpening sid), .ok (some (some c))⟩ ∈ t ∧
        HearsSkill cfg input t skillCtx summaries ∧ x = .ok ⟨[], c ++ "\n\n" ++ input, skillCtx, summaries⟩) := by
  have howner : (sess (SessionManager.assertOwner userId sid)).Only fun q => q.asksClear sid = false :=
    sess_only (SessionManager.assertOwner_only rfl)
  have hskill : (agent.resolveSkill sid input).Only fun q => q.asksClear sid = false :=
    Prog.Only.mono (agent.resolveSkill_binds input) fun q hq => by
      obtain hq | ⟨x, rfl⟩ := hq
      · exact hq.idle.not_clear
      · rfl
  obtain ⟨e, h₁, rfl⟩ | ⟨u, t₁, t₂, rfl, h₁, h₂⟩ := Prog.plays_bind.mp h
  · exact absurd hclear (not_cleared (howner.plays h₁))
  · obtain ⟨y, t₃, t₄, rfl, h₃, h₄⟩ := Prog.Plays.first h₂
    -- The context is cleared where it is looked for, if at all.
    have hclear : ∃ z ∈ t₃, clearsContext sid z = true := by
      have hafter : ¬ ∃ z ∈ t₄, clearsContext sid z = true := by
        obtain ⟨e, -, -, rfl⟩ | ⟨⟨history, effective⟩, -, h₄⟩ := h₄
        · simp
        · have hrest : (agent.resolveSkill sid input >>= fun z => Prog.ret (Prepared.mk history effective z.1 z.2)).Only
              fun q => q.asksClear sid = false := Prog.Only.bind hskill fun _ => trivial
          exact not_cleared (hrest.plays h₄)
      obtain ⟨z, hz, hcleared⟩ := hclear
      simp only [List.mem_append] at hz
      rcases hz with hz | hz | hz
      · exact absurd ⟨z, hz, hcleared⟩ (not_cleared (howner.plays h₁))
      · exact ⟨z, hz, hcleared⟩
      · exact absurd ⟨z, hz, hcleared⟩ hafter
    obtain ⟨z, hz, hfails⟩ | ⟨cfg, c, hskills, hopening, rfl⟩ := openingContext_plays h₃ hclear
    · exact .inl ⟨z, by simp [hz], hfails⟩
    · obtain ⟨e, he, -⟩ | ⟨a, heq, h₄⟩ := h₄
      · cases he
      · cases heq
        have hopening : ⟨.sql (.selectPhaseOpening sid), .ok (some (some c))⟩ ∈ t₁ ++ (t₃ ++ t₄) := by simp [hopening]
        have hsub : t₄.Sublist (t₁ ++ (t₃ ++ t₄)) :=
          (List.sublist_append_right t₃ t₄).trans (List.sublist_append_right t₁ _)
        obtain ⟨y, t₅, t₆, rfl, h₅, h₆⟩ := Prog.Plays.first h₄
        have hsub := (List.sublist_append_left t₅ t₆).trans hsub
        obtain ⟨z, hz, hfails⟩ | huncompiled | ⟨skillCtx, summaries, hheard, rfl⟩ := resolveSkill_plays hskills h₅
        · exact .inl ⟨z, hsub.subset hz, hfails⟩
        · exact .inr ⟨cfg, hskills, .inl (huncompiled.mono hsub)⟩
        · obtain ⟨e, he, -⟩ | ⟨a, heq, h₆⟩ := h₆
          · cases he
          · cases heq
            obtain ⟨-, rfl⟩ := h₆
            exact .inr ⟨cfg, hskills, .inr ⟨c, skillCtx, summaries, hopening, hheard.mono hsub, rfl⟩⟩

/-! ### The strategy -/

theorem longTermText_plays {x : Except AgentError (Option String)} (h : (agent.longTermText userId input).Plays t x) :
    ∃ longTerm, x = .ok longTerm ∧ HearsMemory agent t longTerm := by
  unfold longTermText at h
  split at h
  · obtain ⟨r, t', rfl, h⟩ := h
    refine ⟨memoryText r, ?_, .told List.mem_cons_self⟩
    cases r with
    | error e => exact h.2
    | ok memories =>
      dsimp only at h
      split at h
      · rename_i hempty
        rw [h.2]
        simp [memoryText, hempty]
      · rename_i hsome
        rw [h.2]
        simp [memoryText, hsome]
  · rename_i hoff
    obtain ⟨-, rfl⟩ := h
    exact ⟨none, rfl, .off (by simpa using hoff)⟩

theorem route_plays {router : StrategyRouter} {x : Except Core.AgentError StrategyName}
    (h : (router.route input).Plays t x) :
    ((∃ e, router.prompt input = .error e) ∧ ∃ e, x = .error e) ∨ ∃ q r, t = [⟨.generate 0 q, r⟩] ∧
      ((router.readRoute r = none ∧ ∃ e, x = .error e) ∨
        ∃ selected, router.readRoute r = some selected ∧ x = .ok selected) := by
  unfold StrategyRouter.route at h
  cases hprompt : router.prompt input with
  | error e =>
    rw [hprompt] at h
    exact .inl ⟨⟨e, rfl⟩, _, h.2⟩
  | ok system =>
    rw [hprompt] at h
    right
    obtain ⟨e, h₁, rfl⟩ | ⟨response, t₁, t₂, rfl, h₁, h₂⟩ := Prog.plays_bind.mp h
    · obtain ⟨q, r, rfl, hr⟩ := invokeRunner_plays rfl h₁
      cases r with
      | ok response => cases hr
      | error e' => exact ⟨q, _, rfl, .inl ⟨rfl, _, rfl⟩⟩
    · obtain ⟨q, r, rfl, hr⟩ := invokeRunner_plays rfl h₁
      cases r with
      | error e' => cases hr
      | ok response' =>
        cases hr
        cases hname : StrategyRouter.parseName response.asText with
        | none =>
          rw [hname] at h₂
          obtain ⟨rfl, rfl⟩ := h₂
          exact ⟨q, _, rfl, .inl ⟨by simp [StrategyRouter.readRoute, hname], _, rfl⟩⟩
        | some selected =>
          rw [hname] at h₂
          dsimp only at h₂
          split at h₂
          · rename_i hlisted
            obtain ⟨rfl, rfl⟩ := h₂
            exact ⟨q, _, rfl, .inr ⟨selected, by simpa [StrategyRouter.readRoute, hname, Option.filter] using hlisted, rfl⟩⟩
          · rename_i hunlisted
            obtain ⟨rfl, rfl⟩ := h₂
            exact ⟨q, _, rfl, .inl ⟨by simpa [StrategyRouter.readRoute, hname, Option.filter] using hunlisted, _, rfl⟩⟩

/-- The strategy of an invocation is the one that the first reply selects, where there is a router. -/
theorem strategyForInvoke_plays {names : List String} {x : Except AgentError RunStrategy}
    (h : (agent.strategyForInvoke input names).Plays t x) :
    ((∃ e, x = .error e) ∧ agent.Unselected input (repliesOf t)) ∨ ∃ kind sk, sk.AtRoot ∧
      x = .ok (buildStrategy kind sk) ∧ ∀ rs, agent.Selects names (repliesOf t ++ rs) kind sk rs := by
  unfold strategyForInvoke at h
  cases hrouter : agent.strategyRouter with
  | none =>
    rw [hrouter] at h
    obtain ⟨rfl, rfl⟩ := h
    exact .inr ⟨agent.kind, _, agent.skeleton_atRoot _ _, rfl, fun rs => .fixed hrouter⟩
  | some router =>
    rw [hrouter] at h
    obtain ⟨y, t₁, t₂, rfl, h₁, h₂⟩ := Prog.Plays.first h
    obtain ⟨z, hz, rfl⟩ := Prog.plays_mapErr.mp h₁
    obtain ⟨hprompt, e, rfl⟩ | ⟨q, r, rfl, ⟨hread, e, rfl⟩ | ⟨selected, hread, rfl⟩⟩ := route_plays hz
    · obtain ⟨e', -, rfl, -⟩ | ⟨a, ha, -⟩ := h₂
      · exact .inl ⟨⟨e', rfl⟩, router, hrouter, .inl hprompt⟩
      · cases ha
    · obtain ⟨e', -, rfl, rfl⟩ | ⟨a, ha, -⟩ := h₂
      · exact .inl ⟨⟨e', rfl⟩, router, hrouter, .inr ⟨r, rfl, by simp [readSelection, hread]⟩⟩
      · cases ha
    · obtain ⟨e', he, -⟩ | ⟨a, ha, h₂⟩ := h₂
      · cases he
      · cases ha
        split at h₂
        · rename_i hreact
          obtain ⟨rfl, rfl⟩ := h₂
          refine .inl ⟨⟨_, rfl⟩, router, hrouter, .inr ⟨r, rfl, ?_⟩⟩
          simp only [Bool.and_eq_true, decide_eq_true_eq] at hreact
          simp [readSelection, hread, Option.filter, hreact.2, Option.isSome_iff_ne_none.mp hreact.1]
        · rename_i hreact
          obtain ⟨rfl, rfl⟩ := h₂
          have hruns : (agent.hitl.isNone || decide (selected = .reAct)) = true := by
            cases hhitl : agent.hitl with
            | none => rfl
            | some policy => simpa [hhitl] using hreact
          exact .inr ⟨_, _, agent.skeleton_atRoot _ _, rfl,
            fun rs => .routed hrouter (by simp [readSelection, hread, Option.filter, hruns])⟩

theorem longTermText_quiet : (agent.longTermText userId input).Only fun q => q.callsModel = false :=
  agent.longTermText_only (fun _ hq => hq.idle.not_model) userId input

/-- A strategy run that gives no answer was kept from it by what the invocation is told, by the router, or by the
replies to the run. -/
theorem runPrepared_plays {p : Prepared} {x : Except AgentError StrategyOutcome}
    (h : (agent.runPrepared userId sid p).Plays t x) (hnot : ∀ text, x ≠ .ok (.done text)) :
    (∃ y ∈ t, stepPanic y = true) ∨ agent.Unselected p.input (repliesOf t) ∨
      ∃ longTerm kind sk rs, HearsMemory agent t longTerm ∧
        agent.Selects (agent.activeToolNames p.skillCtx) (repliesOf t) kind sk rs ∧
        agent.RunStops kind sk (agent.activeToolNames p.skillCtx) (assembleMessagesWithContext
          (agent.assembleSystem p.skillCtx p.summariesBlock) longTerm p.history p.input) (p.hitlContext sid) rs := by
  obtain ⟨y, t₁, t₂, rfl, h₁, h₂⟩ := Prog.Plays.first h
  obtain ⟨longTerm, rfl, hmemory⟩ := longTermText_plays h₁
  have hfirst : repliesOf t₁ = [] := repliesOf_eq_nil (longTermText_quiet.plays h₁)
  obtain ⟨e, he, -⟩ | ⟨a, ha, h₂⟩ := h₂
  · cases he
  · cases ha
    obtain ⟨y, t₃, t₄, rfl, h₃, h₄⟩ := Prog.Plays.first h₂
    rw [repliesOf_append, hfirst, List.nil_append]
    obtain ⟨⟨e, rfl⟩, hunselected⟩ | ⟨kind, sk, hroot, rfl, hselects⟩ := strategyForInvoke_plays h₃
    · obtain ⟨e', -, -, rfl⟩ | ⟨a, ha, -⟩ := h₄
      · rw [List.append_nil]
        exact .inr (.inl hunselected)
      · cases ha
    · obtain ⟨e', he, -⟩ | ⟨a, ha, h₄⟩ := h₄
      · cases he
      · cases ha
        obtain hstops | ⟨y, hy, hpanic⟩ := runStrategy_stops hroot h₄ hnot
        · rw [repliesOf_append]
          exact .inr (.inr ⟨longTerm, kind, sk, repliesOf t₄, hmemory.mono (List.sublist_append_left _ _),
            hselects _, hstops⟩)
        · exact .inl ⟨y, by simp [hy], hpanic⟩

/-! ### The invocation -/

theorem append_plays {ms : List Message} {x : Except AgentError Unit}
    (h : (sess (SessionMemory.append sid ms)).Plays t x) : (∃ y ∈ t, failsTurn y = true) ∨ x = .ok () := by
  obtain ⟨y, h₀, rfl⟩ := Prog.plays_mapErr.mp h
  obtain ⟨z, t₁, t₂, rfl, h₁, h₂⟩ := Prog.Plays.first h₀
  obtain ⟨r, rfl, rfl⟩ := query_plays h₁
  cases r with
  | error e => exact .inl ⟨_, List.mem_cons_self, failsTurn_error e⟩
  | ok row =>
    cases row with
    | none => exact .inl ⟨_, List.mem_cons_self, rfl⟩
    | some session =>
      obtain ⟨e, he, -⟩ | ⟨a, ha, h₂⟩ := h₂
      · cases he
      · cases ha
        obtain ⟨now, t₃, rfl, h₃⟩ := h₂
        have h₃ : (query (.appendMessages sid ms (timestamp now))).Plays t₃ y := h₃
        obtain ⟨r, rfl, rfl⟩ := query_plays h₃
        cases r with
        | error e => exact .inl ⟨⟨.sql (.appendMessages sid ms (timestamp now)), .error e⟩, by simp, failsTurn_error e⟩
        | ok u => exact .inr rfl

/-- Recording a turn fails only where the database refuses. -/
theorem keepTurn_plays {response : String} {x : Except AgentError AgentOutput}
    (h : (agent.keepTurn userId sid input response).Plays t x) :
    (∃ y ∈ t, failsTurn y = true) ∨ x = .ok (.done response) := by
  obtain ⟨y, t₁, t₂, rfl, h₁, h₂⟩ := Prog.Plays.first h
  obtain ⟨z, hz, hfails⟩ | rfl := append_plays h₁
  · exact .inl ⟨z, List.mem_append_left _ hz, hfails⟩
  · obtain ⟨e, he, -⟩ | ⟨u, -, u', t₃, rfl, h₃⟩ := h₂
    · cases he
    · right
      dsimp only [Prog.bind] at h₃
      split at h₃
      · obtain ⟨r, t₄, rfl, -, hx⟩ := h₃
        exact hx
      · exact h₃.2

/-- What follows the preparation does not touch the opening context, and what follows the strategy calls no model. -/
theorem afterRun_only (p : Prepared) (outcome : StrategyOutcome) :
    (match outcome with
      | .done text => agent.keepTurn userId sid p.input text
      | .interrupted interrupt => handleToolInterrupt sid interrupt p.skillCtx : M AgentError AgentOutput).Only fun q =>
        q.asksClear sid = false ∧ q.callsModel = false := by
  cases outcome with
  | done text =>
    refine Prog.Only.mono (agent.keepTurn_appends ..) fun q hq => ?_
    obtain hq | ⟨ms, now, rfl⟩ := hq
    · exact ⟨hq.not_clear, hq.not_model⟩
    · exact ⟨rfl, rfl⟩
  | interrupted interrupt =>
    unfold handleToolInterrupt
    dsimp only
    split
    · trivial
    · refine Prog.Only.bind (Prog.Only.mono (twoWrites_only ..) fun q hq => ?_) fun _ => trivial
      cases q with
      | sql st => cases st <;> first | exact ⟨rfl, rfl⟩ | exact hq.elim
      | now => exact ⟨rfl, rfl⟩
      | _ => exact hq.elim

theorem prepare_callsNoModel : (agent.prepare userId sid input).Only fun q => q.callsModel = false := by
  refine Prog.Only.bind (sess_only (SessionManager.assertOwner_only rfl)) fun _ => Prog.Only.bind ?_ fun _ =>
    Prog.Only.bind ?_ fun _ => trivial
  · refine Prog.Only.mono (agent.openingContext_only userId input) fun q hq => ?_
    obtain hq | ⟨x, rfl⟩ := hq
    · exact hq.not_model
    · rfl
  · refine Prog.Only.mono (agent.resolveSkill_binds input) fun q hq => ?_
    obtain hq | ⟨x, rfl⟩ := hq
    · exact hq.idle.not_model
    · rfl

/-- An invocation that cleared the opening context and gives no answer was spoilt by what the environment answered. -/
theorem invoke_spoilt {x : Except AgentError AgentOutput} (h : (agent.invoke userId sid input).Plays t x)
    (hclear : ∃ y ∈ t, clearsContext sid y = true) (hnot : ∀ text, x ≠ .ok (.done text)) :
    agent.Spoilt sid input t := by
  obtain ⟨y, t₁, t₂, rfl, h₁, h₂⟩ := Prog.Plays.first h
  have hclear : ∃ z ∈ t₁, clearsContext sid z = true := by
    have hrest : ∀ p, (agent.runPrepared userId sid p >>= fun outcome =>
        match outcome with
        | .done text => agent.keepTurn userId sid p.input text
        | .interrupted interrupt => handleToolInterrupt sid interrupt p.skillCtx).Only fun q =>
          q.asksClear sid = false := by
      intro p
      refine Prog.Only.bind (Prog.Only.mono (agent.runPrepared_works userId p) fun q hq => ?_) fun outcome =>
        Prog.Only.mono (afterRun_only p outcome) fun q hq => hq.1
      obtain hq | hq := hq
      · exact hq.idle.not_clear
      · cases q <;> first | rfl | exact hq.elim
    obtain ⟨z, hz, hcleared⟩ := hclear
    rcases List.mem_append.mp hz with hz | hz
    · exact ⟨z, hz, hcleared⟩
    · obtain ⟨e, -, -, rfl⟩ | ⟨p, -, h₂⟩ := h₂
      · cases hz
      · exact absurd ⟨z, hz, hcleared⟩ (not_cleared ((hrest p).plays h₂))
  have hsub : t₁.Sublist (t₁ ++ t₂) := List.sublist_append_left t₁ t₂
  obtain ⟨z, hz, hfails⟩ | ⟨cfg, hskills, huncompiled | ⟨c, skillCtx, summaries, hopening, hskill, rfl⟩⟩ :=
    prepare_plays h₁ hclear
  · exact .failed ⟨z, List.mem_append_left _ hz, hfails⟩
  · exact .uncompiled hskills (huncompiled.mono hsub)
  · obtain ⟨e, he, -⟩ | ⟨p, hp, h₂⟩ := h₂
    · cases he
    · cases hp
      obtain ⟨y, t₃, t₄, rfl, h₃, h₄⟩ := Prog.Plays.first h₂
      have hopening : ⟨.sql (.selectPhaseOpening sid), .ok (some (some c))⟩ ∈ t₁ ++ (t₃ ++ t₄) := hsub.subset hopening
      -- The replies are those to the strategy run.
      have hreplies : repliesOf (t₁ ++ (t₃ ++ t₄)) = repliesOf t₃ := by
        have hlast : repliesOf t₄ = [] := by
          obtain ⟨e, -, -, rfl⟩ | ⟨outcome, -, h₄⟩ := h₄
          · rfl
          · exact repliesOf_eq_nil fun z hz => ((afterRun_only _ outcome).plays h₄ z hz).2
        rw [repliesOf_append, repliesOf_append, repliesOf_eq_nil (prepare_callsNoModel.plays h₁), hlast]
        simp
      have hstopped : (∀ text, y ≠ .ok (.done text)) → agent.Spoilt sid input (t₁ ++ (t₃ ++ t₄)) := by
        intro hy
        obtain ⟨z, hz, hpanic⟩ | hunselected | ⟨longTerm, kind, sk, rs, hmemory, hselects, hstops⟩ :=
          runPrepared_plays h₃ hy
        · exact .failed ⟨z, by simp [hz], failsTurn_panic hpanic⟩
        · exact .unselected hopening (hreplies ▸ hunselected)
        · have hsub' : t₃.Sublist (t₁ ++ (t₃ ++ t₄)) :=
            (List.sublist_append_left t₃ t₄).trans (List.sublist_append_right t₁ _)
          have htold : agent.Hears cfg sid input (t₁ ++ (t₃ ++ t₄)) ⟨c, skillCtx, summaries, longTerm⟩ :=
            ⟨hopening, hskill.mono hsub, hmemory.mono hsub'⟩
          exact .stopped hskills htold (hreplies ▸ hselects) hstops
      obtain ⟨e, rfl, -⟩ | ⟨outcome, rfl, h₄⟩ := h₄
      · exact hstopped fun text h => by cases h
      · cases outcome with
        | interrupted interrupt => exact hstopped fun text h => by cases h
        | done text =>
          obtain ⟨z, hz, hfails⟩ | rfl := keepTurn_plays h₄
          · exact .failed ⟨z, by simp [hz], hfails⟩
          · exact absurd rfl (hnot text)

end Agent

end AgentVerse
