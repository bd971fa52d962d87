import AgentVerse.Agent.Binding
import AgentVerse.Skill.Router

/-!
# Reloads of the skills

`reload_skills` in its steps: the new registry is loaded, the two caches are rebuilt from it one after the other, and
only then is it installed. An invocation routes and compiles the skill it selected under two locks; nothing else of it
fails for want of a skill (`NoSkillError`).
-/

namespace AgentVerse

open Effects

/-! ### Routing -/

/-- `KeywordOverlapRouter`. `names` tells whether a message names a skill; the overlap is compared in floating point,
and `score` is any count that orders messages and skills the same way. -/
structure KeywordOverlapRouter where
  names : String → SkillId → Bool
  score : String → Skill → Nat
  threshold : Nat

namespace KeywordOverlapRouter

/-- `max_by`: of several best candidates, the last one. -/
def best (score : Skill → Nat) : List Skill → Option Skill
  | [] => none
  | s :: skills =>
    match best score skills with
    | none => some s
    | some s' => if score s ≤ score s' then some s' else some s

def route (router : KeywordOverlapRouter) (message : String) (candidates : List Skill) : Option SkillId :=
  match candidates.find? fun s => router.names message s.id with
  | some s => some s.id
  | none =>
    (best (router.score message) (candidates.filter fun s => router.threshold ≤ router.score message s)).map (·.id)

theorem best_mem {score : Skill → Nat} {skills : List Skill} {s : Skill} (h : best score skills = some s) :
    s ∈ skills := by
  induction skills generalizing s with
  | nil => cases h
  | cons s₀ skills ih =>
    unfold best at h
    cases hb : best score skills with
    | none =>
      rw [hb] at h
      cases h
      exact List.mem_cons_self ..
    | some s' =>
      rw [hb] at h
      simp only at h
      split at h
      · cases h
        exact List.mem_cons_of_mem _ (ih hb)
      · cases h
        exact List.mem_cons_self ..

end KeywordOverlapRouter

/-- The router selects one of its candidates. -/
def SkillConfig.Selects (cfg : SkillConfig) : Prop :=
  ∀ message candidates id, cfg.route message candidates = some id → ∃ s ∈ candidates, s.id = id

theorem KeywordOverlapRouter.selects (router : KeywordOverlapRouter) (mode : SkillMode) :
    SkillConfig.Selects ⟨mode, router.route⟩ := by
  intro message candidates id h
  simp only [route] at h
  split at h
  · rename_i s hs
    cases h
    exact ⟨s, List.mem_of_find?_eq_some hs, rfl⟩
  · obtain ⟨s, hs, rfl⟩ := Option.map_eq_some_iff.mp h
    exact ⟨s, (List.mem_filter.mp (best_mem hs)).1, rfl⟩

/-- So does the router whose scores are fractions. -/
theorem Routing.KeywordOverlapRouter.selects (router : Routing.KeywordOverlapRouter) (u : Unicode) (mode : SkillMode) :
    SkillConfig.Selects ⟨mode, router.route u⟩ := fun _ _ _ => Routing.KeywordOverlapRouter.route_mem

/-- A skill that is eligible is in the registry. -/
theorem SkillRegistry.get_of_eligible {reg : SkillRegistry} {mode : SkillMode} {s : Skill}
    (h : s ∈ reg.eligible mode) : (reg.get s.id).isSome := by
  have hfind : ∀ s ∈ reg.skills, (reg.get s.id).isSome := by
    intro s hs
    rw [get, List.find?_isSome]
    exact ⟨s, hs, by simp⟩
  cases mode with
  | «open» => exact hfind s h
  | constrained ids =>
    obtain ⟨id, -, hid⟩ := List.mem_filterMap.mp h
    exact hfind s (List.mem_of_find?_eq_some hid)

/-! ### Caches -/

/-- The ids of the eligible skills, sorted. -/
def SkillConfig.ids (cfg : SkillConfig) (reg : SkillRegistry) : List SkillId :=
  ((reg.eligible cfg.mode).map (·.id)).insertionSort fun a b => a ≤ b

/-- What a reload asks for, beside the requests of the agent. -/
inductive ReloadRequest where
  /-- `SkillRegistry::load`. -/
  | load
  | setSummaries (text : String)
  | setIds (ids : List SkillId)
  /-- `*skills.registry.write().await = reg`. -/
  | install (reg : SkillRegistry)

abbrev ReloadReply : ReloadRequest → Type
  | .load => Except SkillError SkillRegistry
  | .setSummaries _ => Unit
  | .setIds _ => Unit
  | .install _ => Unit

/-- The world, with the caches of the skill configuration. An invocation reads the summaries from there. -/
structure SkillWorld where
  world : World
  summaries : String
  ids : List SkillId

/-- `disk` is what the directory of the skills holds when the `n`-th request is made. -/
def handleReload (disk : Nat → Except SkillError SkillRegistry) : Handler ReloadReply SkillWorld
  | .load, w => (disk w.world.steps, w)
  | .setSummaries text, w => ((), { w with summaries := text })
  | .setIds ids, w => ((), { w with ids := ids })
  | .install reg, w => ((), { w with world := { w.world with skills := reg } })

abbrev CallRequest : Type := Request ⊕ ReloadRequest

abbrev CallReply : CallRequest → Type := SumReply Reply ReloadReply

def handleCalls (env : Env) (disk : Nat → Except SkillError SkillRegistry) : Handler CallReply SkillWorld :=
  Handler.sum (fun q w =>
    let r := handle { env with summaries := fun _ => w.summaries } q w.world
    (r.1, { w with world := r.2 })) fun q w =>
    let r := handleReload disk q w
    (r.1, { r.2 with world := r.2.world.tick env })

/-- The caches are those of the installed registry. -/
def SkillWorld.Coherent (cfg : SkillConfig) (w : SkillWorld) : Prop :=
  w.summaries = cfg.summaries w.world.skills ∧ w.ids = cfg.ids w.world.skills

/-- The world when the skill configuration has been loaded. -/
def SkillConfig.loaded (cfg : SkillConfig) (w : World) : SkillWorld := ⟨w, cfg.summaries w.skills, cfg.ids w.skills⟩

/-! ### Calls -/

abbrev CallM (α : Type) := Prog CallRequest CallReply AgentError α

namespace SkillConfig

def rebuildCaches (cfg : SkillConfig) (reg : SkillRegistry) : CallM Unit :=
  .ask (.inr (.setSummaries (cfg.summaries reg))) fun _ =>
    .ask (.inr (.setIds (cfg.ids reg))) fun _ => .ret ()

/-- `reload_skills` of an agent with this configuration. -/
def reloadSkills (cfg : SkillConfig) : CallM Unit :=
  .ask (.inr .load) fun
    | .error e => .fail (.skill e)
    | .ok reg => do
      cfg.rebuildCaches reg
      .ask (.inr (.install reg)) fun _ => .ret ()

end SkillConfig

inductive ReloadCall where
  | invoke (userId : String) (sid : SessionId) (input : String)
  | reloadSkills

def Agent.reloadProgram (agent : Agent) : ReloadCall → CallM Unit
  | .invoke userId sid input => (agent.invoke userId sid input).inl >>= fun _ => .ret ()
  | .reloadSkills =>
    match agent.skills with
    | none => .fail (.skill (.notConfigured "no skills configured on this agent"))
    | some cfg => cfg.reloadSkills

/-! ### Errors of an invocation -/

/-- The skill registry is not to blame. -/
def NoSkillError {α : Type} (r : Except AgentError α) : Prop := ∀ e, r ≠ .error (.skill e)

section Errors

variable {A : Request → Prop} {α β : Type}

theorem noSkillError_ok (a : α) : NoSkillError (.ok a) := fun _ h => by cases h

theorem sess_noSkillError {p : M SessionMemoryError α} (hp : p.Only A) :
    (sess p).Meets (fun _ _ => True) A NoSkillError :=
  Prog.Meets.mapErr hp fun r _ e h => by cases r <;> cases h

theorem llm_noSkillError (p : M Core.AgentError α) : (llm p).Meets (fun _ _ => True) (fun _ => True) NoSkillError :=
  Prog.Meets.mapErr (Prog.only_true p) fun r _ e h => by cases r <;> cases h

theorem NoSkillError.bind {p : M AgentError α} {f : α → M AgentError β}
    (hp : p.Meets (fun _ _ => True) A NoSkillError) (hf : ∀ a, (f a).Meets (fun _ _ => True) A NoSkillError) :
    (p >>= f).Meets (fun _ _ => True) A NoSkillError :=
  hp.bind (fun a _ => hf a) fun e he e' h => he e' (by cases h; rfl)

theorem request_noSkillError {q : Request} (hq : A q) :
    (request q : M AgentError (Reply q)).Meets (fun _ _ => True) A NoSkillError :=
  ⟨hq, fun r _ => noSkillError_ok r⟩

theorem orJson_noSkillError [Nested α] (t : JsonText α) : (orJson t).Meets (fun _ _ => True) A NoSkillError := by
  unfold orJson
  split
  · exact noSkillError_ok _
  · exact fun _ h => by cases h

namespace Agent

theorem openingContext_noSkillError (agent : Agent) (userId : String) (sid : SessionId) (input : String) :
    (agent.openingContext userId sid input).Meets (fun _ _ => True) (· ≠ .readSkills) NoSkillError := by
  refine NoSkillError.bind ?_ fun phaseCtx => ?_
  · unfold phaseOpening
    split
    · exact sess_noSkillError (SessionMemory.getPhaseOpeningContext_only fun h => by cases h)
    · exact noSkillError_ok _
  · cases phaseCtx with
    | some ctx =>
      exact NoSkillError.bind (request_noSkillError (q := .cacheEvict userId sid) fun h => by cases h) fun _ =>
        NoSkillError.bind (sess_noSkillError (SessionMemory.setPhaseOpeningContext_only fun h => by cases h)) fun _ =>
          noSkillError_ok _
    | none =>
      refine NoSkillError.bind (p := getCacheMemory userId sid) ⟨fun h => (by cases h), fun r _ => ?_⟩ fun _ => noSkillError_ok _
      cases r with
      | some messages => exact noSkillError_ok _
      | none =>
        exact NoSkillError.bind (sess_noSkillError (query_only fun h => by cases h)) fun _ =>
          NoSkillError.bind (request_noSkillError (q := .cacheStore userId sid _) fun h => by cases h) fun _ => noSkillError_ok _

theorem longTermText_noSkillError (agent : Agent) (userId input : String) :
    (agent.longTermText userId input).Meets (fun _ _ => True) (fun _ => True) NoSkillError := by
  unfold longTermText
  split
  · refine ⟨trivial, fun r _ => ?_⟩
    cases r with
    | error e => exact noSkillError_ok _
    | ok memories =>
      simp only
      split <;> exact noSkillError_ok _
  · exact noSkillError_ok _

theorem runPrepared_noSkillError (agent : Agent) (userId : String) (sid : SessionId) (p : Prepared) :
    (agent.runPrepared userId sid p).Meets (fun _ _ => True) (fun _ => True) NoSkillError := by
  refine NoSkillError.bind (agent.longTermText_noSkillError userId p.input) fun longTerm =>
    NoSkillError.bind ?_ fun strategy => ?_
  · unfold strategyForInvoke
    split
    · exact noSkillError_ok _
    · refine NoSkillError.bind (llm_noSkillError _) fun selected => ?_
      split
      · exact fun _ h => by cases h
      · exact noSkillError_ok _
  · unfold runStrategy
    split <;> exact llm_noSkillError _

theorem keepTurn_noSkillError (agent : Agent) (userId : String) (sid : SessionId) (input response : String) :
    (agent.keepTurn userId sid input response).Meets (fun _ _ => True) (fun _ => True) NoSkillError := by
  refine NoSkillError.bind (sess_noSkillError (Prog.only_true _)) fun _ =>
    NoSkillError.bind (request_noSkillError (q := .cacheAppendTurn userId sid _ _) trivial) fun _ => ?_
  dsimp only
  split
  · exact NoSkillError.bind (request_noSkillError (q := .longtermWrite userId _ _) trivial) fun _ => noSkillError_ok _
  · exact noSkillError_ok _

theorem handleToolInterrupt_noSkillError (sid : SessionId) (interrupt : HitlInterrupt)
    (skillCtx : Option SkillContext) :
    (handleToolInterrupt sid interrupt skillCtx).Meets (fun _ _ => True) (fun _ => True) NoSkillError := by
  unfold handleToolInterrupt
  split
  · exact fun _ h => by cases h
  · exact NoSkillError.bind (NoSkillError.bind (sess_noSkillError (Prog.only_true _)) fun _ =>
      sess_noSkillError (Prog.only_true _)) fun _ => noSkillError_ok _

end Agent

end Errors

end AgentVerse
