import Mathlib.Data.Fintype.Basic
import AgentVerse.Agent.Reload

/-!
# Reloads among invocations

In any interleaving of reloads and invocations, the caches belong to the installed registry whenever no reload is in
progress, and no invocation loses the skill that it routed to, as long as no reload begins to write while another one
is midway, and none installs a registry without a skill that an invocation has selected and not yet compiled
(`reload_coherent`). Two reloads that overlap, or a reload between the two locks of an invocation, break this
(`reload_mixed`).
-/

namespace AgentVerse

open Effects

/-! ### Where the calls are -/

abbrev CallView (ι : Type) : Type := View ι CallReply SkillWorld

/-- The first write of a reload. -/
def beginsReload : Step CallReply → Bool
  | ⟨.inr (.setSummaries _), _⟩ => true
  | _ => false

/-- The last write of a reload. -/
def installsRegistry : Step CallReply → Bool
  | ⟨.inr (.install _), _⟩ => true
  | _ => false

def registryRead? : Step CallReply → Option SkillRegistry
  | ⟨.inl .readSkills, reg⟩ => some reg
  | _ => none

variable {ι : Type}

/-- Reload `i` has begun to write and has not installed its registry. -/
def Midway (v : CallView ι) (i : ι) : Prop :=
  Happened v i (beginsReload · = true) ∧ ¬ Happened v i (installsRegistry · = true)

section Midway

/-- What holds between any two turns. -/
structure Orderly (cfg : SkillConfig) (calls : ι → ReloadCall) (v : CallView ι) : Prop where
  reloads : ∀ i, Midway v i → calls i = .reloadSkills
  one : ∀ i j, Midway v i → Midway v j → i = j
  coherent : (∀ i, ¬ Midway v i) → v.state.Coherent cfg

variable {env : Env} {disk : Nat → Except SkillError SkillRegistry} {cfg : SkillConfig} {calls : ι → ReloadCall}
  {v : CallView ι} {i j : ι} {q : CallRequest}

/-- A turn other than the first and the last write leaves every call where it is. -/
theorem midway_after (hb : beginsReload ⟨q, (handleCalls env disk q v.state).1⟩ = false)
    (hf : installsRegistry ⟨q, (handleCalls env disk q v.state).1⟩ = false) :
    Midway (v.after (handleCalls env disk) j q) i ↔ Midway v i := by
  unfold Midway
  rw [happened_not (by simp [hb]), happened_not (by simp [hf])]

/-- The turns of the others do not move a call. -/
theorem midway_other (hj : j ≠ i) : Midway (v.after (handleCalls env disk) j q) i ↔ Midway v i := by
  unfold Midway
  rw [happened_other hj, happened_other hj]

/-- A request that is no write of a reload. -/
theorem Orderly.after_quiet (hI : Orderly cfg calls v)
    (hb : beginsReload ⟨q, (handleCalls env disk q v.state).1⟩ = false)
    (hf : installsRegistry ⟨q, (handleCalls env disk q v.state).1⟩ = false)
    (hc : (∀ i, ¬ Midway v i) → (handleCalls env disk q v.state).2.Coherent cfg) :
    Orderly cfg calls (v.after (handleCalls env disk) j q) where
  reloads i hm := hI.reloads i ((midway_after hb hf).mp hm)
  one i k hi hk := hI.one i k ((midway_after hb hf).mp hi) ((midway_after hb hf).mp hk)
  coherent hnone := hc fun i hm => hnone i ((midway_after hb hf).mpr hm)

/-- The requests of the agent leave the caches and the registry alone. -/
theorem Orderly.after_request (hI : Orderly cfg calls v) (q : Request) :
    Orderly cfg calls (v.after (handleCalls env disk) j (.inl q)) := by
  refine hI.after_quiet rfl rfl fun hnone => ?_
  obtain ⟨hs, hi⟩ := hI.coherent hnone
  have hskills : (handleCalls env disk (.inl q) v.state).2.world.skills = v.state.world.skills := handle_skills q _
  exact ⟨by rw [hskills]; exact hs, by rw [hskills]; exact hi⟩

theorem load_orderly (hI : Orderly cfg calls v) :
    Orderly cfg calls (v.after (handleCalls env disk) j (.inr .load)) :=
  hI.after_quiet rfl rfl fun hnone => hI.coherent hnone

theorem setIds_orderly (hI : Orderly cfg calls v) (hK : Midway v i) (ids : List SkillId) :
    Orderly cfg calls (v.after (handleCalls env disk) i (.inr (.setIds ids))) :=
  hI.after_quiet rfl rfl fun hnone => absurd hK (hnone i)

end Midway

variable [DecidableEq ι]

/-- The registries that call `i` has read. -/
def registriesRead (v : CallView ι) (i : ι) : List SkillRegistry :=
  v.trace.filterMap fun x => if x.1 = i then registryRead? x.2 else none

/-- The skill that invocation `i` has selected and not yet compiled. -/
def selectedSkill (cfg : SkillConfig) (input : String) (v : CallView ι) (i : ι) : Option SkillId :=
  match registriesRead v i with
  | [reg] => cfg.route input (reg.eligible cfg.mode)
  | _ => none

/-- The registry has the skill that call `i` has selected. -/
def KeepsSelected (cfg : SkillConfig) (reg : SkillRegistry) (v : CallView ι) (i : ι) : ReloadCall → Prop
  | .invoke _ _ input => ∀ id ∈ selectedSkill cfg input v i, (reg.get id).isSome
  | .reloadSkills => True

/-- No reload begins to write while another one is midway, and none installs a registry without a skill that an
invocation has selected. -/
def SkillsUndisturbed (cfg : SkillConfig) (calls : ι → ReloadCall) (v : CallView ι) (_ : ι) : CallRequest → Prop
  | .inr (.setSummaries _) => ∀ j, ¬ Midway v j
  | .inr (.install reg) => ∀ j, KeepsSelected cfg reg v j (calls j)
  | _ => True

instance (v : CallView ι) (i : ι) (p : Step CallReply → Bool) : Decidable (Happened v i (p · = true)) :=
  inferInstanceAs (Decidable (∃ x ∈ v.trace, x.1 = i ∧ p x.2 = true))

instance (v : CallView ι) (i : ι) : Decidable (Midway v i) := inferInstanceAs (Decidable (_ ∧ _))

instance (cfg : SkillConfig) (reg : SkillRegistry) (v : CallView ι) (i : ι) (call : ReloadCall) :
    Decidable (KeepsSelected cfg reg v i call) :=
  match call with
  | .invoke _ _ input => inferInstanceAs (Decidable (∀ id ∈ selectedSkill cfg input v i, (reg.get id).isSome))
  | .reloadSkills => .isTrue trivial

instance [Fintype ι] (cfg : SkillConfig) (calls : ι → ReloadCall) (v : CallView ι) (i : ι) (q : CallRequest) :
    Decidable (SkillsUndisturbed cfg calls v i q) :=
  match q with
  | .inr (.setSummaries _) => inferInstanceAs (Decidable (∀ j, ¬ Midway v j))
  | .inr (.install reg) => inferInstanceAs (Decidable (∀ j, KeepsSelected cfg reg v j (calls j)))
  | .inr .load => .isTrue trivial
  | .inr (.setIds _) => .isTrue trivial
  | .inl _ => .isTrue trivial

/-! ### The terms of the calls -/

/-- What call `i` may ask. -/
def InOrder (calls : ι → ReloadCall) (v : CallView ι) (i : ι) : CallRequest → Prop
  | .inr (.setSummaries _) => calls i = .reloadSkills
  | .inr (.setIds _) => Midway v i
  | .inr (.install _) => Midway v i
  | _ => True

def reloading (cfg : SkillConfig) (calls : ι → ReloadCall) : Discipline ι CallReply SkillWorld :=
  ⟨Orderly cfg calls, SkillsUndisturbed cfg calls, InOrder calls⟩

variable {env : Env} {disk : Nat → Except SkillError SkillRegistry} {cfg : SkillConfig} {calls : ι → ReloadCall}
  {v : CallView ι} {i j : ι} {q : CallRequest}

theorem registriesRead_after : registriesRead (v.after (handleCalls env disk) j q) i =
    registriesRead v i ++ if j = i then (registryRead? ⟨q, (handleCalls env disk q v.state).1⟩).toList else [] := by
  unfold registriesRead
  rw [View.after_trace, List.filterMap_append]
  by_cases hj : j = i
  · rw [if_pos hj]
    cases hr : registryRead? ⟨q, (handleCalls env disk q v.state).1⟩ <;> simp [hj, hr]
  · simp [hj]

/-! ### Reloads -/

/-- What a call guarantees when it ends. -/
def CallEnds (calls : ι → ReloadCall) (i : ι) (r : Except AgentError Unit) (v : CallView ι) : Prop :=
  match calls i with
  | .invoke .. => NoSkillError r
  | .reloadSkills => ¬ Midway v i

/-- Reload `i` has written nothing yet. -/
def NotBegun (v : CallView ι) (i : ι) : Prop :=
  ¬ Happened v i (beginsReload · = true) ∧ ¬ Happened v i (installsRegistry · = true)

theorem notBegun_stable : (reloading cfg calls).Stable (handleCalls env disk) i fun v => NotBegun v i := by
  intro v j q hj _ _ _ hK
  exact ⟨by rw [happened_other hj]; exact hK.1, by rw [happened_other hj]; exact hK.2⟩

theorem notMidway_stable : (reloading cfg calls).Stable (handleCalls env disk) i fun v => ¬ Midway v i := by
  intro v j q hj _ _ _ hK
  rwa [midway_other hj]

/-- A reload that is midway has the caches to itself. -/
theorem summaries_stable (text : String) : (reloading cfg calls).Stable (handleCalls env disk) i
    fun v => Midway v i ∧ v.state.summaries = text := by
  rintro v j q hj hI hC hG ⟨hm, ht⟩
  refine ⟨(midway_other hj).mpr hm, ?_⟩
  cases q with
  | inl q => exact ht
  | inr r =>
    cases r with
    | setSummaries text' => exact absurd hm (hC i)
    | load => exact ht
    | setIds ids => exact ht
    | install reg => exact ht

theorem ids_stable (text : String) (ids : List SkillId) : (reloading cfg calls).Stable (handleCalls env disk) i
    fun v => (Midway v i ∧ v.state.summaries = text) ∧ v.state.ids = ids := by
  rintro v j q hj hI hC hG ⟨hK, hids⟩
  refine ⟨summaries_stable text v j q hj hI hC hG hK, ?_⟩
  cases q with
  | inl q => exact hids
  | inr r =>
    cases r with
    | setSummaries text' => exact hids
    | load => exact hids
    | setIds ids' => exact absurd (hI.one j i hG hK.1) hj
    | install reg => exact hids

/-- The first write of a reload. -/
theorem setSummaries_orderly (hcall : calls i = .reloadSkills) (hnone : ∀ j, ¬ Midway v j) (text : String)
    (hK : NotBegun v i) :
    Orderly cfg calls (v.after (handleCalls env disk) i (.inr (.setSummaries text))) ∧
      Midway (v.after (handleCalls env disk) i (.inr (.setSummaries text))) i := by
  have hmid : Midway (v.after (handleCalls env disk) i (.inr (.setSummaries text))) i :=
    ⟨happened_after.mpr (.inr ⟨rfl, rfl⟩), by rw [happened_not (by simp [installsRegistry])]; exact hK.2⟩
  have honly : ∀ j, Midway (v.after (handleCalls env disk) i (.inr (.setSummaries text))) j → j = i := by
    intro j hj
    by_contra hne
    exact hnone j ((midway_other (Ne.symm hne)).mp hj)
  refine ⟨⟨fun j hj => ?_, fun j k hj hk => ?_, fun h => absurd hmid (h i)⟩, hmid⟩
  · rw [honly j hj]
    exact hcall
  · rw [honly j hj, honly k hk]

/-- The last write of a reload. -/
theorem install_orderly (hI : Orderly cfg calls v) {reg : SkillRegistry}
    (hK : (Midway v i ∧ v.state.summaries = cfg.summaries reg) ∧ v.state.ids = cfg.ids reg) :
    Orderly cfg calls (v.after (handleCalls env disk) i (.inr (.install reg))) ∧
      ¬ Midway (v.after (handleCalls env disk) i (.inr (.install reg))) i := by
  have hdone : ¬ Midway (v.after (handleCalls env disk) i (.inr (.install reg))) i :=
    fun h => h.2 (happened_after.mpr (.inr ⟨rfl, rfl⟩))
  have hnone : ∀ j, ¬ Midway (v.after (handleCalls env disk) i (.inr (.install reg))) j := by
    intro j hj
    by_cases hji : j = i
    · subst hji
      exact hdone hj
    · exact hji (hI.one j i ((midway_other (Ne.symm hji)).mp hj) hK.1.1)
  exact ⟨⟨fun j hj => absurd hj (hnone j), fun j _ hj => absurd hj (hnone j), fun _ => ⟨hK.1.2, hK.2⟩⟩, hdone⟩

theorem reloadSkills_safe (hcall : calls i = .reloadSkills) (hv : NotBegun v i) :
    (reloading cfg calls).Safe (handleCalls env disk) i (fun _ v => ¬ Midway v i) cfg.reloadSkills v := by
  have hidle : ∀ {v : CallView ι}, NotBegun v i → ¬ Midway v i := fun h hm => h.1 hm.1
  refine ⟨_, notBegun_stable, hv, fun v₁ hI₁ hK₁ _ => ⟨trivial, load_orderly hI₁, ?_⟩⟩
  have hK₁' : NotBegun (v₁.after (handleCalls env disk) i (.inr .load)) i :=
    ⟨by rw [happened_not (by simp [beginsReload])]; exact hK₁.1,
      by rw [happened_not (by simp [installsRegistry])]; exact hK₁.2⟩
  cases (handleCalls env disk (.inr .load) v₁.state).1 with
  | error e => exact Discipline.Safe.fail notMidway_stable (hidle hK₁')
  | ok reg =>
    refine ⟨_, notBegun_stable, hK₁', fun v₂ hI₂ hK₂ hC₂ => ?_⟩
    have hbegun : Orderly cfg calls (v₂.after (handleCalls env disk) i (.inr (.setSummaries (cfg.summaries reg)))) ∧
        Midway (v₂.after (handleCalls env disk) i (.inr (.setSummaries (cfg.summaries reg)))) i :=
      setSummaries_orderly hcall hC₂ _ hK₂
    obtain ⟨hI₂', hm₂⟩ := hbegun
    refine ⟨hcall, hI₂', _, summaries_stable (cfg.summaries reg), ⟨hm₂, rfl⟩, fun v₃ hI₃ hK₃ _ => ?_⟩
    refine ⟨hK₃.1, setIds_orderly hI₃ hK₃.1 _, _, ids_stable (cfg.summaries reg) (cfg.ids reg), ?_, ?_⟩
    · exact ⟨⟨(midway_after rfl rfl).mpr hK₃.1, hK₃.2⟩, rfl⟩
    · intro v₄ hI₄ hK₄ _
      exact ⟨hK₄.1.1, (install_orderly hI₄ hK₄).1, Discipline.Safe.ret notMidway_stable (install_orderly hI₄ hK₄).2⟩

/-! ### Invocations -/

theorem registriesRead_stable (regs : List SkillRegistry) : (reloading cfg calls).Stable (handleCalls env disk) i
    fun v => registriesRead v i = regs := by
  intro v j q hj _ _ _ hK
  rw [registriesRead_after, if_neg hj, hK, List.append_nil]

/-- The registry keeps the skill that an invocation has selected. -/
theorem selected_stable {userId input : String} {s : SessionId} {reg : SkillRegistry} {id : SkillId}
    (hcall : calls i = .invoke userId s input) (hroute : cfg.route input (reg.eligible cfg.mode) = some id) :
    (reloading cfg calls).Stable (handleCalls env disk) i
      fun v => registriesRead v i = [reg] ∧ (v.state.world.skills.get id).isSome := by
  rintro v j q hj hI hC hG ⟨hread, hget⟩
  refine ⟨registriesRead_stable [reg] v j q hj hI hC hG hread, ?_⟩
  cases q with
  | inl q =>
    show (((handle { env with summaries := fun _ => v.state.summaries } q v.state.world).2.skills).get id).isSome
    rw [handle_skills]
    exact hget
  | inr r =>
    cases r with
    | install reg' =>
      have hkeep : KeepsSelected cfg reg' v i (calls i) := hC i
      rw [hcall] at hkeep
      exact hkeep id (by simp [selectedSkill, hread, hroute])
    | load => exact hget
    | setSummaries text => exact hget
    | setIds ids => exact hget

/-- A stage of an invocation that reads no registry. -/
theorem early_safe {α : Type} {p : M AgentError α} (hp : p.Meets (fun _ _ => True) (· ≠ .readSkills) NoSkillError)
    (hv : registriesRead v i = []) :
    (reloading cfg calls).Safe (handleCalls env disk) i (fun r v => NoSkillError r ∧ registriesRead v i = [])
      p.inl v := by
  refine Discipline.Safe.of_meets hp.inl (registriesRead_stable []) hv ?_
  rintro v _ hI hK - ⟨q, rfl, hq⟩
  refine ⟨trivial, hI.after_request q, ?_⟩
  have hnone : registryRead? ⟨.inl q, (handleCalls env disk (.inl q) v.state).1⟩ = none := by
    cases q with
    | readSkills => exact absurd rfl hq
    | _ => rfl
  rw [registriesRead_after, hK, hnone]
  simp

/-- Any other stage. -/
theorem late_safe {α : Type} {p : M AgentError α} (hp : p.Meets (fun _ _ => True) (fun _ => True) NoSkillError) :
    (reloading cfg calls).Safe (handleCalls env disk) i (fun r _ => NoSkillError r) p.inl v :=
  Discipline.Safe.imp (fun _ _ h => h.1) (Discipline.Safe.of_meets hp.inl Discipline.stable_true trivial (by
    rintro v _ hI - - ⟨q, rfl, -⟩
    exact ⟨trivial, hI.after_request q, trivial⟩))

theorem late_bind_safe {α β : Type} {p : CallM α} {f : α → CallM β} (hI : Orderly cfg calls v)
    (hp : (reloading cfg calls).Safe (handleCalls env disk) i (fun r _ => NoSkillError r) p v)
    (hf : ∀ a v, Orderly cfg calls v →
      (reloading cfg calls).Safe (handleCalls env disk) i (fun r _ => NoSkillError r) (f a) v) :
    (reloading cfg calls).Safe (handleCalls env disk) i (fun r _ => NoSkillError r) (p >>= f) v :=
  Discipline.Safe.bind hI hp (fun a v hI _ => hf a v hI) fun e _ _ he =>
    Discipline.Safe.fail (fun _ _ _ _ _ _ _ h => h) fun e' h => he e' (by cases h; rfl)

theorem noSkillError_safe {α : Type} {r : Except AgentError α} (hr : NoSkillError r) :
    (reloading cfg calls).Safe (handleCalls env disk) i (fun r _ => NoSkillError r) (.lift r : CallM α) v := by
  cases r with
  | ok a => exact Discipline.Safe.ret (fun _ _ _ _ _ _ _ h => h) hr
  | error e => exact Discipline.Safe.fail (fun _ _ _ _ _ _ _ h => h) hr

/-- The skill that the first look selects is there at the second one. -/
theorem resolveSkill_skillSafe {agent : Agent} (hcfg : agent.skills = some cfg) (hsel : cfg.Selects) {userId input : String}
    {s s' : SessionId} (hcall : calls i = .invoke userId s' input) (hI : Orderly cfg calls v)
    (hv : registriesRead v i = []) :
    (reloading cfg calls).Safe (handleCalls env disk) i (fun r _ => NoSkillError r)
      (agent.resolveSkill s input).inl v := by
  unfold Agent.resolveSkill
  rw [Prog.inl_bind]
  refine Discipline.Safe.bind hI (early_safe (sess_noSkillError (SessionMemory.getSkillContext_only fun h => by
    cases h)) hv) ?_ ?_
  · rintro existing v' hI' ⟨-, hread⟩
    cases existing with
    | some json => exact late_safe (NoSkillError.bind (orJson_noSkillError json) fun _ => noSkillError_ok _)
    | none =>
      rw [hcfg]
      refine ⟨_, registriesRead_stable [], hread, fun v₁ hI₁ hK₁ _ => ⟨trivial, hI₁.after_request _, ?_⟩⟩
      have hreg : (handleCalls env disk (.inl .readSkills) v₁.state).1 = v₁.state.world.skills := rfl
      have hread₁ : registriesRead (v₁.after (handleCalls env disk) i (.inl .readSkills)) i =
          [v₁.state.world.skills] := by
        rw [registriesRead_after, hK₁, if_pos rfl, hreg]
        rfl
      rw [hreg]
      cases hroute : cfg.route input (v₁.state.world.skills.eligible cfg.mode) with
      | none =>
        simp only [Prog.bind, hroute]
        exact late_safe (NoSkillError.bind (request_noSkillError trivial) fun _ => noSkillError_ok _)
      | some id =>
        simp only [Prog.bind, hroute]
        obtain ⟨skill, hmem, rfl⟩ := hsel _ _ _ hroute
        refine ⟨_, selected_stable hcall hroute, ⟨hread₁, SkillRegistry.get_of_eligible hmem⟩, fun v₂ hI₂ hK₂ _ =>
          ⟨trivial, hI₂.after_request _, ?_⟩⟩
        obtain ⟨skill', hskill'⟩ := Option.isSome_iff_exists.mp hK₂.2
        have hctx : ∃ ctx, v₂.state.world.skills.compileContext skill.id = .ok ctx := by
          rw [SkillRegistry.compileContext, hskill']
          exact ⟨_, rfl⟩
        obtain ⟨ctx, hctx⟩ := hctx
        have hreg₂ : (handleCalls env disk (.inl .readSkills) v₂.state).1 = v₂.state.world.skills := rfl
        rw [hreg₂]
        simp only [Prog.bind, hctx]
        exact late_safe (NoSkillError.bind (sess_noSkillError (Prog.only_true _)) fun _ => noSkillError_ok _)
  · rintro e v' _ ⟨he, -⟩
    exact noSkillError_safe (r := .error e) fun e' h => he e' (by cases h; rfl)

theorem invoke_skillSafe {agent : Agent} (hcfg : agent.skills = some cfg) (hsel : cfg.Selects) {userId input : String}
    {s : SessionId} (hcall : calls i = .invoke userId s input) (hI : Orderly cfg calls v)
    (hv : registriesRead v i = []) :
    (reloading cfg calls).Safe (handleCalls env disk) i (fun r _ => NoSkillError r)
      (agent.invoke userId s input).inl v := by
  have herr : ∀ {α β : Type} {e : AgentError} {v : CallView ι}, NoSkillError (.error e : Except AgentError α) →
      (reloading cfg calls).Safe (handleCalls env disk) i (fun r _ => NoSkillError r) (.fail e : CallM β) v :=
    fun he => Discipline.Safe.fail (fun _ _ _ _ _ _ _ h => h) fun e' h => he e' (by cases h; rfl)
  unfold Agent.invoke Agent.prepare
  simp only [Prog.inl_bind, Prog.bind_assoc]
  refine Discipline.Safe.bind hI (early_safe (sess_noSkillError (SessionManager.assertOwner_only fun h => by cases h)) hv)
    (fun u v hI hv => ?_) fun e v _ he => herr he.1
  refine Discipline.Safe.bind hI (early_safe (agent.openingContext_noSkillError userId s input) hv.2)
    (fun x v hI hv => ?_) fun e v _ he => herr he.1
  refine Discipline.Safe.bind hI (resolveSkill_skillSafe hcfg hsel hcall hI hv.2) (fun y v hI _ => ?_)
    fun e v _ he => herr he
  refine late_bind_safe hI (late_safe (noSkillError_ok _)) fun p v hI => ?_
  refine late_bind_safe hI (late_safe (agent.runPrepared_noSkillError userId s p)) fun outcome v _ => ?_
  cases outcome with
  | done text => exact late_safe (agent.keepTurn_noSkillError userId s _ text)
  | interrupted interrupt => exact late_safe (Agent.handleToolInterrupt_noSkillError s interrupt _)

theorem reloadProgram_safe {agent : Agent} (hcfg : agent.skills = some cfg) (hsel : cfg.Selects)
    (hI : Orderly cfg calls v) (hv : v.trace = []) :
    (reloading cfg calls).Safe (handleCalls env disk) i (CallEnds calls i) (agent.reloadProgram (calls i)) v := by
  cases hcall : calls i with
  | invoke userId sid input =>
    have hread : registriesRead v i = [] := by rw [registriesRead, hv]; rfl
    refine Discipline.Safe.imp (fun r v hr => ?_)
      (late_bind_safe hI (invoke_skillSafe hcfg hsel hcall hI hread) fun _ v _ => noSkillError_safe (noSkillError_ok ()))
    rw [CallEnds, hcall]
    exact hr
  | reloadSkills =>
    have hnever : ∀ p : Step CallReply → Prop, ¬ Happened v i p := by
      rintro p ⟨x, hx, -⟩
      rw [hv] at hx
      cases hx
    unfold Agent.reloadProgram
    rw [hcfg]
    refine Discipline.Safe.imp (fun r v hr => ?_) (reloadSkills_safe hcall ⟨hnever _, hnever _⟩)
    rw [CallEnds, hcall]
    exact hr

/-! ### Pools of calls -/

def Agent.reloadPool (agent : Agent) (calls : ι → ReloadCall) (w : SkillWorld) :
    Pool ι CallReply SkillWorld AgentError Unit :=
  ⟨fun i => agent.reloadProgram (calls i), ⟨w, []⟩⟩

/-- Reload `i` has asked for something and has not ended. -/
def InProgress (P : Pool ι CallReply SkillWorld AgentError Unit) (i : ι) : Prop :=
  (∃ x ∈ P.view.trace, x.1 = i) ∧ ∃ q k, P.threads i = .ask q k

/-- In every interleaving in which no reload begins to write while another one is midway, and none installs a registry
without a skill that an invocation has selected: the caches belong to the registry whenever no reload is in progress,
and no invocation fails for want of its skill. -/
theorem reload_coherent (env : Env) (disk : Nat → Except SkillError SkillRegistry) (agent : Agent) (cfg : SkillConfig)
    (hcfg : agent.skills = some cfg) (hsel : cfg.Selects) (calls : ι → ReloadCall) (w : World) (schedule : List ι)
    (hC : (agent.reloadPool calls (cfg.loaded w)).Conforms (handleCalls env disk) (SkillsUndisturbed cfg calls)
      schedule) :
    let P := (agent.reloadPool calls (cfg.loaded w)).run (handleCalls env disk) schedule
    ((∀ i, calls i = .reloadSkills → ¬ InProgress P i) → P.view.state.Coherent cfg) ∧
      ∀ i userId sid input, calls i = .invoke userId sid input → ∀ id, P.threads i ≠ .fail (.skill (.notFound id)) := by
  intro P
  have hstart : (reloading cfg calls).inv (agent.reloadPool calls (cfg.loaded w)).view := by
    have hnever : ∀ i, ¬ Midway (agent.reloadPool calls (cfg.loaded w)).view i := by
      rintro i ⟨⟨x, hx, -⟩, -⟩
      cases hx
    exact ⟨fun i h => absurd h (hnever i), fun i _ h => absurd h (hnever i), fun _ => ⟨rfl, rfl⟩⟩
  have hsafe : ∀ i, (reloading cfg calls).Safe (handleCalls env disk) i (CallEnds calls i)
      ((agent.reloadPool calls (cfg.loaded w)).threads i) (agent.reloadPool calls (cfg.loaded w)).view :=
    fun i => reloadProgram_safe hcfg hsel hstart rfl
  have hI : Orderly cfg calls P.view := (Pool.run_safe hstart hsafe hC).1
  refine ⟨fun hnone => hI.coherent fun i hm => ?_, fun i userId sid input hcall id hfail => ?_⟩
  · have hcall := hI.reloads i hm
    obtain ⟨x, hx, hxi, -⟩ := hm.1
    obtain ⟨hok, herr⟩ := Pool.run_post hstart hsafe hC i
    unfold CallEnds at hok herr
    simp only [hcall] at hok herr
    cases ht : P.threads i with
    | ret a => exact hok a ht hm
    | fail e => exact herr e ht hm
    | ask q k => exact hnone i hcall ⟨⟨x, hx, hxi⟩, q, k, ht⟩
  · have hend := (Pool.run_post hstart hsafe hC i).2 _ hfail
    rw [CallEnds, hcall] at hend
    exact hend _ rfl

/-! ### Runs -/

theorem SkillConfig.byName_selects : SkillConfig.byName.Selects := by
  intro message candidates id h
  obtain ⟨s, hs, rfl⟩ := Option.map_eq_some_iff.mp h
  exact ⟨s, List.mem_of_find?_eq_some hs, rfl⟩

/-- An invocation that names the skill `draft`, and a reload. -/
def invokeAndReload : Bool → ReloadCall
  | false => .invoke "u" 0 "draft"
  | true => .reloadSkills

/-- The directory holds the skill `draft` at first, and then only `review`. -/
def shrinkingDisk (n : Nat) : Except SkillError SkillRegistry := .ok ⟨[if n = 0 then .draft else .review]⟩

/-- The reload comes after the invocation. -/
theorem reload_coherent_in_turn :
    let P := (Agent.routing.reloadPool invokeAndReload (SkillConfig.byName.loaded .unbound)).run
      (handleCalls .answering shrinkingDisk) (List.replicate 20 false ++ List.replicate 4 true)
    ((∀ i, invokeAndReload i = .reloadSkills → ¬ InProgress P i) → P.view.state.Coherent .byName) ∧
      ∀ i userId sid input, invokeAndReload i = .invoke userId sid input →
        ∀ id, P.threads i ≠ .fail (.skill (.notFound id)) :=
  reload_coherent .answering shrinkingDisk .routing .byName rfl SkillConfig.byName_selects invokeAndReload .unbound _
    (by decide +kernel)

/-- Two reloads that overlap: the first one installs its registry last. -/
def overlappingReloads : Pool Bool CallReply SkillWorld AgentError Unit :=
  (Agent.routing.reloadPool (fun _ => .reloadSkills) (SkillConfig.byName.loaded .unbound)).run
    (handleCalls .answering shrinkingDisk) [false, false, false, true, true, true, true, false]

/-- A reload between the two looks of an invocation. -/
def reloadBetweenLooks : Pool Bool CallReply SkillWorld AgentError Unit :=
  (Agent.routing.reloadPool invokeAndReload (SkillConfig.byName.loaded .unbound)).run
    (handleCalls .answering shrinkingDisk) (List.replicate 7 false ++ List.replicate 4 true ++ [false])

/-- The caches of one reload stay with the registry of the other, and an invocation fails for want of the skill that
it selected. -/
theorem reload_mixed :
    (∀ i, ¬ InProgress overlappingReloads i) ∧ ¬ overlappingReloads.view.state.Coherent .byName ∧
      reloadBetweenLooks.threads false = .fail (.skill (.notFound "draft")) := by
  refine ⟨fun i => ?_, fun h => ?_, ?_⟩
  · rintro ⟨-, q, k, h⟩
    cases i <;> cases h
  · exact absurd h.2 (by decide +kernel)
  · rfl

end AgentVerse
