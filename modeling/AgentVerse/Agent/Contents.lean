import AgentVerse.Agent.Dialogue

/-!
# What sessions and the cache hold

The messages that a world holds come in by three kinds of requests only (`World.Holds.handle`), and what is read from it
is something it holds (`World.Holds.got`). So calls that bring in messages of one kind, as long as they are given such
messages, leave such messages only, in every interleaving (`Agent.pool_holds`).
-/

namespace AgentVerse

open Effects

/-- The messages that a request brings into the world. -/
def Request.brings : Request → List Message
  | .cacheStore _ _ ms => ms
  | .cacheAppendTurn _ _ m m' => [m, m']
  | .sql (.appendMessages _ ms _) => ms
  | _ => []

/-- The messages that a reply gives back. -/
def got : (q : Request) → Reply q → List Message
  | .cacheLoad .., r => r.getD []
  | .sql (.selectMessages _), r => r.toOption.getD []
  | _, _ => []

/-- All messages of sessions and of the cache are in `K`. -/
structure World.Holds (K : Message → Prop) (w : World) : Prop where
  stored : ∀ row ∈ w.store.messages, K row.message
  cached : ∀ e ∈ w.cache, ∀ m ∈ e.2.messages, K m

variable {K : Message → Prop} {env : Env} {w : World} {q : Request}

theorem World.holds_fresh (K : Message → Prop) (skills : SkillRegistry) (clock : Nat) :
    (World.fresh skills clock).Holds K where
  stored _ hrow := absurd hrow List.not_mem_nil
  cached _ he := absurd he List.not_mem_nil

/-! ### Requests -/

theorem exec_messages {st : Statement} {s : Store} (hst : ∀ m ∈ (Request.sql st).brings, K m)
    (hs : ∀ row ∈ s.messages, K row.message) : ∀ row ∈ (st.exec s).2.messages, K row.message := by
  cases hu : st.update? with
  | some u =>
    obtain ⟨sid, f⟩ := u
    rw [Statement.exec_update hu]
    exact hs
  | none =>
    cases st with
    | insertSession row =>
      simp only [Statement.exec, Store.insertSession]
      split <;> exact hs
    | appendMessages sid ms now =>
      simp only [Statement.exec, Store.appendMessages]
      split
      · exact hs
      · obtain ⟨new, hnew, -, -, -, htext⟩ := s.insertFrom_messages sid (s.maxSequence sid + 1) now ms
        simp only [hnew]
        intro row hrow
        rcases List.mem_append.mp hrow with hrow | hrow
        · exact hs row hrow
        · exact hst _ (htext ▸ List.mem_map_of_mem hrow)
    | deleteExpired | deleteEndedSessions | deleteSession => exact fun row hrow => hs row (List.mem_of_mem_filter hrow)
    | selectWatermark sid =>
      simp only [Statement.exec]
      split <;> exact hs
    | updateStatus | updateWatermark | updateSkillContext | updatePhaseOpening | updatePhaseTransition
    | updateInterruptedState => simp [Statement.update?] at hu
    | _ => exact hs

theorem World.Holds.cachePut {key : String × SessionId} {ms : List Message} (hw : w.Holds K) (hms : ∀ m ∈ ms, K m) :
    (w.cachePut key ms).Holds K where
  stored := hw.stored
  cached e he := by
    rcases World.mem_cachePut he with ⟨-, heq⟩ | ⟨-, he⟩
    · rw [heq]
      exact hms
    · exact hw.cached e he

/-- A request brings in what it says, and nothing else. -/
theorem World.Holds.handle (hw : w.Holds K) (hq : ∀ m ∈ q.brings, K m) : (handle env q w).2.Holds K := by
  have htick : (w.tick env).Holds K := ⟨hw.stored, hw.cached⟩
  cases q with
  | sql st =>
    cases hs : env.storeError w.steps with
    | some e =>
      rw [handle_sql_error _ hs]
      exact htick
    | none =>
      rw [handle_sql_ok _ hs]
      exact ⟨exec_messages hq hw.stored, hw.cached⟩
  | cacheStore u sid ms =>
    exact World.Holds.cachePut ⟨hw.stored, fun e he => hw.cached e (List.mem_of_mem_filter he)⟩ hq
  | cacheAppendTurn u sid m m' =>
    simp only [AgentVerse.handle, answer]
    split
    · rename_i e hlookup
      refine htick.cachePut fun x hx => ?_
      rcases List.mem_append.mp hx with hx | hx
      · exact hw.cached _ (mem_of_lookup hlookup) x hx
      · exact hq x hx
    · exact htick.cachePut hq
  | cacheEvict u sid => exact ⟨hw.stored, fun e he => hw.cached e (List.mem_of_mem_filter he)⟩
  | submit | resolve | poll | sweepExpired =>
    simp only [AgentVerse.handle, answer, queueOp]
    split <;> exact ⟨hw.stored, hw.cached⟩
  | _ => exact ⟨hw.stored, hw.cached⟩

theorem World.Holds.got (hw : w.Holds K) (q : Request) : ∀ m ∈ got q (AgentVerse.handle env q w).1, K m := by
  intro m hm
  cases q with
  | cacheLoad u sid =>
    simp only [AgentVerse.got, AgentVerse.handle, answer, World.cached, World.tick_cache] at hm
    split at hm
    · rename_i e hlookup
      split at hm
      · exact hw.cached _ (mem_of_lookup hlookup) m hm
      · cases hm
    · cases hm
  | sql st =>
    cases st with
    | selectMessages sid =>
      cases hs : env.storeError w.steps with
      | some e =>
        rw [handle_sql_error _ hs] at hm
        cases hm
      | none =>
        rw [handle_sql_ok _ hs] at hm
        obtain ⟨row, hrow, rfl⟩ := List.mem_map.mp hm
        exact hw.stored row (List.mem_of_mem_filter ((List.mem_insertionSort _).mp hrow))
    | _ => cases hm
  | _ => cases hm

/-! ### Calls -/

/-- A program that brings in messages of `K`, as long as it is given such messages. -/
abbrev Brings {ε α : Type} (K : Message → Prop) (p : M ε α) (P : Except ε α → Prop) : Prop :=
  p.Meets (fun q r => ∀ m ∈ got q r, K m) (fun q => ∀ m ∈ q.brings, K m) P

theorem Request.Reads.brings {q : Request} (hq : q.Reads) : q.brings = [] := by
  cases q with
  | sql st => cases st <;> first | exact hq.elim | rfl
  | _ => first | exact hq.elim | rfl

theorem Request.OfStrategy.brings {q : Request} (hq : q.OfStrategy) : q.brings = [] := by
  cases q <;> first | exact hq.elim | rfl

theorem Request.OfResume.brings {sid : SessionId} {q : Request} (hq : q.OfResume sid) : q.brings = [] := by
  rcases hq with hq | (hq | ⟨ctx, phaseCtx, rfl⟩) | ⟨x, status, hq⟩
  · exact hq.brings
  · exact hq.brings
  · rfl
  · cases q with
    | sql st => cases st <;> first | exact hq.elim | rfl
    | _ => first | exact hq.elim | rfl

/-- A program that brings in no message. -/
theorem brings_of_only {ε α : Type} {A : Request → Prop} {p : M ε α} {P : Except ε α → Prop} (hp : p.Only A)
    (hA : ∀ q, A q → q.brings = []) (hP : p.Meets (fun _ _ => True) (fun _ => True) P) : Brings K p P := by
  refine Prog.Meets.mono (hp.and hP) (fun _ _ _ => trivial) (fun q hq m hm => ?_) fun _ h => h.2
  rw [hA q hq.1] at hm
  cases hm

section Pools

variable {ι : Type} [DecidableEq ι]

/-- The terms of calls that bring in messages of `K` only. -/
def holding (ι : Type) (K : Message → Prop) : Discipline ι Reply World where
  inv v := v.state.Holds K
  allowed _ _ _ := True
  guar _ _ _ := True

/-- What every call keeps, an interleaving of calls keeps. -/
theorem Agent.pool_holds {agent : Agent} {calls : ι → ApiCall} {P : ApiCall → Except AgentError ApiResult → Prop}
    (hcalls : ∀ call, Brings K (agent.program call) (P call)) (hw : w.Holds K) (schedule : List ι) :
    ((agent.pool calls w).run (handle env) schedule).view.state.Holds K ∧
      ∀ i x, (((agent.pool calls w).run (handle env) schedule).threads i).result? = some x → P (calls i) x := by
  have hsafe : ∀ i, (holding ι K).Safe (handle env) i (fun r _ => P (calls i) r) (agent.program (calls i)) ⟨w, []⟩ :=
    fun i => Discipline.Safe.of_assumed (hcalls (calls i)) fun v q hI _ hq => ⟨trivial, hI.handle hq, hI.got q⟩
  have hconforms : (agent.pool calls w).Conforms (handle env) (holding ι K).allowed schedule :=
    Pool.conforms_true _ (fun _ _ _ => trivial) schedule
  have hinv : (holding ι K).inv (agent.pool calls w).view := hw
  refine ⟨(Pool.run_safe hinv hsafe hconforms).1, fun i x hx => ?_⟩
  obtain ⟨hret, hfail⟩ := Pool.run_post hinv hsafe hconforms i
  cases ht : ((agent.pool calls w).run (handle env) schedule).threads i with
  | ret a =>
    rw [ht] at hx
    cases hx
    exact hret a ht
  | fail e =>
    rw [ht] at hx
    cases hx
    exact hfail e ht
  | ask q k =>
    rw [ht] at hx
    cases hx

end Pools

end AgentVerse
