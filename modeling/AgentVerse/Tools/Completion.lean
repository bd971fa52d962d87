import AgentVerse.Tools.Registry

/-!
# Complete batches

Every task of a batch comes to an end when it is awaited: it finishes with a result or panics (`taskEnds`). The loop of
`execute_many` gathers results up to the first panic in the order of completion, and what is left then is aborted
(`joinAll_gathers`). So a batch is complete, every task that does not panic ran to its end and left its result, if and
only if no such task completes after one that panics (`executeMany_completes_iff`).
-/

namespace AgentVerse

open Effects

/-- The value of a program that cannot fail. -/
def valueOf {α : Type} : Except Empty α → α
  | .ok a => a
  | .error e => nomatch e

theorem eq_ok_valueOf {α : Type} (x : Except Empty α) : x = .ok (valueOf x) := by
  cases x with
  | ok a => rfl
  | error e => nomatch e

namespace ToolRegistry

variable (reg : ToolRegistry) (runTool : ToolRunner) (depth : Nat)

/-- Await the tasks of all calls, one after the other. -/
def awaitAll : List ToolCall → M Empty (List TaskEnd)
  | [] => .ret []
  | c :: cs => do
    let taskEnd ← reg.runTask runTool depth c
    let taskEnds ← awaitAll cs
    return taskEnd :: taskEnds

end ToolRegistry

/-- The results that tasks with these ends leave. -/
def outcomes : List ToolCall → List TaskEnd → List ToolCallResult
  | c :: cs, .finished result :: es => ⟨c.id, c.name, result⟩ :: outcomes cs es
  | _ :: cs, .panicked :: es => outcomes cs es
  | _, _ => []

/-- The results that are gathered up to the first task that panics. -/
def gathered : List ToolCall → List TaskEnd → List ToolCallResult
  | c :: cs, .finished result :: es => ⟨c.id, c.name, result⟩ :: gathered cs es
  | _, _ => []

/-- No task that finishes completes after one that panics. -/
def PanicsLast (ends : List TaskEnd) : Prop := ends.Pairwise fun e e' => e = .panicked → e' = .panicked

instance (ends : List TaskEnd) : Decidable (PanicsLast ends) := inferInstanceAs (Decidable (ends.Pairwise _))

theorem outcomes_eq_nil {ends : List TaskEnd} (h : ∀ e ∈ ends, e = .panicked) (calls : List ToolCall) :
    outcomes calls ends = [] := by
  induction ends generalizing calls with
  | nil => cases calls <;> rfl
  | cons e es ih =>
    obtain rfl := h e List.mem_cons_self
    cases calls with
    | nil => rfl
    | cons c cs => exact ih (fun x hx => h x (List.mem_cons_of_mem _ hx)) cs

/-- What is gathered is all that there is when the panics come last. -/
theorem gathered_eq_outcomes {ends : List TaskEnd} (h : PanicsLast ends) (calls : List ToolCall) :
    gathered calls ends = outcomes calls ends := by
  induction ends generalizing calls with
  | nil => cases calls <;> rfl
  | cons e es ih =>
    obtain ⟨he, hes⟩ := List.pairwise_cons.mp h
    cases calls with
    | nil => rfl
    | cons c cs =>
      cases e with
      | finished result => exact congrArg (_ :: ·) (ih hes cs)
      | panicked => exact (outcomes_eq_nil (fun x hx => he x hx rfl) cs).symm

theorem panicked_of_outcomes {calls : List ToolCall} {ends : List TaskEnd} (hlength : ends.length = calls.length)
    (h : outcomes calls ends = []) : ∀ e ∈ ends, e = .panicked := by
  induction ends generalizing calls with
  | nil => exact fun e he => absurd he List.not_mem_nil
  | cons e es ih =>
    cases calls with
    | nil => cases hlength
    | cons c cs =>
      cases e with
      | finished result => cases h
      | panicked => exact List.forall_mem_cons.mpr ⟨rfl, ih (Nat.succ.inj hlength) h⟩

/-- A task that finishes after a panic leaves a result that is not gathered. -/
theorem panicsLast_of_length {calls : List ToolCall} {ends : List TaskEnd} (hlength : ends.length = calls.length)
    (h : (outcomes calls ends).length ≤ (gathered calls ends).length) : PanicsLast ends := by
  induction ends generalizing calls with
  | nil => exact List.Pairwise.nil
  | cons e es ih =>
    cases calls with
    | nil => cases hlength
    | cons c cs =>
      have hrest : es.length = cs.length := Nat.succ.inj hlength
      cases e with
      | finished result =>
        exact List.pairwise_cons.mpr ⟨fun _ _ hp => (by cases hp), ih hrest (Nat.le_of_succ_le_succ h)⟩
      | panicked =>
        have hall : ∀ e ∈ es, e = .panicked :=
          panicked_of_outcomes hrest (List.length_eq_zero_iff.mp (Nat.le_zero.mp h))
        refine List.pairwise_cons.mpr ⟨fun e he _ => hall e he, ?_⟩
        exact List.Pairwise.imp_of_mem (fun _ hb _ _ => hall _ hb) (List.pairwise_of_forall fun _ _ => trivial)

/-! ### Runs -/

section Runs

variable {S : Type} (h : Handler Reply S) (reg : ToolRegistry) (runTool : ToolRunner) (depth : Nat)

theorem awaitAll_cons {c : ToolCall} {cs : List ToolCall} {s s₁ : Config Reply S} {e : TaskEnd}
    (hrun : (reg.runTask runTool depth c).run h s = (.ok e, s₁)) :
    (reg.awaitAll runTool depth (c :: cs)).run h s =
      (.ok (e :: valueOf ((reg.awaitAll runTool depth cs).run h s₁).1),
        ((reg.awaitAll runTool depth cs).run h s₁).2) := by
  have heq : reg.awaitAll runTool depth (c :: cs) =
      (reg.runTask runTool depth c >>= fun e => reg.awaitAll runTool depth cs >>= fun es => .ret (e :: es)) := rfl
  have hrest : (reg.awaitAll runTool depth cs).run h s₁ =
      (.ok (valueOf ((reg.awaitAll runTool depth cs).run h s₁).1), ((reg.awaitAll runTool depth cs).run h s₁).2) :=
    Prod.ext (eq_ok_valueOf _) rfl
  rw [heq, Prog.run_bind_ok h hrun, Prog.run_bind_ok h hrest]
  rfl

theorem length_awaitAll (calls : List ToolCall) (s : Config Reply S) :
    (valueOf ((reg.awaitAll runTool depth calls).run h s).1).length = calls.length := by
  induction calls generalizing s with
  | nil => rfl
  | cons c cs ih =>
    rcases hrun : (reg.runTask runTool depth c).run h s with ⟨r, s₁⟩
    rw [eq_ok_valueOf r] at hrun
    rw [awaitAll_cons h reg runTool depth hrun]
    exact congrArg (· + 1) (ih s₁)

/-- The task of a tool that is not registered finishes with an error. -/
theorem awaitAll_unregistered {calls : List ToolCall} {i : Nat} {c : ToolCall} (hc : calls[i]? = some c)
    (hreg : reg.hasTool c.name = false) (s : Config Reply S) :
    (valueOf ((reg.awaitAll runTool depth calls).run h s).1)[i]? = some (.finished (.error (.notFound c.name))) := by
  induction calls generalizing s i with
  | nil => cases hc
  | cons c' cs ih =>
    rcases hrun : (reg.runTask runTool depth c').run h s with ⟨r, s₁⟩
    rw [eq_ok_valueOf r] at hrun
    rw [awaitAll_cons h reg runTool depth hrun]
    cases i with
    | zero =>
      obtain rfl : c' = c := Option.some.inj hc
      have hnone : reg.get c'.name = none := by simpa [ToolRegistry.hasTool] using hreg
      rw [ToolRegistry.runTask, hnone] at hrun
      exact congrArg some (Except.ok.inj (Prod.mk.inj hrun).1).symm
    | succ i => exact ih hc s₁

theorem run_trace_prefix {ε α : Type} (p : M ε α) (s : Config Reply S) : s.trace <+: (p.run h s).2.trace := by
  obtain ⟨s, t⟩ := s
  rw [Prog.run_trace]
  exact List.prefix_append _ _

theorem joinAll_finished {c : ToolCall} {cs : List ToolCall} {s s₁ : Config Reply S} {result : ToolResult}
    (hrun : (reg.runTask runTool depth c).run h s = (.ok (.finished result), s₁)) :
    (reg.joinAll runTool depth (c :: cs)).run h s =
      (.ok (⟨c.id, c.name, result⟩ :: valueOf ((reg.joinAll runTool depth cs).run h s₁).1),
        ((reg.joinAll runTool depth cs).run h s₁).2) := by
  have hrest : (reg.joinAll runTool depth cs).run h s₁ =
      (.ok (valueOf ((reg.joinAll runTool depth cs).run h s₁).1), ((reg.joinAll runTool depth cs).run h s₁).2) :=
    Prod.ext (eq_ok_valueOf _) rfl
  rw [ToolRegistry.joinAll, Prog.run_bind_ok h hrun]
  exact Prog.run_bind_ok h hrest _

theorem joinAll_panicked {c : ToolCall} {cs : List ToolCall} {s s₁ : Config Reply S}
    (hrun : (reg.runTask runTool depth c).run h s = (.ok .panicked, s₁)) :
    (reg.joinAll runTool depth (c :: cs)).run h s = (.ok [], ((reg.abortAll runTool depth cs).run h s₁).2) := by
  have habort : (reg.abortAll runTool depth cs).run h s₁ =
      (.ok (valueOf ((reg.abortAll runTool depth cs).run h s₁).1), ((reg.abortAll runTool depth cs).run h s₁).2) :=
    Prod.ext (eq_ok_valueOf _) rfl
  rw [ToolRegistry.joinAll, Prog.run_bind_ok h hrun]
  exact Prog.run_bind_ok h habort _

/-- The loop gathers the results up to the first panic, and every task up to there runs to its end. -/
theorem joinAll_gathers (order : List ToolCall) (s : Config Reply S) :
    valueOf ((reg.joinAll runTool depth order).run h s).1 =
        gathered order (valueOf ((reg.awaitAll runTool depth order).run h s).1) ∧
      ∀ pre c post, order = pre ++ c :: post →
        (∀ e ∈ (valueOf ((reg.awaitAll runTool depth order).run h s).1).take pre.length, e ≠ .panicked) →
        ((reg.awaitAll runTool depth (pre ++ [c])).run h s).2.trace <+:
          ((reg.joinAll runTool depth order).run h s).2.trace := by
  induction order generalizing s with
  | nil => exact ⟨rfl, fun pre c post hsplit => by cases pre <;> cases hsplit⟩
  | cons c cs ih =>
    rcases hrun : (reg.runTask runTool depth c).run h s with ⟨r, s₁⟩
    rw [eq_ok_valueOf r] at hrun
    generalize valueOf r = e at hrun
    rw [awaitAll_cons h reg runTool depth hrun]
    cases e with
    | finished result =>
      obtain ⟨hgathered, htrace⟩ := ih s₁
      rw [joinAll_finished h reg runTool depth hrun]
      refine ⟨congrArg (_ :: ·) hgathered, fun pre c' post hsplit hpre => ?_⟩
      cases pre with
      | nil =>
        obtain ⟨rfl, rfl⟩ := List.cons.inj hsplit
        rw [List.nil_append, awaitAll_cons h reg runTool depth hrun]
        exact run_trace_prefix h _ s₁
      | cons c₀ pre =>
        obtain ⟨rfl, rfl⟩ := List.cons.inj hsplit
        rw [List.cons_append, awaitAll_cons h reg runTool depth hrun]
        exact htrace pre c' post rfl fun e he => hpre e (List.mem_cons_of_mem _ he)
    | panicked =>
      rw [joinAll_panicked h reg runTool depth hrun]
      refine ⟨rfl, fun pre c' post hsplit hpre => ?_⟩
      cases pre with
      | nil =>
        obtain ⟨rfl, rfl⟩ := List.cons.inj hsplit
        rw [List.nil_append, awaitAll_cons h reg runTool depth hrun]
        exact run_trace_prefix h _ s₁
      | cons c₀ pre => exact absurd rfl (hpre _ List.mem_cons_self)

end Runs

/-! ### Batches -/

section Batches

variable {S : Type} (h : Handler Reply S) (reg : ToolRegistry) (runTool : ToolRunner) (depth : Nat)
  (calls : List ToolCall) (s : S)

/-- The order in which the tasks of a batch complete. -/
def completionOrder : List ToolCall := (h (.joinSet depth calls) s).1.order

/-- The tasks are spawned. -/
def spawned : Config Reply S := (⟨s, []⟩ : Config Reply S).after h (.joinSet depth calls)

/-- The ends that the tasks of a batch come to, in the order in which they complete, when all of them are awaited. -/
def taskEnds : List TaskEnd :=
  valueOf ((reg.awaitAll runTool depth (completionOrder h depth calls s)).run h (spawned h depth calls s)).1

/-- The results of a batch. -/
def batchResults : List ToolCallResult := valueOf ((reg.executeMany runTool depth calls).run h ⟨s, []⟩).1

/-- A batch is complete: it has one result for every task that does not panic, and every such task runs to its end. -/
structure Completes : Prop where
  results : (batchResults h reg runTool depth calls s).Perm
    (outcomes (completionOrder h depth calls s) (taskEnds h reg runTool depth calls s))
  runs : ∀ pre c post, completionOrder h depth calls s = pre ++ c :: post →
    (∃ result, (taskEnds h reg runTool depth calls s)[pre.length]? = some (.finished result)) →
      ((reg.awaitAll runTool depth (pre ++ [c])).run h (spawned h depth calls s)).2.trace <+:
        ((reg.executeMany runTool depth calls).run h ⟨s, []⟩).2.trace

theorem batchResults_eq : batchResults h reg runTool depth calls s =
    gathered (completionOrder h depth calls s) (taskEnds h reg runTool depth calls s) :=
  (joinAll_gathers h reg runTool depth (completionOrder h depth calls s) (spawned h depth calls s)).1

/-- A batch is complete if and only if no task that finishes completes after one that panics. The task of a tool that
is not registered finishes with an error. -/
theorem executeMany_completes_iff :
    (Completes h reg runTool depth calls s ↔ PanicsLast (taskEnds h reg runTool depth calls s)) ∧
      ∀ (i : Nat) (c : ToolCall), (completionOrder h depth calls s)[i]? = some c → reg.hasTool c.name = false →
        (taskEnds h reg runTool depth calls s)[i]? = some (.finished (.error (.notFound c.name))) := by
  have hlength : (taskEnds h reg runTool depth calls s).length = (completionOrder h depth calls s).length :=
    length_awaitAll h reg runTool depth _ _
  refine ⟨⟨fun hc => ?_, fun hlast => ⟨?_, fun pre c post hsplit hend => ?_⟩⟩, fun i c hc hreg => ?_⟩
  · refine panicsLast_of_length hlength ?_
    rw [← hc.results.length_eq, batchResults_eq]
  · rw [batchResults_eq, gathered_eq_outcomes hlast]
  · -- what comes before a task that finishes did not panic
    obtain ⟨result, hend⟩ := hend
    refine (joinAll_gathers h reg runTool depth _ (spawned h depth calls s)).2 pre c post hsplit fun e he hp => ?_
    obtain ⟨i, hi, rfl⟩ := List.mem_iff_getElem.mp he
    have hlt : i < pre.length := by simp only [List.length_take] at hi; omega
    obtain ⟨hj, hend⟩ := List.getElem?_eq_some_iff.mp hend
    have hpanic := List.pairwise_iff_getElem.mp hlast i pre.length (Nat.lt_trans hlt hj) hj hlt
      ((List.getElem_take ..).symm.trans hp)
    rw [hend] at hpanic
    cases hpanic
  · exact awaitAll_unregistered h reg runTool depth hc hreg _

end Batches

/-- A registry of two tools. -/
def twoTools : ToolRegistry where
  tools := ["read_file", "exec_command"].map fun name =>
    ⟨name, .ok ⟨name, "", .null⟩, name, .plain, ToolBody.plain_ne⟩
  nodup := by decide

/-- An environment in which commands panic, and tasks complete in the order of their calls. -/
def Env.panicking : Env :=
  { Env.steady fun _ _ => ⟨[], .zero⟩ with
    tool := fun _ d => if d.tool = "exec_command" then .panicked else .finished (.ok .null) }

/-- The result of a call is lost when the task of another call has panicked before. -/
theorem executeMany_incomplete :
    ¬ Completes (handle .panicking) twoTools (fun _ d => .ask (.executeRaw d) .ret) 0
      [⟨"1", "exec_command", .null⟩, ⟨"2", "read_file", .null⟩] (World.fresh ⟨[]⟩ 0) := fun h =>
  absurd h.results.length_eq (by decide +kernel)

end AgentVerse
