import Mathlib.Data.List.Dedup
import AgentVerse.Agent.Calls
import AgentVerse.Tools.Completion

/-!
# The outcomes of calls

The results of a batch go back into the conversation as one block for each call of the response. The blocks are found
by the ids of the calls, which the model chooses: every call has its own outcome if and only if these ids are distinct
(`outcomes_own_iff`).
-/

namespace AgentVerse

open Effects

/-- The positions of calls in the order in which their tasks complete. -/
structure Positions (calls order : List ToolCall) (positions : List Nat) : Prop where
  perm : positions.Perm (List.range calls.length)
  order : positions.map (fun i => calls[i]?) = order.map some

/-- The calls, by position, that produce a result which is gathered. -/
def produced : List Nat → List TaskEnd → List (Nat × ToolResult)
  | i :: positions, .finished result :: es => (i, result) :: produced positions es
  | _, _ => []

/-- The result for a call: its own one, or the synthetic error if it produced none. -/
def ownResult (done : List (Nat × ToolResult)) (c : ToolCall) (i : Nat) : ToolCallResult :=
  match done.lookup i with
  | some result => ⟨c.id, c.name, result⟩
  | none => noResult c.id c.name

/-- However the batch of the calls runs, the blocks that go back are those of the own results, one for each call. -/
def OwnOutcomes (ext : Externals) (calls : List ToolCall) : Prop :=
  ∀ (env : Env) (w : World) (reg : ToolRegistry) (runTool : ToolRunner) (depth : Nat) (positions : List Nat),
    Positions calls (completionOrder (handle env) depth calls w) positions →
      resultsToToolResultBlocks ext (reconcileAndOrderResults (batchResults (handle env) reg runTool depth calls w)
        (callOrder calls)) =
      resultsToToolResultBlocks ext (calls.zipIdx.map fun x =>
        ownResult (produced positions (taskEnds (handle env) reg runTool depth calls w)) x.1 x.2)

/-! ### Distinct ids -/

theorem produced_sublist (positions : List Nat) (ends : List TaskEnd) :
    ((produced positions ends).map (·.1)).Sublist positions := by
  induction positions generalizing ends with
  | nil => cases ends <;> exact List.Sublist.refl _
  | cons i positions ih =>
    cases ends with
    | nil => exact List.nil_sublist _
    | cons e es =>
      cases e with
      | finished result => exact (ih es).cons_cons i
      | panicked => exact List.nil_sublist _

/-- Every gathered result is the one that the call at its position produced. -/
theorem gathered_produced {calls order : List ToolCall} {positions : List Nat} (ends : List TaskEnd)
    (h : positions.map (fun i => calls[i]?) = order.map some) : gathered order ends =
      (produced positions ends).filterMap fun x => calls[x.1]?.map fun c => ⟨c.id, c.name, x.2⟩ := by
  induction positions generalizing order ends with
  | nil =>
    obtain rfl : order = [] := by simpa using h.symm
    cases ends <;> rfl
  | cons i positions ih =>
    cases order with
    | nil => cases h
    | cons c cs =>
      obtain ⟨hc, hcs⟩ := List.cons.inj h
      cases ends with
      | nil => rfl
      | cons e es =>
        cases e with
        | finished result => simp [gathered, produced, ih es hcs, hc]
        | panicked => rfl

/-- With distinct ids every call finds the result of its id. -/
theorem takeResults_eq_map {calls : List (String × String)} (hcalls : (calls.map (·.1)).Nodup)
    (byId : List ToolCallResult) : takeResults byId calls =
      calls.map fun c => (byId.find? fun r => r.id = c.1).getD (noResult c.1 c.2) := by
  induction calls generalizing byId with
  | nil => rfl
  | cons c cs ih =>
    obtain ⟨hc, hcs⟩ := List.nodup_cons.mp hcalls
    have hother : ∀ x ∈ cs, x.1 ≠ c.1 := fun x hx h => hc (List.mem_map.mpr ⟨x, hx, h⟩)
    unfold takeResults
    cases hfind : byId.find? fun r => r.id = c.1 with
    | none => simp [hfind, ih hcs]
    | some r =>
      simp only [List.map_cons, hfind, Option.getD_some, ih hcs]
      refine congrArg (r :: ·) (List.map_congr_left fun x hx => ?_)
      rw [List.find?_filter]
      congr 2
      funext r'
      have := hother x hx
      by_cases hr : r'.id = x.1
      · simp [hr, this]
      · simp [hr]

theorem find?_unique {α : Type} {p : α → Bool} {l : List α} {a : α} (ha : a ∈ l) (hp : p a = true)
    (hunique : ∀ x ∈ l, p x = true → x = a) : l.find? p = some a := by
  cases hfind : l.find? p with
  | none => exact absurd hp (List.find?_eq_none.mp hfind a ha)
  | some x => exact congrArg some (hunique x (List.mem_of_find?_eq_some hfind) (List.find?_some hfind))

/-- With distinct ids the result of a call's id is the one that the call produced. -/
theorem find?_own {calls : List ToolCall} (hcalls : (calls.map (·.id)).Nodup) {done : List (Nat × ToolResult)}
    (hdone : (done.map (·.1)).Nodup) {i : Nat} {c : ToolCall} (hc : calls[i]? = some c) :
    (((done.filterMap fun x => calls[x.1]?.map fun c => (⟨c.id, c.name, x.2⟩ : ToolCallResult)).reverse.find?
      fun r => r.id = c.id).getD (noResult c.id c.name)) = ownResult done c i := by
  have hposition : ∀ j c', calls[j]? = some c' → c'.id = c.id → j = i := by
    intro j c' hc' hid
    have hj : j < (calls.map (·.id)).length := by simpa using (List.getElem?_eq_some_iff.mp hc').1
    refine (List.getElem?_inj hj hcalls).mp ?_
    rw [List.getElem?_map, List.getElem?_map, hc', hc]
    exact congrArg some hid
  -- a result of the id was produced at the position
  have hmem : ∀ r ∈ (done.filterMap fun x => calls[x.1]?.map fun c => (⟨c.id, c.name, x.2⟩ : ToolCallResult)).reverse,
      r.id = c.id → ∃ result, (i, result) ∈ done ∧ r = ⟨c.id, c.name, result⟩ := by
    intro r hr hid
    obtain ⟨⟨j, result⟩, hx, hr⟩ := List.mem_filterMap.mp (List.mem_reverse.mp hr)
    obtain ⟨c', hc', rfl⟩ := Option.map_eq_some_iff.mp hr
    obtain rfl := hposition j c' hc' hid
    obtain rfl : c = c' := Option.some.inj (hc.symm.trans hc')
    exact ⟨result, hx, rfl⟩
  unfold ownResult
  cases hlookup : done.lookup i with
  | none =>
    have hnone : ((done.filterMap fun x => calls[x.1]?.map fun c =>
        (⟨c.id, c.name, x.2⟩ : ToolCallResult)).reverse.find? fun r => r.id = c.id) = none := by
      refine List.find?_eq_none.mpr fun r hr hid => ?_
      obtain ⟨result, hx, -⟩ := hmem r hr (by simpa using hid)
      have := List.lookup_eq_none_iff.mp hlookup (i, result) hx
      simp at this
    rw [hnone]
    rfl
  | some result =>
    have hx := mem_of_lookup hlookup
    rw [find?_unique (a := ⟨c.id, c.name, result⟩)]
    · rfl
    · refine List.mem_reverse.mpr (List.mem_filterMap.mpr ⟨(i, result), hx, ?_⟩)
      simp [hc]
    · simp
    · intro r hr hid
      obtain ⟨result', hx', rfl⟩ := hmem r hr (by simpa using hid)
      obtain rfl : result' = result := by
        have := List.inj_on_of_nodup_map hdone hx' hx rfl
        exact (Prod.mk.inj this).2
      rfl

/-- With distinct ids the results are put back as the own results of the calls. -/
theorem reconcile_own {calls order : List ToolCall} (hcalls : (calls.map (·.id)).Nodup) {positions : List Nat}
    (h : Positions calls order positions) (ends : List TaskEnd) :
    reconcileAndOrderResults (gathered order ends) (callOrder calls) =
      calls.zipIdx.map fun x => ownResult (produced positions ends) x.1 x.2 := by
  have hdone : ((produced positions ends).map (·.1)).Nodup :=
    (produced_sublist positions ends).nodup (h.perm.nodup_iff.mpr List.nodup_range)
  have hids : ((callOrder calls).map (·.1)).Nodup := by
    rw [callOrder, List.map_map]
    exact hcalls
  unfold reconcileAndOrderResults
  rw [takeResults_eq_map hids, gathered_produced ends h.order]
  refine List.ext_getElem? fun i => ?_
  simp only [callOrder, List.map_map, List.getElem?_map, List.getElem?_zipIdx, Option.map_map]
  cases hc : calls[i]? with
  | none => rfl
  | some c => simpa using find?_own hcalls hdone hc

/-! ### Repeated ids -/

/-- A result of an id is used once. -/
theorem takeResults_ids {calls : List (String × String)} {byId : List ToolCallResult}
    (h : ∀ r ∈ takeResults byId calls, r.result.isOk = true) : (calls.map (·.1)).Nodup := by
  have hused : ∀ (calls : List (String × String)) (byId : List ToolCallResult) (id : String),
      (∀ r ∈ byId, r.id ≠ id) → (∀ r ∈ takeResults byId calls, r.result.isOk = true) → id ∉ calls.map (·.1) := by
    intro calls
    induction calls with
    | nil => exact fun _ _ _ _ => List.not_mem_nil
    | cons c cs ih =>
      intro byId id hid hok
      unfold takeResults at hok
      cases hfind : byId.find? fun r => r.id = c.1 with
      | none =>
        rw [hfind] at hok
        cases hok _ List.mem_cons_self
      | some r =>
        rw [hfind] at hok
        have hr : r.id = c.1 := by simpa using List.find?_some hfind
        intro hmem
        rcases List.mem_cons.mp hmem with hhead | htail
        · exact hid r (List.mem_of_find?_eq_some hfind) (hr.trans hhead.symm)
        · exact ih _ id (fun r' hr' => hid r' (List.mem_of_mem_filter hr'))
            (fun r' hr' => hok r' (List.mem_cons_of_mem _ hr')) htail
  induction calls generalizing byId with
  | nil => exact List.nodup_nil
  | cons c cs ih =>
    unfold takeResults at h
    cases hfind : byId.find? fun r => r.id = c.1 with
    | none =>
      rw [hfind] at h
      cases h _ List.mem_cons_self
    | some r =>
      rw [hfind] at h
      have hrest := fun r' hr' => h r' (List.mem_cons_of_mem _ hr')
      refine List.nodup_cons.mpr ⟨hused cs _ c.1 (fun r' hr' => ?_) hrest, ih hrest⟩
      simpa using (List.mem_filter.mp hr').2

/-- A registry of plain tools. -/
def plainTools (names : List String) : ToolRegistry where
  tools := names.dedup.map fun name => ⟨name, .ok ⟨name, "", .null⟩, name, .plain, ToolBody.plain_ne⟩
  nodup := by simpa [List.map_map, Function.comp_def] using names.nodup_dedup

theorem plainTools_hasTool {names : List String} {name : String} (h : name ∈ names) :
    (plainTools names).hasTool name = true := by
  simp only [ToolRegistry.hasTool, ToolRegistry.get, List.find?_isSome]
  exact ⟨_, List.mem_map_of_mem (List.mem_dedup.mpr h), by simp⟩

/-- A batch of which every tool returns null. -/
theorem taskEnds_null (calls : List ToolCall) (w : World) :
    taskEnds (handle (.steady fun _ _ => ⟨[], .zero⟩)) (plainTools (calls.map (·.name)))
      (fun _ _ => .ret (.finished (.ok .null))) 0 calls w = calls.map fun _ => .finished (.ok .null) := by
  have hawait : ∀ (cs : List ToolCall), (∀ c ∈ cs, c ∈ calls) → ∀ c : Config Reply World,
      valueOf (((plainTools (calls.map (·.name))).awaitAll (fun _ _ => .ret (.finished (.ok .null))) 0 cs).run
        (handle (.steady fun _ _ => ⟨[], .zero⟩)) c).1 = cs.map fun _ => .finished (.ok .null) := by
    intro cs
    induction cs with
    | nil => exact fun _ _ => rfl
    | cons c cs ih =>
      intro hcs s
      have hrun : ((plainTools (calls.map (·.name))).runTask (fun _ _ => .ret (.finished (.ok .null))) 0 c).run
          (handle (.steady fun _ _ => ⟨[], .zero⟩)) s = (.ok (.finished (.ok .null)), s) := by
        obtain ⟨t, ht⟩ := Option.isSome_iff_exists.mp
          (plainTools_hasTool (List.mem_map_of_mem (f := (·.name)) (hcs c List.mem_cons_self)))
        rw [ToolRegistry.runTask, ht]
        rfl
      rw [awaitAll_cons _ _ _ _ hrun]
      exact congrArg (_ :: ·) (ih (fun c hc => hcs c (List.mem_cons_of_mem _ hc)) s)
  exact hawait calls (fun _ h => h) _

theorem produced_null {calls : List ToolCall} {positions : List Nat} (h : positions.length = calls.length) :
    produced positions (calls.map fun _ => .finished (.ok .null)) = positions.map fun i => (i, .ok .null) := by
  induction positions generalizing calls with
  | nil => rfl
  | cons i positions ih =>
    cases calls with
    | nil => cases h
    | cons c cs => exact congrArg (_ :: ·) (ih (Nat.succ.inj h))

theorem ownResult_isOk {done : List (Nat × ToolResult)} {c : ToolCall} {i : Nat} (hall : ∀ x ∈ done, x.2.isOk = true)
    (hi : i ∈ done.map (·.1)) : (ownResult done c i).result.isOk = true := by
  unfold ownResult
  cases hlookup : done.lookup i with
  | some result => exact hall _ (mem_of_lookup hlookup)
  | none =>
    obtain ⟨x, hx, rfl⟩ := List.mem_map.mp hi
    have hnot := List.lookup_eq_none_iff.mp hlookup x hx
    simp at hnot

/-- Whether a block is the result of a call that failed. -/
def ContentBlock.failed : ContentBlock → Bool
  | .toolResult _ _ isError => isError
  | _ => false

theorem blocks_failed (ext : Externals) (results : List ToolCallResult) :
    (resultsToToolResultBlocks ext results).map ContentBlock.failed = results.map fun r => !r.result.isOk := by
  simp only [resultsToToolResultBlocks, List.map_map]
  refine List.map_congr_left fun r _ => ?_
  cases hr : r.result <;> simp [hr, ContentBlock.failed, Except.isOk, Except.toBool]

/-- Blocks tell which results are errors. -/
theorem isOk_of_blocks {ext : Externals} {results results' : List ToolCallResult}
    (h : resultsToToolResultBlocks ext results = resultsToToolResultBlocks ext results')
    (hok : ∀ r ∈ results', r.result.isOk = true) : ∀ r ∈ results, r.result.isOk = true := by
  have hflags := congrArg (List.map ContentBlock.failed) h
  rw [blocks_failed, blocks_failed] at hflags
  intro r hr
  have hmem : (!r.result.isOk) ∈ results.map fun r => !r.result.isOk := List.mem_map_of_mem hr
  rw [hflags] at hmem
  obtain ⟨r', hr', hflag⟩ := List.mem_map.mp hmem
  rw [hok r' hr'] at hflag
  simpa using hflag.symm

/-- Every call of a response gets its own outcome, in every batch, if and only if the ids of the calls are distinct. -/
theorem outcomes_own_iff (ext : Externals) (response : GenerateResponse) :
    OwnOutcomes ext response.calls ↔ (response.calls.map (·.id)).Nodup := by
  constructor
  · intro h
    -- no block of a batch of which every tool succeeds is an error
    have hpositions : Positions response.calls
        (completionOrder (handle (.steady fun _ _ => ⟨[], .zero⟩)) 0 response.calls (World.fresh ⟨[]⟩ 0))
        (List.range response.calls.length) := by
      refine ⟨.refl _, List.ext_getElem? fun i => ?_⟩
      show _ = (response.calls.map some)[i]?
      rw [List.getElem?_map, List.getElem?_map]
      by_cases hi : i < response.calls.length
      · simp [hi]
      · simp [Nat.not_lt.mp hi]
    have hblocks := h _ _ (plainTools (response.calls.map (·.name))) (fun _ _ => .ret (.finished (.ok .null))) 0 _
      hpositions
    rw [taskEnds_null] at hblocks
    have hids : ((callOrder response.calls).map (·.1)).Nodup := by
      refine takeResults_ids (isOk_of_blocks hblocks fun r hr => ?_)
      obtain ⟨⟨c, i⟩, hx, rfl⟩ := List.mem_map.mp hr
      have hi : i < response.calls.length := by simpa using (List.mem_zipIdx hx).2.1
      rw [produced_null (by simp)]
      refine ownResult_isOk (fun x hx => ?_) (List.mem_map.mpr ⟨(i, .ok .null), ?_, rfl⟩)
      · obtain ⟨_, -, rfl⟩ := List.mem_map.mp hx
        rfl
      · exact List.mem_map_of_mem (List.mem_range.mpr hi)
    rw [callOrder, List.map_map] at hids
    exact hids
  · intro hcalls env w reg runTool depth positions hpositions
    rw [batchResults_eq, reconcile_own hcalls hpositions]

/-- A response with two calls of one id. -/
def repeatedId : GenerateResponse :=
  ⟨[.toolUse "call" "read_file" .null, .toolUse "call" "exec_command" .null], .zero⟩

/-- The second of two calls with one id gets an error although its tool succeeds. -/
theorem outcomes_mixed : ¬ OwnOutcomes .plain repeatedId.calls := fun h =>
  absurd (h (.steady fun _ _ => ⟨[], .zero⟩) (World.fresh ⟨[]⟩ 0) twoTools (fun _ _ => .ret (.finished (.ok .null))) 0 [0, 1]
    ⟨.refl _, rfl⟩) (by decide +kernel)

end AgentVerse
