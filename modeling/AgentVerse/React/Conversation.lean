import AgentVerse.Subagent.Executor

/-!
# Conversations

Providers refuse a conversation in which a call of a tool is not answered: an assistant message with calls is followed
by one message with their results in order, and there are no other results (`WellFormed`). A `Conversation` is put
together from plain messages and answered batches; what the loops add to their buffers is of these two kinds.
-/

namespace AgentVerse

/-! ### Well-formed buffers -/

/-- The id of a tool call. -/
def ContentBlock.callId? : ContentBlock → Option String
  | toolUse id _ _ => some id
  | _ => none

/-- The id of the call that a result is for. -/
def ContentBlock.resultId? : ContentBlock → Option String
  | toolResult id _ _ => some id
  | _ => none

namespace Message

variable (m : Message)

def callIds : List String := m.content.filterMap (·.callId?)

def resultIds : List String := m.content.filterMap (·.resultId?)

/-- A message without tool calls and results. -/
structure Plain : Prop where
  calls : m.callIds = []
  results : m.resultIds = []

/-- A tool message that holds one result for each call of `m`, in order, and nothing else. -/
structure Answers (m' m : Message) : Prop where
  role : m'.role = .tool
  ids : m'.content.map (·.resultId?) = m.callIds.map some

end Message

structure WellFormed (buf : List Message) : Prop where
  /-- An assistant message with calls is followed by their results. -/
  answered : ∀ (i : Nat) (m : Message), buf[i]? = some m → m.role = .assistant → m.callIds ≠ [] →
    ∃ m', buf[i + 1]? = some m' ∧ m'.Answers m
  /-- There are no other results. -/
  results : ∀ (i : Nat) (m' : Message), buf[i]? = some m' → m'.resultIds ≠ [] →
    ∃ j m, i = j + 1 ∧ buf[j]? = some m ∧ m.role = .assistant ∧ m'.Answers m

/-! ### Conversations -/

inductive Conversation : List Message → Prop where
  | nil : Conversation []
  | plain {m : Message} {buf : List Message} (hm : m.Plain) (h : Conversation buf) : Conversation (m :: buf)
  | batch {m m' : Message} {buf : List Message} (hrole : m.role = .assistant) (hm : m.resultIds = [])
      (hm' : m'.Answers m) (h : Conversation buf) : Conversation (m :: m' :: buf)

namespace Conversation

variable {a b buf : List Message}

/-- A conversation is well-formed. -/
theorem wellFormed (h : Conversation buf) : WellFormed buf := by
  induction h with
  | nil => exact ⟨fun i m hi => by simp at hi, fun i m hi => by simp at hi⟩
  | @plain m buf hm _ ih =>
    refine ⟨fun i x hi hrole hne => ?_, fun i x hi hne => ?_⟩
    · cases i with
      | zero =>
        obtain rfl : m = x := by simpa using hi
        exact absurd hm.calls hne
      | succ i => exact ih.answered i x hi hrole hne
    · cases i with
      | zero =>
        obtain rfl : m = x := by simpa using hi
        exact absurd hm.results hne
      | succ i =>
        obtain ⟨j, y, rfl, hj, hy⟩ := ih.results i x hi hne
        exact ⟨j + 1, y, rfl, hj, hy⟩
  | @batch m m' buf hrole hm hm' _ ih =>
    refine ⟨fun i x hi hassistant hne => ?_, fun i x hi hne => ?_⟩
    · match i with
      | 0 =>
        obtain rfl : m = x := by simpa using hi
        exact ⟨m', rfl, hm'⟩
      | 1 =>
        obtain rfl : m' = x := by simpa using hi
        rw [hm'.role] at hassistant
        cases hassistant
      | i + 2 => exact ih.answered i x hi hassistant hne
    · match i with
      | 0 =>
        obtain rfl : m = x := by simpa using hi
        exact absurd hm hne
      | 1 =>
        obtain rfl : m' = x := by simpa using hi
        exact ⟨0, m, rfl, rfl, hrole, hm'⟩
      | i + 2 =>
        obtain ⟨j, y, rfl, hj, hy⟩ := ih.results i x hi hne
        exact ⟨j + 2, y, rfl, hj, hy⟩

theorem append (ha : Conversation a) (hb : Conversation b) : Conversation (a ++ b) := by
  induction ha with
  | nil => exact hb
  | plain hm _ ih => exact .plain hm ih
  | batch hrole hm hm' _ ih => exact .batch hrole hm hm' ih

theorem of_plain (h : ∀ m ∈ buf, m.Plain) : Conversation buf := by
  induction buf with
  | nil => exact .nil
  | cons m buf ih => exact .plain (h m List.mem_cons_self) (ih fun x hx => h x (List.mem_cons_of_mem _ hx))

/-- Only a message of the assistant starts a batch. -/
theorem tail {m : Message} (h : Conversation (m :: buf)) (hrole : m.role ≠ .assistant) :
    m.Plain ∧ Conversation buf := by
  cases h with
  | plain hm h => exact ⟨hm, h⟩
  | batch hassistant => exact absurd hassistant hrole

/-- Messages of which none is an assistant's end no batch. -/
theorem split (h : Conversation (a ++ b)) (ha : ∀ m ∈ a, m.role ≠ .assistant) : Conversation a ∧ Conversation b := by
  induction a with
  | nil => exact ⟨.nil, h⟩
  | cons m a ih =>
    obtain ⟨hm, hrest⟩ := tail h (ha m List.mem_cons_self)
    obtain ⟨h₁, h₂⟩ := ih hrest fun x hx => ha x (List.mem_cons_of_mem _ hx)
    exact ⟨.plain hm h₁, h₂⟩

/-- A batch survives the removal of system messages. -/
theorem withoutSystem (h : Conversation buf) : Conversation (buf.filter fun m => m.role ≠ .system) := by
  induction h with
  | nil => exact .nil
  | plain hm _ ih =>
    rw [List.filter_cons]
    split
    · exact .plain hm ih
    · exact ih
  | batch hrole hm hm' _ ih =>
    rw [List.filter_cons_of_pos (by simp [hrole]), List.filter_cons_of_pos (by simp [hm'.role])]
    exact .batch hrole hm hm' ih

end Conversation

/-! ### What the loops add -/

theorem Message.plain_ofText (role : MessageRole) (text : String) : (Message.ofText role text).Plain := ⟨rfl, rfl⟩

/-- The preamble goes in front of the first message that a batch could start with. -/
theorem Conversation.prepareBuffer {buf : List Message} (h : Conversation buf) (ext : Externals) :
    Conversation (prepareBuffer ext buf) := by
  unfold AgentVerse.prepareBuffer
  split
  · exact h
  · rename_i preamble _
    split
    · exact h
    · dsimp only
      obtain ⟨h₁, h₂⟩ : Conversation (buf.take ((buf.findIdx? fun m => m.role ≠ .system).getD 0)) ∧
          Conversation (buf.drop ((buf.findIdx? fun m => m.role ≠ .system).getD 0)) := by
        refine Conversation.split (by rwa [List.take_append_drop]) fun m hm hrole => ?_
        cases hpos : buf.findIdx? fun m => m.role ≠ .system with
        | none =>
          rw [hpos] at hm
          simp at hm
        | some pos =>
          rw [hpos, Option.getD_some] at hm
          obtain ⟨i, hi, rfl⟩ := List.mem_take_iff_getElem.mp hm
          obtain ⟨hlt, -, hbefore⟩ := List.findIdx?_eq_some_iff_getElem.mp hpos
          have hsystem := hbefore i (by omega)
          rw [hrole] at hsystem
          exact hsystem (by decide)
      exact (h₁.append (.plain (Message.plain_ofText ..) .nil)).append h₂

/-- A response of texts and tool calls. -/
def GenerateResponse.Spoken (response : GenerateResponse) : Prop :=
  ∀ b ∈ response.content, b.resultId? = none

theorem map_id_takeResults (byId : List ToolCallResult) (order : List (String × String)) :
    (takeResults byId order).map (·.id) = order.map (·.1) := by
  induction order generalizing byId with
  | nil => rfl
  | cons c order ih =>
    obtain ⟨id, name⟩ := c
    unfold takeResults
    cases hr : byId.find? fun r => r.id = id with
    | some r =>
      have hid : r.id = id := by simpa using List.find?_some hr
      simp only [List.map_cons, ih, hid]
    | none => simp only [List.map_cons, ih, noResult]

/-- Whatever results a batch left, in whichever order, its calls are answered. -/
theorem conversation_batchMessages {ext : Externals} {response : GenerateResponse} {calls : List ToolCall}
    (hspoken : response.Spoken) (hcalls : calls = response.calls) (results : List ToolCallResult) :
    Conversation (batchMessages ext response calls results) := by
  refine .batch rfl (List.filterMap_eq_nil_iff.mpr hspoken) ⟨rfl, ?_⟩ .nil
  have hcallIds : (⟨.assistant, response.content⟩ : Message).callIds = calls.map (·.id) := by
    rw [hcalls, Message.callIds, GenerateResponse.calls, List.map_filterMap]
    refine List.filterMap_congr fun b _ => ?_
    cases b <;> rfl
  have hids : (reconcileAndOrderResults results (callOrder calls)).map (·.id) = calls.map (·.id) := by
    rw [reconcileAndOrderResults, map_id_takeResults, callOrder, List.map_map]
    rfl
  rw [hcallIds, ← hids, resultsToToolResultBlocks, List.map_map, List.map_map]
  refine List.map_congr_left fun r _ => ?_
  simp only [Function.comp_apply]
  cases r.result <;> rfl

end AgentVerse
