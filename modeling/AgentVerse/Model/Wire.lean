import AgentVerse.Model.OpenAI
import AgentVerse.React.Conversation

/-!
# The messages of an OpenAI request

`build_request` refuses exactly the conversations with a misplaced block (`conversationMessages_eq`). Otherwise a User
or Assistant message becomes one message of the request and a result of a Tool message another one, in order
(`entries`), and the calls of an Assistant message are followed by their results if they are in the conversation.
-/

namespace AgentVerse

/-! ### Lists -/

/-- Where an element of a concatenation comes from. -/
private theorem flatMap_split {α β : Type} {f : α → List β} {l : List α} {before after : List β} {y : β}
    (h : l.flatMap f = before ++ y :: after) :
    ∃ pre x post b a, l = pre ++ x :: post ∧ f x = b ++ y :: a ∧ after = a ++ post.flatMap f := by
  induction l generalizing before with
  | nil => simp at h
  | cons x l ih =>
    rw [List.flatMap_cons] at h
    rcases List.append_eq_append_iff.mp h with ⟨m, hbefore, hrest⟩ | ⟨m, hfx, hrest⟩
    · obtain ⟨pre, z, post, b, a, rfl, hz, hafter⟩ := ih hrest
      exact ⟨x :: pre, z, post, b, a, rfl, hz, hafter⟩
    · cases m with
      | nil =>
        obtain ⟨pre, z, post, b, a, rfl, hz, hafter⟩ := @ih [] (by simpa using hrest.symm)
        exact ⟨x :: pre, z, post, b, a, rfl, hz, hafter⟩
      | cons w m =>
        obtain ⟨rfl, rfl⟩ := List.cons_eq_cons.mp hrest
        exact ⟨[], x, l, before, m, rfl, hfx, rfl⟩

private theorem singleton_split {α : Type} {x y : α} {b a : List α} (h : [x] = b ++ y :: a) : y = x ∧ a = [] := by
  cases b with
  | nil =>
    obtain ⟨rfl, rfl⟩ := List.cons_eq_cons.mp h
    exact ⟨rfl, rfl⟩
  | cons z b => simp at h

namespace OpenAICompatible

/-! ### What a message becomes -/

def text? : ContentBlock → Option String
  | .text text => some text
  | _ => none

variable (pr : Printers)

def call? : ContentBlock → Option ChatToolCallOut
  | .toolUse id name input => some ⟨id, "function", name, pr.toString input⟩
  | _ => none

def result? : ContentBlock → Option ChatMessage
  | .toolResult id result isError =>
    some ⟨"tool", some (if isError then "Error: " ++ result else result), none, some id⟩
  | _ => none

/-- The one message of a User or Assistant message: its texts in order, and its calls in order. -/
def turn (role : String) (content : List ContentBlock) : ChatMessage :=
  let texts := content.filterMap text?
  let calls := content.filterMap (call? pr)
  ⟨role,
    if texts = [] then (if calls = [] then some "" else none) else some ("\n".intercalate texts),
    if calls = [] then none else some calls, none⟩

/-- The messages of a request that a message of the conversation stands for. -/
def entries (m : Message) : List ChatMessage :=
  match m.role with
  | .system => []
  | .tool => m.content.filterMap result?
  | .user => [turn pr "user" m.content]
  | .assistant => [turn pr "assistant" m.content]

/-- A block that the provider refuses at its place. -/
def Misplaced (m : Message) : Prop :=
  match m.role with
  | .system => False
  | .tool => ∃ b ∈ m.content, b.resultId? = none
  | .user | .assistant => ∃ b ∈ m.content, b.resultId? ≠ none

variable {pr}

theorem collect_eq {role : String} {content : List ContentBlock} (h : ∀ b ∈ content, b.resultId? = none) :
    collect pr role content = .ok (content.filterMap text?, content.filterMap (call? pr)) := by
  induction content with
  | nil => rfl
  | cons b content ih =>
    have ih := ih fun b' hb' => h b' (List.mem_cons_of_mem _ hb')
    cases b with
    | text text => simp [collect, ih, List.filterMap_cons, text?, call?, bind, Except.bind, pure, Except.pure]
    | toolUse id name input =>
      simp [collect, ih, List.filterMap_cons, text?, call?, bind, Except.bind, pure, Except.pure]
    | toolResult id result isError => exact absurd (h _ List.mem_cons_self) (by simp [ContentBlock.resultId?])

theorem collect_error {role : String} {content : List ContentBlock} (h : ∃ b ∈ content, b.resultId? ≠ none) :
    ∃ e, collect pr role content = .error e := by
  induction content with
  | nil =>
    obtain ⟨b, hb, -⟩ := h
    cases hb
  | cons b content ih =>
    have hrest : b.resultId? = none → ∃ b' ∈ content, b'.resultId? ≠ none := by
      intro hnone
      obtain ⟨b', hb', hres⟩ := h
      rcases List.mem_cons.mp hb' with rfl | hb'
      · exact absurd hnone hres
      · exact ⟨b', hb', hres⟩
    cases b with
    | text text =>
      obtain ⟨e, he⟩ := ih (hrest rfl)
      exact ⟨e, by simp [collect, he, bind, Except.bind]⟩
    | toolUse id name input =>
      obtain ⟨e, he⟩ := ih (hrest rfl)
      exact ⟨e, by simp [collect, he, bind, Except.bind]⟩
    | toolResult id result isError => exact ⟨_, rfl⟩

theorem toolMessages_eq {content : List ContentBlock} (h : ∀ b ∈ content, b.resultId? ≠ none) :
    toolMessages pr content = .ok (content.filterMap result?) := by
  induction content with
  | nil => rfl
  | cons b content ih =>
    have ih := ih fun b' hb' => h b' (List.mem_cons_of_mem _ hb')
    cases b with
    | text text => exact absurd rfl (h _ List.mem_cons_self)
    | toolUse id name input => exact absurd rfl (h _ List.mem_cons_self)
    | toolResult id result isError => simp [toolMessages, ih, result?, bind, Except.bind, pure, Except.pure]

theorem toolMessages_error {content : List ContentBlock} (h : ∃ b ∈ content, b.resultId? = none) :
    ∃ e, toolMessages pr content = .error e := by
  induction content with
  | nil =>
    obtain ⟨b, hb, -⟩ := h
    cases hb
  | cons b content ih =>
    cases b with
    | text text => exact ⟨_, rfl⟩
    | toolUse id name input => exact ⟨_, rfl⟩
    | toolResult id result isError =>
      obtain ⟨b', hb', hnone⟩ := h
      rcases List.mem_cons.mp hb' with rfl | hb'
      · cases hnone
      · obtain ⟨e, he⟩ := ih ⟨b', hb', hnone⟩
        exact ⟨e, by simp [toolMessages, he, bind, Except.bind]⟩

theorem buildTextMessage_eq {role : String} {content : List ContentBlock} (h : ∀ b ∈ content, b.resultId? = none) :
    buildTextMessage pr role content = .ok (turn pr role content) := by
  simp only [buildTextMessage, collect_eq h, bind, Except.bind, pure, Except.pure, turn, Except.ok.injEq,
    ChatMessage.mk.injEq, true_and, and_true]
  constructor
  · by_cases htexts : content.filterMap text? = []
    · by_cases hcalls : content.filterMap (call? pr) = []
      · simp [htexts, hcalls]
      · simp [htexts, hcalls, List.isEmpty_iff]
    · simp [htexts, List.isEmpty_iff]
  · by_cases hcalls : content.filterMap (call? pr) = []
    · simp [hcalls]
    · simp [hcalls, List.isEmpty_iff]

/-- A message without a misplaced block. -/
theorem chatMessages_eq {m : Message} (h : ¬ Misplaced m) : chatMessages pr m = .ok (entries pr m) := by
  obtain ⟨role, content⟩ := m
  cases role with
  | system => rfl
  | tool =>
    refine toolMessages_eq fun b hb hnone => h ⟨b, hb, hnone⟩
  | user =>
    have hplain : ∀ b ∈ content, b.resultId? = none := fun b hb => by_contra fun hne => h ⟨b, hb, hne⟩
    simp [chatMessages, entries, buildTextMessage_eq hplain, bind, Except.bind, pure, Except.pure]
  | assistant =>
    have hplain : ∀ b ∈ content, b.resultId? = none := fun b hb => by_contra fun hne => h ⟨b, hb, hne⟩
    simp [chatMessages, entries, buildTextMessage_eq hplain, bind, Except.bind, pure, Except.pure]

theorem chatMessages_error {m : Message} (h : Misplaced m) : ∃ e, chatMessages pr m = .error e := by
  obtain ⟨role, content⟩ := m
  cases role with
  | system => exact h.elim
  | tool => exact toolMessages_error h
  | user =>
    obtain ⟨e, he⟩ := @collect_error pr "user" _ h
    exact ⟨e, by simp [chatMessages, buildTextMessage, he, bind, Except.bind]⟩
  | assistant =>
    obtain ⟨e, he⟩ := @collect_error pr "assistant" _ h
    exact ⟨e, by simp [chatMessages, buildTextMessage, he, bind, Except.bind]⟩

/-- A conversation without a misplaced block. -/
theorem conversationMessages_eq {messages : List Message} (h : ∀ m ∈ messages, ¬ Misplaced m) :
    conversationMessages pr messages = .ok (messages.flatMap (entries pr)) := by
  induction messages with
  | nil => rfl
  | cons m messages ih =>
    have ih := ih fun m' hm' => h m' (List.mem_cons_of_mem _ hm')
    simp [conversationMessages, chatMessages_eq (h m List.mem_cons_self), ih, bind, Except.bind, pure, Except.pure]

theorem conversationMessages_error {messages : List Message} (h : ∃ m ∈ messages, Misplaced m) :
    ∃ e, conversationMessages pr messages = .error e := by
  induction messages with
  | nil =>
    obtain ⟨m, hm, -⟩ := h
    cases hm
  | cons m messages ih =>
    by_cases hm : Misplaced m
    · obtain ⟨e, he⟩ := @chatMessages_error pr _ hm
      exact ⟨e, by simp [conversationMessages, he, bind, Except.bind]⟩
    · obtain ⟨m', hm', hbad⟩ := h
      rcases List.mem_cons.mp hm' with rfl | hm'
      · exact absurd hbad hm
      · obtain ⟨e, he⟩ := ih ⟨m', hm', hbad⟩
        exact ⟨e, by simp [conversationMessages, chatMessages_eq hm, he, bind, Except.bind]⟩

/-! ### Requests -/

/-- A request is refused exactly for a misplaced block; its messages are the system text and those of the
conversation. -/
theorem buildRequest_messages {disableThinking : Bool} {model : String} {request : GenerateRequest} :
    ((∃ e, buildRequest pr disableThinking model request = .error e) ↔ ∃ m ∈ request.messages, Misplaced m) ∧
    ∀ value, buildRequest pr disableThinking model request = .ok value →
      value.field "messages" = .ofList
        ((systemMessages request.system ++ request.messages.flatMap (entries pr)).map ChatMessage.toValue) := by
  by_cases h : ∃ m ∈ request.messages, Misplaced m
  · obtain ⟨e, he⟩ := @conversationMessages_error pr _ h
    have hbuild : buildRequest pr disableThinking model request = .error e := by
      simp [buildRequest, he, bind, Except.bind]
    refine ⟨⟨fun _ => h, fun _ => ⟨e, hbuild⟩⟩, fun value hvalue => ?_⟩
    rw [hbuild] at hvalue
    cases hvalue
  · have hok := @conversationMessages_eq pr _ fun m hm hbad => h ⟨m, hm, hbad⟩
    have hbuild : buildRequest pr disableThinking model request =
        .ok (chatRequest disableThinking model request (request.messages.flatMap (entries pr))).toValue := by
      simp [buildRequest, hok, bind, Except.bind, pure, Except.pure]
    refine ⟨⟨fun ⟨e, he⟩ => ?_, fun hbad => absurd hbad h⟩, fun value hvalue => ?_⟩
    · rw [hbuild] at he
      cases he
    · rw [hbuild] at hvalue
      obtain rfl := Except.ok.inj hvalue
      rw [ChatRequest.toValue, Json.field, Json.get?_record (by simp)]
      rfl

/-! ### What the messages carry -/

/-- Every assistant message with calls is followed by a tool message with their results, in order. -/
def Answered (buf : List Message) : Prop :=
  ∀ (i : Nat) (m : Message), buf[i]? = some m → m.role = .assistant → m.callIds ≠ [] →
    ∃ m', buf[i + 1]? = some m' ∧ m'.Answers m

/-- The same for the messages of a request, where each result is a message of its own. -/
def PairsCalls (ms : List ChatMessage) : Prop :=
  ∀ before e after calls, ms = before ++ e :: after → e.role = "assistant" → e.toolCalls = some calls →
    ∃ results rest, after = results ++ rest ∧ (∀ r ∈ results, r.role = "tool") ∧
      results.map (·.toolCallId) = calls.map fun c => some c.id

/-- No text, call or result of a message is lost in the messages of the request that it stands for. -/
structure Carries (pr : Printers) (m : Message) (out : List ChatMessage) : Prop where
  texts : ∀ text, .text text ∈ m.content → ∃ e ∈ out, ∃ a b, e.content = some (a ++ text ++ b)
  calls : ∀ id name input, .toolUse id name input ∈ m.content → ∃ e ∈ out, ∃ calls, e.toolCalls = some calls ∧
    ∃ c ∈ calls, c.id = id ∧ c.name = name ∧ c.arguments = pr.toString input
  results : ∀ id result isError, .toolResult id result isError ∈ m.content → ∃ e ∈ out, e.toolCallId = some id ∧
    ∃ a, e.content = some (a ++ result)

private theorem mem_intercalate (sep : String) {l : List String} {t : String} (h : t ∈ l) :
    ∃ a b, sep.intercalate l = a ++ t ++ b := by
  induction l with
  | nil => cases h
  | cons s l ih =>
    cases l with
    | nil =>
      obtain rfl := List.mem_singleton.mp h
      exact ⟨"", "", by simp [String.intercalate_singleton]⟩
    | cons s' l =>
      rw [String.intercalate_cons_cons]
      rcases List.mem_cons.mp h with rfl | h'
      · exact ⟨"", sep ++ sep.intercalate (s' :: l), by simp [String.append_assoc]⟩
      · obtain ⟨a, b, hab⟩ := ih h'
        exact ⟨s ++ sep ++ a, b, by rw [hab]; simp [String.append_assoc]⟩

theorem turn_carries {role : String} {m : Message} (h : ∀ b ∈ m.content, b.resultId? = none) :
    Carries pr m [turn pr role m.content] := by
  refine ⟨fun text hb => ?_, fun id name input hb => ?_, fun id result isError hb => ?_⟩
  · have hmem : text ∈ m.content.filterMap text? := List.mem_filterMap.mpr ⟨_, hb, rfl⟩
    obtain ⟨a, b, hab⟩ := mem_intercalate "\n" hmem
    refine ⟨_, List.mem_singleton_self _, a, b, ?_⟩
    simp only [turn, if_neg (List.ne_nil_of_mem hmem), hab]
  · have hmem : (⟨id, "function", name, pr.toString input⟩ : ChatToolCallOut) ∈ m.content.filterMap (call? pr) :=
      List.mem_filterMap.mpr ⟨_, hb, rfl⟩
    refine ⟨_, List.mem_singleton_self _, m.content.filterMap (call? pr), ?_, _, hmem, rfl, rfl, rfl⟩
    simp only [turn, if_neg (List.ne_nil_of_mem hmem)]
  · cases h _ hb

theorem entries_carries {m : Message} (h : ¬ Misplaced m) (hrole : m.role ≠ .system) :
    Carries pr m (entries pr m) := by
  obtain ⟨role, content⟩ := m
  cases role with
  | system => exact absurd rfl hrole
  | user => exact turn_carries fun b hb => by_contra fun hne => h ⟨b, hb, hne⟩
  | assistant => exact turn_carries fun b hb => by_contra fun hne => h ⟨b, hb, hne⟩
  | tool =>
    refine ⟨fun text hb => absurd ⟨_, hb, rfl⟩ h, fun id name input hb => absurd ⟨_, hb, rfl⟩ h,
      fun id result isError hb => ?_⟩
    refine ⟨_, List.mem_filterMap.mpr ⟨_, hb, rfl⟩, rfl, if isError then "Error: " else "", ?_⟩
    cases isError <;> simp

/-- The results of a tool message, as messages of the request. -/
theorem entries_answers {m m' : Message} (h : m'.Answers m) :
    (∀ r ∈ entries pr m', r.role = "tool") ∧ (entries pr m').map (·.toolCallId) = m.callIds.map some := by
  obtain ⟨role, content⟩ := m'
  obtain ⟨rfl, hids⟩ := h
  constructor
  · intro r hr
    obtain ⟨b, -, hb⟩ := List.mem_filterMap.mp hr
    cases b with
    | toolResult id result isError => rw [← Option.some.inj hb]
    | text text => cases hb
    | toolUse id name input => cases hb
  · rw [← hids]
    have hall : ∀ b ∈ content, b.resultId? ≠ none := by
      intro b hb hnone
      have hmem : b.resultId? ∈ m.callIds.map some := hids ▸ List.mem_map_of_mem hb
      rw [hnone] at hmem
      simp at hmem
    clear hids
    show (content.filterMap result?).map (·.toolCallId) = content.map (·.resultId?)
    induction content with
    | nil => rfl
    | cons b content ih =>
      have ih := ih fun b' hb' => hall b' (List.mem_cons_of_mem _ hb')
      cases b with
      | text text => exact absurd rfl (hall _ List.mem_cons_self)
      | toolUse id name input => exact absurd rfl (hall _ List.mem_cons_self)
      | toolResult id result isError => simp [result?, ContentBlock.resultId?, ih]

theorem callIds_eq (content : List ContentBlock) :
    (content.filterMap (call? pr)).map (·.id) = content.filterMap (·.callId?) := by
  induction content with
  | nil => rfl
  | cons b content ih => cases b <;> simp [List.filterMap_cons, call?, ContentBlock.callId?, ih]

/-- The calls of an answered conversation are followed by their results. -/
theorem pairsCalls {system : Option String} {messages : List Message} (h : Answered messages) :
    PairsCalls (systemMessages system ++ messages.flatMap (entries pr)) := by
  intro before e after calls hms hrole hcalls
  have hsystem : e ∉ systemMessages system := by
    intro hmem
    cases system with
    | none => cases hmem
    | some s =>
      rw [List.mem_singleton.mp hmem] at hcalls
      cases hcalls
  have hsplit : ∃ before', messages.flatMap (entries pr) = before' ++ e :: after := by
    rcases List.append_eq_append_iff.mp hms with ⟨b, -, hrest⟩ | ⟨b, hsys, hrest⟩
    · exact ⟨b, hrest⟩
    · cases b with
      | nil => exact ⟨[], hrest.symm⟩
      | cons x b =>
        obtain ⟨rfl, -⟩ := List.cons_eq_cons.mp hrest
        exact absurd (hsys ▸ List.mem_append_right _ List.mem_cons_self) hsystem
  obtain ⟨before', hflat⟩ := hsplit
  obtain ⟨pre, m, post, b, a, rfl, hm, rfl⟩ := flatMap_split hflat
  obtain ⟨role, content⟩ := m
  -- Only an assistant message becomes an entry with calls, and it becomes no other entry.
  have hassistant : role = .assistant ∧ e = turn pr "assistant" content ∧ a = [] := by
    cases role with
    | system => simp [entries] at hm
    | tool =>
      have hmem : e ∈ content.filterMap result? := by
        rw [show content.filterMap result? = b ++ e :: a from hm]
        simp
      obtain ⟨x, -, hx⟩ := List.mem_filterMap.mp hmem
      cases x with
      | toolResult id result isError =>
        rw [← Option.some.inj hx] at hcalls
        cases hcalls
      | text text => cases hx
      | toolUse id name input => cases hx
    | user =>
      obtain ⟨rfl, -⟩ := singleton_split hm
      simp [turn] at hrole
    | assistant =>
      obtain ⟨rfl, rfl⟩ := singleton_split hm
      exact ⟨rfl, rfl, rfl⟩
  obtain ⟨rfl, rfl, rfl⟩ := hassistant
  have hids : calls.map (fun c => some c.id) = (⟨.assistant, content⟩ : Message).callIds.map some ∧
      (⟨.assistant, content⟩ : Message).callIds ≠ [] := by
    simp only [turn] at hcalls
    split at hcalls
    · cases hcalls
    · rename_i hne
      obtain rfl := Option.some.inj hcalls
      rw [Message.callIds, ← @callIds_eq pr, List.map_map]
      exact ⟨rfl, by simpa using hne⟩
  obtain ⟨m', hnext, hanswers⟩ := h pre.length ⟨.assistant, content⟩ (by simp) rfl hids.2
  cases post with
  | nil => simp at hnext
  | cons m'' post =>
    obtain rfl : m'' = m' := by simpa using hnext
    obtain ⟨htool, hresults⟩ := @entries_answers pr _ _ hanswers
    exact ⟨entries pr m'', post.flatMap (entries pr), by simp, htool, by rw [hresults, hids.1]⟩

end OpenAICompatible

open OpenAICompatible in
/-- A request is refused exactly for a misplaced block. Otherwise its messages are the system text and, in order, one
message for each User or Assistant message and one for each result, and nothing that is in a User, Assistant or Tool
message is lost; the calls of an answered conversation are followed by their results. -/
theorem openai_wire (pr : Printers) (disableThinking : Bool) (model : String) (request : GenerateRequest) :
    ((∃ e, buildRequest pr disableThinking model request = .error e) ↔ ∃ m ∈ request.messages, Misplaced m) ∧
    ∀ value, buildRequest pr disableThinking model request = .ok value →
      ∃ ms : List ChatMessage, value.field "messages" = .ofList (ms.map ChatMessage.toValue) ∧
        ms = systemMessages request.system ++ request.messages.flatMap (entries pr) ∧
        (∀ m ∈ request.messages, m.role ≠ .system → Carries pr m (entries pr m)) ∧
        (Answered request.messages → PairsCalls ms) := by
  obtain ⟨hrefused, hmessages⟩ := @buildRequest_messages pr disableThinking model request
  refine ⟨hrefused, fun value hvalue => ⟨_, hmessages value hvalue, rfl, ?_, pairsCalls⟩⟩
  intro m hm hrole
  refine entries_carries (fun hbad => ?_) hrole
  obtain ⟨e, he⟩ := hrefused.mpr ⟨m, hm, hbad⟩
  rw [hvalue] at he
  cases he

/-- Printers for values that are empty objects. -/
def Printers.empty : Printers where
  toString _ := "\x7b\x7d"
  fromStr _ := .ok (.object .nil)
  debug _ := ""

/-- A question, a call and its result. -/
def GenerateRequest.oneCall : GenerateRequest where
  system := some "Be brief."
  messages := [.ofText .user "go", ⟨.assistant, [.text "Reading.", .toolUse "1" "read_file" (.object .nil)]⟩,
    ⟨.tool, [.toolResult "1" "not found" true]⟩]
  tools := none
  responseFormat := none

open OpenAICompatible in
theorem openai_wire_oneCall : ∃ value, buildRequest .empty true "m" .oneCall = .ok value ∧
    ∃ ms : List ChatMessage, value.field "messages" = .ofList (ms.map ChatMessage.toValue) ∧ ms.length = 4 ∧
      PairsCalls ms := by
  have hanswered : Answered GenerateRequest.oneCall.messages := by
    intro i m hm hrole hcalls
    match i with
    | 0 =>
      obtain rfl := Option.some.inj hm
      cases hrole
    | 1 =>
      obtain rfl := Option.some.inj hm
      exact ⟨_, rfl, rfl, rfl⟩
    | 2 =>
      obtain rfl := Option.some.inj hm
      cases hrole
    | n + 3 => cases hm
  obtain ⟨ms, hvalue, rfl, -, hpairs⟩ := (openai_wire .empty true "m" .oneCall).2 _ rfl
  exact ⟨_, rfl, _, hvalue, rfl, hpairs hanswered⟩

open OpenAICompatible in
/-- The text of a System message in the conversation is not in the request. -/
theorem system_message_lost :
    let request : GenerateRequest := ⟨none, [.ofText .system "Be brief."], none, none⟩
    Answered request.messages ∧ ∃ value, buildRequest .empty false "m" request = .ok value ∧
      value.field "messages" = .ofList [] := by
  refine ⟨fun i m hm hrole => ?_, _, rfl, rfl⟩
  match i with
  | 0 =>
    obtain rfl := Option.some.inj hm
    cases hrole
  | n + 1 => cases hm

end AgentVerse
