import AgentVerse.Model.Anthropic
import AgentVerse.Model.Wire

/-!
# Assistant turns on the wire

The content that a response was read as, put into a request as an assistant message, reads back as the same content
under the rules for responses. Each provider drops from a response what it would not read back: blank texts, blocks of
an unknown type, inputs that are missing.
-/

namespace AgentVerse

/-- The object at a place among the messages of a request. -/
def messageAt? (value : Json) (k : Nat) : Option JsonFields :=
  match value.field "messages" with
  | .array items =>
    match items.toList[k]? with
    | some (.object fields) => some fields
    | _ => none
  | _ => none

private theorem messageAt?_eq {value : Json} {l : List Json} {k : Nat} {fields : JsonFields}
    (h : value.field "messages" = .ofList l) (hk : l[k]? = some (.object fields)) :
    messageAt? value k = some fields := by
  simp [messageAt?, h, Json.ofList, hk]

private theorem nonempty_ok {ε α : Type} {l l' : List α} {e : ε}
    (h : (if l.isEmpty then .error e else pure l) = Except.ok l') : l' = l ∧ l' ≠ [] := by
  cases l with
  | nil => cases h
  | cons x l =>
    obtain rfl := Except.ok.inj h
    exact ⟨rfl, by simp⟩

private theorem mapM_map_eq {α β γ : Type} {l : List α} {f : α → β} {g : β → Option γ} {p : α → γ}
    (h : ∀ a ∈ l, g (f a) = some (p a)) : (l.map f).mapM g = some (l.map p) := by
  rw [mapM_eq_some, List.forall₂_map_left_iff, List.forall₂_map_right_iff]
  exact List.forall₂_same.mpr h

/-! ### OpenAI -/

namespace OpenAICompatible

variable {pr : Printers}

/-- The calls of a response are read as tool uses whose inputs were read from a text. -/
theorem toolUses_ok {calls : List ToolCallWire} {uses : List ContentBlock} (h : toolUses pr calls = .ok uses) :
    ∀ b ∈ uses, ∃ id name input s, b = .toolUse id name input ∧ pr.fromStr s = .ok input := by
  induction calls generalizing uses with
  | nil =>
    obtain rfl := Except.ok.inj h
    simp
  | cons call calls ih =>
    cases hinput : pr.fromStr call.arguments with
    | error e => simp [toolUses, hinput] at h
    | ok input =>
      simp only [toolUses, hinput] at h
      obtain ⟨rest, hrest, hres⟩ := bind_ok h
      obtain rfl := Except.ok.inj hres
      intro b hb
      rcases List.mem_cons.mp hb with rfl | hb
      · exact ⟨call.id, call.name, input, call.arguments, rfl, hinput⟩
      · exact ih hrest b hb

/-- The content of a response: at most one text, which is not blank, and then tool uses. -/
theorem messageContent_ok {message : ResponseMessage} {content : List ContentBlock}
    (h : messageContent pr message = .ok content) :
    content ≠ [] ∧ ∃ (text : Option String) (uses : List ContentBlock),
      content = text.toList.map .text ++ uses ∧ (∀ t ∈ text, isBlank t = false) ∧
      ∀ b ∈ uses, ∃ id name input s, b = .toolUse id name input ∧ pr.fromStr s = .ok input := by
  obtain ⟨read, calls⟩ := message
  obtain ⟨uses, huses, hres⟩ := bind_ok h
  obtain ⟨rfl, hne⟩ := nonempty_ok hres
  refine ⟨hne, ?_⟩
  cases read with
  | none => exact ⟨none, uses, rfl, by simp, toolUses_ok huses⟩
  | some text =>
    by_cases hblank : isBlank text
    · exact ⟨none, uses, by simp [hblank], by simp, toolUses_ok huses⟩
    · exact ⟨some text, uses, by simp [hblank], by simpa using hblank, toolUses_ok huses⟩

theorem toolCallWire_ofValue (c : ChatToolCallOut) :
    ToolCallWire.ofValue c.toValue = some ⟨c.id, c.name, c.arguments⟩ := by
  have hfunction : c.toValue.field "function" =
      .object (Json.record [("name", some (.string c.name)), ("arguments", some (.string c.arguments))]) := by
    rw [ChatToolCallOut.toValue, Json.field, Json.get?_record (by simp)]
    rfl
  have hid : c.toValue.field "id" = .string c.id := by
    rw [ChatToolCallOut.toValue, Json.field, Json.get?_record (by simp)]
    rfl
  rw [ToolCallWire.ofValue, hfunction, hid, Json.field, Json.field, Json.get?_record (by simp),
    Json.get?_record (by simp)]
  rfl

/-- A message of a request, read as the message of a response. -/
theorem responseMessage_ofFields (m : ChatMessage) :
    ResponseMessage.ofFields m.toFields =
      some ⟨m.content, (m.toolCalls.getD []).map fun c => ⟨c.id, c.name, c.arguments⟩⟩ := by
  obtain ⟨role, content, toolCalls, toolCallId⟩ := m
  have hcontent :
      (ChatMessage.toFields ⟨role, content, toolCalls, toolCallId⟩).optString "content" = some content := by
    rw [JsonFields.optString, ChatMessage.toFields, Json.get?_record (by simp)]
    cases content <;> rfl
  have hcalls : (ChatMessage.toFields ⟨role, content, toolCalls, toolCallId⟩).get? "tool_calls" =
      toolCalls.map fun calls => .ofList (calls.map ChatToolCallOut.toValue) := by
    rw [ChatMessage.toFields, Json.get?_record (by simp)]
    cases toolCalls <;> rfl
  rw [ResponseMessage.ofFields, hcontent, hcalls]
  cases toolCalls with
  | none => rfl
  | some calls =>
    have hread := mapM_map_eq fun c (_ : c ∈ calls) => toolCallWire_ofValue c
    simp [Json.ofList, hread]

/-- Printed tool uses, read again. -/
theorem toolUses_calls {uses : List ContentBlock}
    (h : ∀ b ∈ uses, ∃ id name input, b = .toolUse id name input ∧ pr.Reads input) :
    toolUses pr ((uses.filterMap (call? pr)).map fun c => ⟨c.id, c.name, c.arguments⟩) = .ok uses := by
  induction uses with
  | nil => rfl
  | cons b uses ih =>
    obtain ⟨id, name, input, rfl, hreads⟩ := h b List.mem_cons_self
    have ih := ih fun b' hb' => h b' (List.mem_cons_of_mem _ hb')
    have hinput : pr.fromStr (pr.toString input) = .ok input := hreads
    simp [call?, toolUses, hinput, ih, bind, Except.bind, pure, Except.pure]

/-- The content of a response, put on the wire and read again. -/
theorem messageContent_turn (hinverse : ∀ s v, pr.fromStr s = .ok v → pr.Reads v) {message : ResponseMessage}
    {content : List ContentBlock} (h : messageContent pr message = .ok content) (role : String) :
    (ResponseMessage.ofFields (turn pr role content).toFields).map (messageContent pr) = some (.ok content) := by
  obtain ⟨hne, text, uses, rfl, hblank, huses⟩ := messageContent_ok h
  have hplain : ∀ b ∈ uses, ∃ id name input, b = .toolUse id name input ∧ pr.Reads input := by
    intro b hb
    obtain ⟨id, name, input, s, rfl, hs⟩ := huses b hb
    exact ⟨id, name, input, rfl, hinverse s input hs⟩
  have htexts : uses.filterMap text? = [] := by
    rw [List.filterMap_eq_nil_iff]
    intro b hb
    obtain ⟨id, name, input, rfl, -⟩ := hplain b hb
    rfl
  have hcalls : uses.filterMap (call? pr) = [] ↔ uses = [] := by
    constructor
    · intro hnil
      cases uses with
      | nil => rfl
      | cons b uses =>
        obtain ⟨id, name, input, rfl, -⟩ := hplain b List.mem_cons_self
        simp [call?] at hnil
    · rintro rfl
      rfl
  have hread := toolUses_calls hplain
  have hgetD : ((if uses.filterMap (call? pr) = [] then none else some (uses.filterMap (call? pr))).getD []) =
      uses.filterMap (call? pr) := by
    split
    · rw [‹uses.filterMap (call? pr) = []›, Option.getD_none]
    · rfl
  rw [responseMessage_ofFields, Option.map_some]
  cases text with
  | none =>
    have hnil : uses ≠ [] := by simpa using hne
    simp only [turn, Option.toList_none, List.map_nil, List.nil_append, htexts, if_pos, if_neg (mt hcalls.mp hnil)]
    simp [messageContent, hread, bind, Except.bind, pure, Except.pure, hnil]
  | some t =>
    have ht : isBlank t = false := hblank t rfl
    have hone : (([ContentBlock.text t] ++ uses).filterMap text?) = [t] := by simp [text?, htexts]
    have hsame : (([ContentBlock.text t] ++ uses).filterMap (call? pr)) = uses.filterMap (call? pr) := rfl
    simp only [turn, Option.toList_some, List.map_cons, List.map_nil, hone, hsame, hgetD,
      String.intercalate_singleton]
    simp [messageContent, ht, hread, bind, Except.bind, pure, Except.pure]

/-- An assistant message with the content of a response is not refused. -/
theorem response_wellPlaced {message : ResponseMessage} {content : List ContentBlock}
    (h : messageContent pr message = .ok content) : ¬ Misplaced ⟨.assistant, content⟩ := by
  obtain ⟨-, text, uses, rfl, -, huses⟩ := messageContent_ok h
  rintro ⟨b, hb, hresult⟩
  rcases List.mem_append.mp hb with hb | hb
  · obtain ⟨t, -, rfl⟩ := List.mem_map.mp hb
    exact hresult rfl
  · obtain ⟨id, name, input, s, rfl, -⟩ := huses b hb
    exact hresult rfl

/-- A message of the conversation, at its place in the request. -/
theorem messageAt?_buildRequest {disableThinking : Bool} {model : String} {request : GenerateRequest} {value : Json}
    {before after : List Message} {content : List ContentBlock}
    (hrequest : request.messages = before ++ ⟨.assistant, content⟩ :: after)
    (hvalue : buildRequest pr disableThinking model request = .ok value) :
    messageAt? value (systemMessages request.system ++ before.flatMap (entries pr)).length =
      some (turn pr "assistant" content).toFields := by
  refine messageAt?_eq (buildRequest_messages.2 value hvalue) ?_
  rw [hrequest, List.flatMap_append, List.flatMap_cons, ← List.append_assoc, List.getElem?_map,
    List.getElem?_append_right (Nat.le_refl _), Nat.sub_self]
  rfl

end OpenAICompatible

/-! ### Anthropic -/

namespace AnthropicProvider

/-- A block without its marker. -/
def AnthropicContentBlock.block : AnthropicContentBlock → ContentBlock
  | text t _ => .text t
  | toolUse id name input _ => .toolUse id name input
  | toolResult toolUseId content isError _ => .toolResult toolUseId content isError

theorem block_wireBlock (b : ContentBlock) : (wireBlock b).block = b := by cases b <;> rfl

theorem block_setCacheControl (cc : CacheControl) (b : AnthropicContentBlock) :
    (b.setCacheControl cc).block = b.block := by cases b <;> rfl

/-- A block that a response can be read as. -/
def Readable : ContentBlock → Prop
  | .text t => isBlank t = false
  | .toolUse _ _ input => input ≠ .null
  | .toolResult .. => False

theorem usable_ok {blocks : List AnthropicContent} {content : List ContentBlock} (h : usable blocks = .ok content) :
    ∀ b ∈ content, Readable b := by
  induction blocks generalizing content with
  | nil =>
    obtain rfl := Except.ok.inj h
    simp
  | cons c rest ih =>
    obtain ⟨contentType, text, id, name, input, hinput⟩ := c
    unfold usable at h
    split at h
    · cases text with
      | none => exact ih h
      | some text =>
        obtain ⟨content', hrest, hres⟩ := bind_ok h
        obtain rfl := Except.ok.inj hres
        intro b hb
        split at hb
        · exact ih hrest b hb
        · rcases List.mem_cons.mp hb with rfl | hb
          · exact Bool.eq_false_iff.mpr ‹_›
          · exact ih hrest b hb
    · split at h
      · split at h
        · rename_i id' name' input' hi
          obtain ⟨content', hrest, hres⟩ := bind_ok h
          obtain rfl := Except.ok.inj hres
          intro b hb
          rcases List.mem_cons.mp hb with rfl | hb
          · rintro rfl
            exact hinput hi
          · exact ih hrest b hb
        · cases h
      · exact ih h

theorem responseContent_ok {blocks : List AnthropicContent} {content : List ContentBlock}
    (h : responseContent blocks = .ok content) : content ≠ [] ∧ ∀ b ∈ content, Readable b := by
  obtain ⟨content', husable, hres⟩ := bind_ok h
  obtain ⟨rfl, hne⟩ := nonempty_ok hres
  exact ⟨hne, usable_ok husable⟩

/-- A block on the wire, marked or not, read as a block of a response. -/
theorem ofValue_toValue {b : AnthropicContentBlock} (h : Readable b.block) :
    ∃ c, AnthropicContent.ofValue b.toValue = some c ∧
      ∀ rest content, usable rest = .ok content → usable (c :: rest) = .ok (b.block :: content) := by
  cases b with
  | text t cc =>
    have hfields : (AnthropicContentBlock.text t cc).toFields.get? = fun key =>
        (List.lookup key [("type", some (Json.string "text")), ("text", some (.string t)),
          ("cache_control", cc.map CacheControl.toValue)]).join :=
      funext fun key => Json.get?_record (by simp) key
    have hblank : isBlank t = false := h
    refine ⟨⟨"text", some t, none, none, none, by simp⟩, ?_, fun rest content hrest => ?_⟩
    · simp [AnthropicContentBlock.toValue, AnthropicContent.ofValue, AnthropicContent.ofFields, JsonFields.optString,
        JsonFields.optValue, hfields, List.lookup_cons, Json.asStr]
    · simp [usable, hrest, hblank, AnthropicContentBlock.block, bind, Except.bind, pure, Except.pure]
  | toolUse id name input cc =>
    have hfields : (AnthropicContentBlock.toolUse id name input cc).toFields.get? = fun key =>
        (List.lookup key [("type", some (Json.string "tool_use")), ("id", some (.string id)),
          ("name", some (.string name)), ("input", some input),
          ("cache_control", cc.map CacheControl.toValue)]).join :=
      funext fun key => Json.get?_record (by simp) key
    have hinput : input ≠ .null := h
    have hoptValue : (AnthropicContentBlock.toolUse id name input cc).toFields.optValue "input" = some input :=
      JsonFields.optValue_eq (by rw [hfields]; rfl) hinput
    refine ⟨⟨"tool_use", none, some id, some name, some input, by simpa using hinput⟩, ?_,
      fun rest content hrest => ?_⟩
    · simp [AnthropicContentBlock.toValue, AnthropicContent.ofValue, AnthropicContent.ofFields, JsonFields.optString,
        hoptValue, hfields, List.lookup_cons, Json.asStr]
    · simp [usable, hrest, AnthropicContentBlock.block, bind, Except.bind, pure, Except.pure]
  | toolResult toolUseId content isError cc => exact h.elim

theorem usable_toValue {blocks : List AnthropicContentBlock} (h : ∀ b ∈ blocks, Readable b.block) :
    ∃ cs, (blocks.map AnthropicContentBlock.toValue).mapM AnthropicContent.ofValue = some cs ∧
      usable cs = .ok (blocks.map AnthropicContentBlock.block) := by
  induction blocks with
  | nil => exact ⟨[], rfl, rfl⟩
  | cons b blocks ih =>
    obtain ⟨cs, hcs, husable⟩ := ih fun b' hb' => h b' (List.mem_cons_of_mem _ hb')
    obtain ⟨c, hc, hcons⟩ := ofValue_toValue (h b List.mem_cons_self)
    exact ⟨c :: cs, by simp [hc, hcs], hcons cs _ husable⟩

/-- Changes that a function does not see. -/
private theorem map_modify_eq {α β : Type} {f : α → α} {g : α → β} (h : ∀ a, g (f a) = g a) (l : List α) (i : Nat) :
    (l.modify i f).map g = l.map g := by
  refine List.ext_getElem? fun k => ?_
  rw [List.getElem?_map, List.getElem?_map, List.getElem?_modify]
  cases l[k]? with
  | none => rfl
  | some a =>
    by_cases hk : i = k
    · simp [hk, h]
    · simp [hk]

/-- A message without its markers. -/
def AnthropicMessage.plain (m : AnthropicMessage) : String × List ContentBlock :=
  (m.role, m.content.map AnthropicContentBlock.block)

theorem plain_markPenultimate (messages : List AnthropicMessage) :
    (markPenultimate messages).map AnthropicMessage.plain = messages.map AnthropicMessage.plain := by
  unfold markPenultimate
  split
  · refine map_modify_eq (fun m => ?_) messages _
    have hlast := map_modify_eq (block_setCacheControl ephemeral) m.content (m.content.length - 1)
    rw [AnthropicMessage.plain, AnthropicMessage.plain, lastMut, hlast]
  · rfl

/-- A message of the conversation, at its place in the request. -/
theorem messageAt?_buildRequest {model : String} {request : GenerateRequest} {value : Json}
    {before after : List Message} {content : List ContentBlock}
    (hrequest : request.messages = before ++ ⟨.assistant, content⟩ :: after)
    (hvalue : buildRequest model request = .ok value) :
    ∃ m : AnthropicMessage, messageAt? value (before.filterMap wireMessage).length = some m.toFields ∧
      m.role = "assistant" ∧ m.content.map AnthropicContentBlock.block = content := by
  have hplace : ((markPenultimate (request.messages.filterMap wireMessage)).map AnthropicMessage.plain)[
      (before.filterMap wireMessage).length]? = some ("assistant", content) := by
    rw [plain_markPenultimate, hrequest, List.filterMap_append, List.getElem?_map,
      List.getElem?_append_right (Nat.le_refl _), Nat.sub_self]
    have hsame : (content.map wireBlock).map AnthropicContentBlock.block = content := by
      rw [List.map_map, show AnthropicContentBlock.block ∘ wireBlock = id from funext block_wireBlock, List.map_id]
    exact congrArg (fun c => some ("assistant", c)) hsame
  rw [List.getElem?_map, Option.map_eq_some_iff] at hplace
  obtain ⟨m, hm, hplain⟩ := hplace
  obtain ⟨hrole, hcontent⟩ := Prod.mk.inj hplain
  refine ⟨m, messageAt?_eq (l := (buildWireRequest model request).messages.map AnthropicMessage.toValue) ?_ ?_, hrole,
    hcontent⟩
  · obtain rfl := Except.ok.inj hvalue
    rw [AnthropicRequest.toValue, Json.field, Json.get?_record (by simp)]
    rfl
  · rw [List.getElem?_map, show (buildWireRequest model request).messages[_]? = some m from hm]
    rfl

/-- A message on the wire, marked or not, read again. -/
theorem responseContent_toFields {m : AnthropicMessage} {content : List ContentBlock} (hne : content ≠ [])
    (hreadable : ∀ b ∈ content, Readable b) (h : m.content.map AnthropicContentBlock.block = content) :
    (contentOfFields m.toFields).map responseContent = some (.ok content) := by
  obtain ⟨cs, hcs, husable⟩ := @usable_toValue m.content fun b hb => hreadable _ (h ▸ List.mem_map_of_mem hb)
  have hcontent : m.toFields.get? "content" = some (.ofList (m.content.map AnthropicContentBlock.toValue)) := by
    rw [AnthropicMessage.toFields, Json.get?_record (by simp)]
    rfl
  rw [h] at husable
  simp [contentOfFields, hcontent, Json.ofList, hcs, responseContent, husable, hne, bind, Except.bind, pure,
    Except.pure]

end AnthropicProvider

/-! ### Both providers -/

/-- The content that a response was read as, at any place of a conversation: the request is refused only for another
message, and the message that stands for it reads back as the same content. -/
theorem assistant_turns_survive (pr : Printers) (hinverse : ∀ s v, pr.fromStr s = .ok v → pr.Reads v)
    (response : GenerateResponse) (model : String) (request : GenerateRequest) (before after : List Message)
    (hrequest : request.messages = before ++ ⟨.assistant, response.content⟩ :: after) :
    (∀ body disableThinking, OpenAICompatible.parseResponse pr body = .ok response →
      ((∃ e, OpenAICompatible.buildRequest pr disableThinking model request = .error e) ↔
        ∃ m ∈ before ++ after, OpenAICompatible.Misplaced m) ∧
      ∀ value, OpenAICompatible.buildRequest pr disableThinking model request = .ok value →
        ∃ fields, messageAt? value (OpenAICompatible.systemMessages request.system ++
            before.flatMap (OpenAICompatible.entries pr)).length = some fields ∧
          fields.get? "role" = some (.string "assistant") ∧
          (OpenAICompatible.ResponseMessage.ofFields fields).map (OpenAICompatible.messageContent pr) =
            some (.ok response.content)) ∧
    (∀ body, AnthropicProvider.parseResponse body = .ok response →
      ∃ value fields, AnthropicProvider.buildRequest model request = .ok value ∧
        messageAt? value (before.filterMap AnthropicProvider.wireMessage).length = some fields ∧
        fields.get? "role" = some (.string "assistant") ∧
        (AnthropicProvider.contentOfFields fields).map AnthropicProvider.responseContent =
          some (.ok response.content)) := by
  constructor
  · intro body disableThinking hparse
    have hcontent : ∃ message, OpenAICompatible.messageContent pr message = .ok response.content := by
      unfold OpenAICompatible.parseResponse at hparse
      split at hparse
      · cases hparse
      · split at hparse
        · cases hparse
        · obtain ⟨content, hmessage, hres⟩ := bind_ok hparse
          obtain rfl := Except.ok.inj hres
          exact ⟨_, hmessage⟩
    obtain ⟨message, hmessage⟩ := hcontent
    have hplaced := OpenAICompatible.response_wellPlaced hmessage
    refine ⟨?_, fun value hvalue => ⟨_, OpenAICompatible.messageAt?_buildRequest hrequest hvalue, ?_,
      OpenAICompatible.messageContent_turn hinverse hmessage "assistant"⟩⟩
    · rw [OpenAICompatible.buildRequest_messages.1, hrequest]
      constructor
      · rintro ⟨m, hm, hbad⟩
        refine ⟨m, ?_, hbad⟩
        rcases List.mem_append.mp hm with hm | hm
        · exact List.mem_append_left _ hm
        · rcases List.mem_cons.mp hm with rfl | hm
          · exact absurd hbad hplaced
          · exact List.mem_append_right _ hm
      · rintro ⟨m, hm, hbad⟩
        refine ⟨m, ?_, hbad⟩
        rcases List.mem_append.mp hm with hm | hm
        · exact List.mem_append_left _ hm
        · exact List.mem_append_right _ (List.mem_cons_of_mem _ hm)
    · rw [OpenAICompatible.ChatMessage.toFields, Json.get?_record (by simp)]
      rfl
  · intro body hparse
    have hcontent : ∃ blocks, AnthropicProvider.responseContent blocks = .ok response.content := by
      unfold AnthropicProvider.parseResponse at hparse
      split at hparse
      · cases hparse
      · obtain ⟨content, hblocks, hres⟩ := bind_ok hparse
        obtain rfl := Except.ok.inj hres
        exact ⟨_, hblocks⟩
    obtain ⟨blocks, hblocks⟩ := hcontent
    obtain ⟨hne, hreadable⟩ := AnthropicProvider.responseContent_ok hblocks
    obtain ⟨m, hm, hrole, hblock⟩ := AnthropicProvider.messageAt?_buildRequest hrequest
      (rfl : AnthropicProvider.buildRequest model request = _)
    refine ⟨_, m.toFields, rfl, hm, ?_, AnthropicProvider.responseContent_toFields hne hreadable hblock⟩
    rw [AnthropicProvider.AnthropicMessage.toFields, Json.get?_record (by simp), hrole]
    rfl

/-- A response of a text and a call. -/
def GenerateResponse.oneCall : GenerateResponse where
  content := [.text "Reading.", .toolUse "1" "read_file" (.object .nil)]
  usage := ⟨5, 2, 0, 0⟩

theorem assistant_turns_survive_oneCall :
    (∃ value fields, OpenAICompatible.buildRequest .empty true "m" .oneCall = .ok value ∧
      messageAt? value 2 = some fields ∧
      (OpenAICompatible.ResponseMessage.ofFields fields).map (OpenAICompatible.messageContent .empty) =
        some (.ok GenerateResponse.oneCall.content)) ∧
    ∃ value fields, AnthropicProvider.buildRequest "m" .oneCall = .ok value ∧ messageAt? value 1 = some fields ∧
      (AnthropicProvider.contentOfFields fields).map AnthropicProvider.responseContent =
        some (.ok GenerateResponse.oneCall.content) := by
  obtain ⟨hopenai, hanthropic⟩ := assistant_turns_survive .empty (fun s v h => h) .oneCall "m" .oneCall
    [.ofText .user "go"] [⟨.tool, [.toolResult "1" "not found" true]⟩] rfl
  constructor
  · obtain ⟨fields, hfields, -, hread⟩ := (hopenai
      (.ofValue ⟨[⟨some "Reading.", [⟨"1", "read_file", "\x7b\x7d"⟩]⟩], 5, 2, 0⟩) true (by decide)).2 _ rfl
    exact ⟨_, fields, rfl, hfields, hread⟩
  · obtain ⟨value, fields, hvalue, hfields, -, hread⟩ := hanthropic
      (.ofValue ⟨[⟨"text", some "Reading.", none, none, none, by simp⟩, ⟨"thinking", none, none, none, none, by simp⟩,
        ⟨"tool_use", none, some "1", some "read_file", some (.object .nil), by simp⟩], 5, 2, 0, 0⟩) (by decide)
    exact ⟨value, fields, hvalue, hfields, hread⟩

end AgentVerse
