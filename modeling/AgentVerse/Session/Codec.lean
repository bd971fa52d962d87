import Mathlib.Data.List.Forall2
import Mathlib.Data.List.Sort
import AgentVerse.Core.Document
import AgentVerse.Session.Ledger

/-!
# Stored content

Both session stores keep the content of a message as the JSON text of its blocks, and take a text that does not read as
a list of blocks for a plain text of an older version. What is read back is what was written unless the input of a tool
call nests so deep that the text of the list is refused (`content_round_trips`), and a plain text is kept unless it is
itself the text of a list of blocks (`legacy_rows_decode`).
-/

namespace AgentVerse

/-! ### Blocks -/

namespace ContentBlock

/-- A block as it is serialised, with its tag first. -/
def document : ContentBlock → Json
  | text t => .object (.cons "type" (.string "text") (.cons "text" (.string t) .nil))
  | toolUse id name input =>
    .object (.cons "type" (.string "tool_use")
      (.cons "id" (.string id) (.cons "name" (.string name) (.cons "input" input .nil))))
  | toolResult toolUseId content isError =>
    .object (.cons "type" (.string "tool_result")
      (.cons "tool_use_id" (.string toolUseId)
        (.cons "content" (.string content) (.cons "is_error" (.bool isError) .nil))))

/-- An object with a tag: each field of the tagged variant is there exactly once, other members are ignored. -/
def ofFields (fields : JsonFields) : Option ContentBlock := do
  let tag ← (← fields.single "type").asStr
  if tag = "text" then
    return text (← (← fields.single "text").asStr)
  else if tag = "tool_use" then
    let id ← (← fields.single "id").asStr
    let name ← (← fields.single "name").asStr
    return toolUse id name (← fields.single "input").value
  else if tag = "tool_result" then
    let toolUseId ← (← fields.single "tool_use_id").asStr
    let content ← (← fields.single "content").asStr
    match ← fields.single "is_error" with
    | .bool isError => return toolResult toolUseId content isError
    | _ => none
  else none

/-- A sequence of the tag and the fields of the tagged variant, in their order. -/
def ofItems : List Json → Option ContentBlock
  | .string tag :: rest =>
    if tag = "text" then
      match rest with
      | [.string t] => some (text t)
      | _ => none
    else if tag = "tool_use" then
      match rest with
      | [.string id, .string name, input] => some (toolUse id name input.value)
      | _ => none
    else if tag = "tool_result" then
      match rest with
      | [.string toolUseId, .string content, .bool isError] => some (toolResult toolUseId content isError)
      | _ => none
    else none
  | _ => none

/-- `ContentBlock::deserialize`. -/
def ofDocument : Json → Option ContentBlock
  | .object fields => ofFields fields
  | .array items => ofItems items.toList
  | _ => none

/-- `Vec::<ContentBlock>::deserialize`. -/
def listOfDocument : Json → Option (List ContentBlock)
  | .array items => items.toList.mapM ofDocument
  | _ => none

end ContentBlock

/-! ### Encoding and decoding -/

namespace JsonTexts

variable (jt : JsonTexts)

/-- The document of a list of blocks. -/
def contentDocument (content : List ContentBlock) : Json := .ofList (content.map ContentBlock.document)

def encodeContent (content : List ContentBlock) : String := jt.print (contentDocument content)

/-- A text that does not read as a list of blocks is a single block. -/
def decodeContent (raw : String) : List ContentBlock :=
  match jt.document raw with
  | .ok d => (ContentBlock.listOfDocument d).getD [.text raw]
  | .error _ => [.text raw]

end JsonTexts

/-! ### Rows -/

def roleToStr : MessageRole → String
  | .user => "user"
  | .assistant => "assistant"
  | .system => "system"
  | .tool => "tool"

def strToRole (role : String) : Except SessionMemoryError MessageRole :=
  if role = "user" then .ok .user
  else if role = "assistant" then .ok .assistant
  else if role = "system" then .ok .system
  else if role = "tool" then .ok .tool
  else .error (.database ("corrupt message row: unknown role '" ++ role ++ "'"))

@[simp] theorem strToRole_roleToStr (role : MessageRole) : strToRole (roleToStr role) = .ok role := by
  cases role <;> rfl

/-- A row of `messages` as the database has it. -/
structure StoredRow where
  sessionId : SessionId
  role : String
  content : String
  sequenceNum : Int

/-- `WHERE session_id = ? ORDER BY sequence_num ASC`. -/
def selectRows (rows : List StoredRow) (sid : SessionId) : List StoredRow :=
  (rows.filter fun row => row.sessionId = sid).insertionSort fun a b => a.sequenceNum ≤ b.sequenceNum

variable (jt : JsonTexts)

def StoredRow.message (row : StoredRow) : Except SessionMemoryError Message := do
  return ⟨← strToRole row.role, jt.decodeContent row.content⟩

def loadMessages (rows : List StoredRow) (sid : SessionId) : Except SessionMemoryError (List Message) :=
  (selectRows rows sid).mapM (StoredRow.message jt)

/-- The messages after the watermark `wm`, with their sequence numbers. -/
def loadMessagesAboveWatermark (rows : List StoredRow) (sid : SessionId) (wm : Int) :
    Except SessionMemoryError (List (Int × Message)) :=
  (selectRows (rows.filter fun row => wm < row.sequenceNum) sid).mapM fun row => do
    return (row.sequenceNum, ← row.message jt)

/-- The row that is stored for a message. -/
def MessageRow.stored (row : MessageRow) : StoredRow :=
  ⟨row.sessionId, roleToStr row.message.role, jt.encodeContent row.message.content, row.sequenceNum⟩

/-! ### What reads as a block -/

/-- The documents that read as a block. -/
inductive BlockOf : Json → ContentBlock → Prop where
  | text {fields t} (htype : fields.single "type" = some (.string "text"))
      (htext : fields.single "text" = some (.string t)) : BlockOf (.object fields) (.text t)
  | toolUse {fields id name input} (htype : fields.single "type" = some (.string "tool_use"))
      (hid : fields.single "id" = some (.string id)) (hname : fields.single "name" = some (.string name))
      (hinput : fields.single "input" = some input) : BlockOf (.object fields) (.toolUse id name input.value)
  | toolResult {fields toolUseId content isError} (htype : fields.single "type" = some (.string "tool_result"))
      (hid : fields.single "tool_use_id" = some (.string toolUseId))
      (hcontent : fields.single "content" = some (.string content))
      (herror : fields.single "is_error" = some (.bool isError)) :
      BlockOf (.object fields) (.toolResult toolUseId content isError)
  | textItems (t : String) : BlockOf (.ofList [.string "text", .string t]) (.text t)
  | toolUseItems (id name : String) (input : Json) :
      BlockOf (.ofList [.string "tool_use", .string id, .string name, input]) (.toolUse id name input.value)
  | toolResultItems (toolUseId content : String) (isError : Bool) :
      BlockOf (.ofList [.string "tool_result", .string toolUseId, .string content, .bool isError])
        (.toolResult toolUseId content isError)

theorem Json.asStr_eq_some {v : Json} {s : String} : v.asStr = some s ↔ v = .string s := by
  cases v <;> simp [Json.asStr]

namespace ContentBlock

variable {fields : JsonFields} {items : JsonItems} {b : ContentBlock} {d : Json}

private theorem blockOf_of_fields (h : ofFields fields = some b) : BlockOf (.object fields) b := by
  unfold ofFields at h
  simp only [bind, Option.bind_eq_some_iff, Json.asStr_eq_some] at h
  obtain ⟨_, htype, tag, rfl, h⟩ := h
  by_cases htext : tag = "text"
  · subst htext
    rw [if_pos rfl] at h
    simp only [Option.bind_eq_some_iff, Json.asStr_eq_some] at h
    obtain ⟨_, ht, t, rfl, h⟩ := h
    obtain rfl := Option.some.inj h
    exact .text htype ht
  · by_cases huse : tag = "tool_use"
    · subst huse
      rw [if_neg htext, if_pos rfl] at h
      simp only [Option.bind_eq_some_iff, Json.asStr_eq_some] at h
      obtain ⟨_, hid, id, rfl, _, hname, name, rfl, input, hinput, h⟩ := h
      obtain rfl := Option.some.inj h
      exact .toolUse htype hid hname hinput
    · by_cases hresult : tag = "tool_result"
      · subst hresult
        rw [if_neg htext, if_neg huse, if_pos rfl] at h
        simp only [Option.bind_eq_some_iff, Json.asStr_eq_some] at h
        obtain ⟨_, hid, id, rfl, _, hcontent, content, rfl, v, hv, h⟩ := h
        cases v with
        | bool isError =>
          obtain rfl := Option.some.inj h
          exact .toolResult htype hid hcontent hv
        | _ => cases h
      · rw [if_neg htext, if_neg huse, if_neg hresult] at h
        cases h

private theorem blockOf_of_items (h : ofItems items.toList = some b) : BlockOf (.array items) b := by
  rw [← JsonItems.ofList_toList items]
  generalize items.toList = l at h ⊢
  unfold ofItems at h
  split at h
  · rename_i tag rest
    by_cases htext : tag = "text"
    · subst htext
      rw [if_pos rfl] at h
      split at h
      · obtain rfl := Option.some.inj h
        exact .textItems _
      · cases h
    · by_cases huse : tag = "tool_use"
      · subst huse
        rw [if_neg htext, if_pos rfl] at h
        split at h
        · obtain rfl := Option.some.inj h
          exact .toolUseItems _ _ _
        · cases h
      · by_cases hresult : tag = "tool_result"
        · subst hresult
          rw [if_neg htext, if_neg huse, if_pos rfl] at h
          split at h
          · obtain rfl := Option.some.inj h
            exact .toolResultItems _ _ _
          · cases h
        · rw [if_neg htext, if_neg huse, if_neg hresult] at h
          cases h
  · cases h

theorem ofDocument_eq_some : ofDocument d = some b ↔ BlockOf d b := by
  constructor
  · intro h
    cases d with
    | object fields => exact blockOf_of_fields h
    | array items => exact blockOf_of_items h
    | _ => cases h
  · intro h
    cases h with
    | text htype htext => simp [ofDocument, ofFields, htype, htext, Json.asStr]
    | toolUse htype hid hname hinput => simp [ofDocument, ofFields, htype, hid, hname, hinput, Json.asStr]
    | toolResult htype hid hcontent herror =>
      simp [ofDocument, ofFields, htype, hid, hcontent, herror, Json.asStr]
    | textItems t => rfl
    | toolUseItems id name input => rfl
    | toolResultItems toolUseId content isError => rfl

theorem listOfDocument_eq_some {blocks : List ContentBlock} :
    listOfDocument d = some blocks ↔ ∃ items, d = .array items ∧ List.Forall₂ BlockOf items.toList blocks := by
  cases d with
  | array items =>
    unfold listOfDocument
    dsimp only
    simp only [mapM_eq_some, ofDocument_eq_some, Json.array.injEq, exists_eq_left']
  | _ => simp [listOfDocument]

/-- The text of a block is one of the strings of its document. -/
theorem mem_strings_of_text {t : String} (h : BlockOf d (.text t)) : t ∈ d.strings := by
  cases h with
  | text htype htext => exact JsonFields.mem_strings (JsonFields.mem_of_single htext) (List.mem_singleton_self t)
  | textItems t =>
    have hmem : Json.string t ∈ (JsonItems.ofList [.string "text", .string t]).toList := by simp
    exact JsonItems.mem_strings hmem (List.mem_singleton_self t)

end ContentBlock

/-! ### Round trips -/

/-- The input of a tool call is a value. -/
def ContentBlock.Ordered : ContentBlock → Prop
  | .toolUse _ _ input => input.Ordered
  | _ => True

theorem ContentBlock.ofDocument_document {b : ContentBlock} (h : b.Ordered) : ofDocument b.document = some b := by
  cases b with
  | text t => rfl
  | toolUse id name input =>
    have hvalue : input.value = input := Json.value_of_ordered h
    show some (toolUse id name input.value) = _
    rw [hvalue]
  | toolResult toolUseId content isError => rfl

theorem ContentBlock.depth_document (b : ContentBlock) : b.document.depth = Nested.depth b := by
  cases b <;> simp [document, Json.depth, JsonFields.depth, inputDepth, Nested.depth]

namespace JsonTexts

variable {jt : JsonTexts} {content : List ContentBlock} {raw : String}

theorem listOfDocument_contentDocument (h : ∀ b ∈ content, b.Ordered) :
    ContentBlock.listOfDocument (contentDocument content) = some content := by
  unfold ContentBlock.listOfDocument contentDocument Json.ofList
  dsimp only
  rw [JsonItems.toList_ofList, mapM_eq_some, List.forall₂_map_left_iff]
  exact List.forall₂_same.mpr fun b hb => ContentBlock.ofDocument_document (h b hb)

theorem depth_contentDocument (content : List ContentBlock) :
    (contentDocument content).depth = Nested.depth content := by
  unfold contentDocument Json.ofList
  rw [Json.depth]
  refine congrArg (· + 1) ?_
  induction content with
  | nil => rfl
  | cons b content ih => rw [List.map_cons, JsonItems.ofList, JsonItems.depth, ih, b.depth_document]; rfl

/-- A list of blocks nests two levels deeper than its inputs. -/
theorem depth_contentDocument_lt {n : Nat} :
    (contentDocument content).depth < n + 2 ↔ ∀ b ∈ content, b.inputDepth < n := by
  rw [depth_contentDocument, Nested.depth_list_lt]
  exact forall₂_congr fun b _ => Nat.add_lt_add_iff_right

/-- What was written is read back if its document is. -/
theorem decodeContent_encodeContent (h : ∀ b ∈ content, b.Ordered) (hreads : jt.Reads (contentDocument content))
    (hdepth : ∀ b ∈ content, b.inputDepth ≤ 125) : jt.decodeContent (jt.encodeContent content) = content := by
  have hlimit : (contentDocument content).depth < nestingLimit := by
    refine depth_contentDocument_lt.mpr fun b hb => ?_
    exact Nat.lt_succ_of_le (hdepth b hb)
  unfold decodeContent encodeContent
  rw [hreads.1 hlimit]
  dsimp only
  rw [listOfDocument_contentDocument h, Option.getD_some]

/-- Stored content is read back as it was written exactly if no tool call has an input of more than 125 levels. -/
theorem content_round_trips (jt : JsonTexts) (content : List ContentBlock) (h : ∀ b ∈ content, b.Ordered)
    (hreads : jt.Reads (contentDocument content)) :
    jt.decodeContent (jt.encodeContent content) = content ↔
      ∀ id name input, .toolUse id name input ∈ content → input.depth ≤ 125 := by
  constructor
  · intro hback id name input hmem
    by_contra hdeep
    have hlimit : nestingLimit ≤ (contentDocument content).depth := by
      by_contra hlow
      have hall := depth_contentDocument_lt.mp (show _ < 126 + 2 from Nat.lt_of_not_le hlow)
      exact hdeep (Nat.le_of_lt_succ (hall _ hmem))
    obtain ⟨e, he⟩ := hreads.2 hlimit
    unfold decodeContent encodeContent at hback
    rw [he] at hback
    -- the fallback is a single text block, but the content has a tool call
    dsimp only at hback
    rw [← hback] at hmem
    cases List.mem_singleton.mp hmem
  · intro hdepth
    refine decodeContent_encodeContent h hreads fun b hb => ?_
    cases b with
    | toolUse id name input => exact hdepth id name input hb
    | _ => exact Nat.zero_le _

/-- A call whose input names a file. -/
theorem content_round_trips_call :
    let content : List ContentBlock :=
      [.text "[]", .toolUse "a" "b" (.object (.cons "path" (.string "foo.txt") .nil)), .toolResult "a" "ok" false]
    let text := "[\x7b\"type\":\"text\",\"text\":\"[]\"\x7d," ++
      "\x7b\"type\":\"tool_use\",\"id\":\"a\",\"name\":\"b\",\"input\":\x7b\"path\":\"foo.txt\"\x7d\x7d," ++
      "\x7b\"type\":\"tool_result\",\"tool_use_id\":\"a\",\"content\":\"ok\",\"is_error\":false\x7d]"
    let jt : JsonTexts := ⟨fun _ => text, fun _ => .ok (contentDocument content)⟩
    jt.decodeContent (jt.encodeContent content) = content ↔
      ∀ id name input, .toolUse id name input ∈ content → input.depth ≤ 125 :=
  content_round_trips _ _ (by simp [ContentBlock.Ordered, Json.Ordered, JsonFields.Ordered, JsonFields.keys,
    JsonFields.toList]) ⟨fun _ => rfl, fun h => absurd h (by decide)⟩

theorem ordered_nest (n : Nat) : (Json.nest n).Ordered := by
  induction n with
  | zero => trivial
  | succ n ih => exact ⟨ih, trivial⟩

/-- The text of a call with an input of 126 levels is refused, and read back as a block of text. -/
theorem deep_input_lost :
    let content : List ContentBlock := [.toolUse "a" "b" (.nest 126)]
    let text := "[\x7b\"type\":\"tool_use\",\"id\":\"a\",\"name\":\"b\",\"input\":" ++
      String.ofList (List.replicate 126 '[') ++ "null" ++ String.ofList (List.replicate 126 ']') ++ "\x7d]"
    let jt : JsonTexts := ⟨fun _ => text, fun _ => .error ⟨"recursion limit exceeded at line 1 column 174"⟩⟩
    (∀ b ∈ content, b.Ordered) ∧ jt.Reads (contentDocument content) ∧
      jt.decodeContent (jt.encodeContent content) = [.text text] ∧
      jt.decodeContent (jt.encodeContent content) ≠ content := by
  refine ⟨?_, ⟨fun h => ?_, fun _ => ⟨_, rfl⟩⟩, rfl, ?_⟩
  · exact fun b hb => List.mem_singleton.mp hb ▸ ordered_nest 126
  · exact absurd (depth_contentDocument_lt.mp (show _ < 126 + 2 from h) _ (List.mem_singleton_self _))
      (by simp [ContentBlock.inputDepth, Json.depth_nest])
  · exact fun h => by cases h

/-! ### Plain texts -/

/-- A text that is the text of an array of blocks. -/
def ReadsAsBlocks (jt : JsonTexts) (raw : String) : Prop :=
  ∃ items blocks, jt.document raw = .ok (.array items) ∧ List.Forall₂ BlockOf items.toList blocks

/-- A plain text is kept as a single block of text exactly if it is not itself the text of an array of blocks. -/
theorem decodeContent_eq_text (h : jt.Quotes raw) : jt.decodeContent raw = [.text raw] ↔ ¬ jt.ReadsAsBlocks raw := by
  unfold decodeContent ReadsAsBlocks
  cases hdocument : jt.document raw with
  | error e => simp
  | ok d =>
    dsimp only
    cases hlist : ContentBlock.listOfDocument d with
    | none =>
      have hno : ∀ items, d = .array items → ∀ blocks, ¬ List.Forall₂ BlockOf items.toList blocks := by
        intro items hd blocks hblocks
        rw [ContentBlock.listOfDocument_eq_some.mpr ⟨items, hd, hblocks⟩] at hlist
        cases hlist
      simpa using hno
    | some blocks =>
      obtain ⟨items, rfl, hblocks⟩ := ContentBlock.listOfDocument_eq_some.mp hlist
      rw [Option.getD_some]
      constructor
      · rintro rfl
        -- a text cannot quote itself
        obtain ⟨v, rest, htext, -, hitems⟩ := List.forall₂_cons_right_iff.mp hblocks
        have hmem : v ∈ items.toList := hitems ▸ List.mem_cons_self
        have hquoted : raw ∈ (Json.array items).strings :=
          JsonItems.mem_strings hmem (ContentBlock.mem_strings_of_text htext)
        exact absurd (h _ hdocument raw hquoted) (Nat.lt_irrefl _)
      · exact fun hno => absurd ⟨items, blocks, rfl, hblocks⟩ hno

end JsonTexts

/-! ### Loading -/

section Loading

variable {jt : JsonTexts} {rows : List StoredRow} {sid : SessionId}

theorem message_ok {row : StoredRow} {role : MessageRole} (h : row.role = roleToStr role) :
    row.message jt = .ok ⟨role, jt.decodeContent row.content⟩ := by
  unfold StoredRow.message
  rw [h, strToRole_roleToStr]
  rfl

theorem mem_of_selectRows {row : StoredRow} (h : row ∈ selectRows rows sid) : row ∈ rows :=
  List.mem_of_mem_filter ((List.perm_insertionSort _ _).mem_iff.mp h)

/-- The table of the session store, with its contents as texts, is read as the store has it. -/
theorem loadMessages_stored (s : Store) (sid : SessionId)
    (h : ∀ row ∈ s.messages, ∀ b ∈ row.message.content, b.Ordered ∧ b.inputDepth ≤ 125)
    (hreads : ∀ row ∈ s.messages, jt.Reads (JsonTexts.contentDocument row.message.content)) :
    loadMessages jt (s.messages.map (MessageRow.stored jt)) sid = .ok (s.transcript sid) := by
  have hselect : selectRows (s.messages.map (MessageRow.stored jt)) sid =
      (Store.bySequence (s.rows sid)).map (MessageRow.stored jt) := by
    unfold selectRows Store.bySequence Store.rows
    rw [List.filter_map]
    exact (List.map_insertionSort _ _ (MessageRow.stored jt) _ fun _ _ _ _ => Iff.rfl).symm
  unfold loadMessages
  rw [hselect, Store.transcript, mapM_eq_ok, List.forall₂_map_left_iff, List.forall₂_map_right_iff]
  refine List.forall₂_same.mpr fun row hrow => ?_
  have hmem : row ∈ s.messages := List.mem_of_mem_filter ((List.perm_insertionSort _ _).mem_iff.mp hrow)
  have hback := JsonTexts.decodeContent_encodeContent (fun b hb => (h row hmem b hb).1) (hreads row hmem)
    fun b hb => (h row hmem b hb).2
  have hmessage : (row.stored jt).message jt = .ok ⟨row.message.role, jt.decodeContent (row.stored jt).content⟩ :=
    message_ok rfl
  have hcontent : jt.decodeContent (row.stored jt).content = row.message.content := hback
  rw [hmessage, hcontent]

/-- A message that is a row of plain text, unless the text is itself the text of an array of blocks. -/
def KeptText (jt : JsonTexts) (row : StoredRow) (m : Message) : Prop :=
  roleToStr m.role = row.role ∧ (m.content = [.text row.content] ↔ ¬ jt.ReadsAsBlocks row.content)

theorem keptText_of_message {row : StoredRow} (hquotes : jt.Quotes row.content)
    (hrole : ∃ role, row.role = roleToStr role) : ∃ m, row.message jt = .ok m ∧ KeptText jt row m := by
  obtain ⟨role, hrole⟩ := hrole
  exact ⟨_, message_ok hrole, hrole.symm, JsonTexts.decodeContent_eq_text hquotes⟩

private theorem mapM_kept {α : Type} {f : StoredRow → Except SessionMemoryError α} {kept : StoredRow → α → Prop}
    {l : List StoredRow} (h : ∀ row ∈ l, ∃ a, f row = .ok a ∧ kept row a) :
    ∃ out, l.mapM f = .ok out ∧ List.Forall₂ kept l out := by
  induction l with
  | nil => exact ⟨[], rfl, .nil⟩
  | cons row l ih =>
    obtain ⟨⟨a, ha, hkept⟩, hrest⟩ := List.forall_mem_cons.mp h
    obtain ⟨out, hout, hkepts⟩ := ih hrest
    exact ⟨a :: out, by rw [List.mapM_cons, ha, hout]; rfl, .cons hkept hkepts⟩

/-- A plain text of an older version is read as a single block of text exactly if it is not the text of an array of
blocks, by itself and wherever its row is loaded. -/
theorem legacy_rows_decode (jt : JsonTexts) :
    (∀ raw, jt.Quotes raw → (jt.decodeContent raw = [.text raw] ↔ ¬ jt.ReadsAsBlocks raw)) ∧
    ∀ rows sid wm, (∀ row ∈ rows, jt.Quotes row.content ∧ ∃ role, row.role = roleToStr role) →
      (∃ messages, loadMessages jt rows sid = .ok messages ∧
        List.Forall₂ (KeptText jt) (selectRows rows sid) messages) ∧
      ∃ entries, loadMessagesAboveWatermark jt rows sid wm = .ok entries ∧
        List.Forall₂ (fun row entry => entry.1 = row.sequenceNum ∧ KeptText jt row entry.2)
          (selectRows (rows.filter fun row => wm < row.sequenceNum) sid) entries := by
  refine ⟨fun raw => JsonTexts.decodeContent_eq_text, fun rows sid wm h => ⟨?_, ?_⟩⟩
  · refine mapM_kept fun row hrow => ?_
    obtain ⟨hquotes, hrole⟩ := h row (mem_of_selectRows hrow)
    exact keptText_of_message hquotes hrole
  · refine mapM_kept fun row hrow => ?_
    obtain ⟨hquotes, hrole⟩ := h row (List.mem_of_mem_filter (mem_of_selectRows hrow))
    obtain ⟨m, hm, hkept⟩ := keptText_of_message hquotes hrole
    exact ⟨(row.sequenceNum, m), by rw [hm]; rfl, rfl, hkept⟩

/-- A greeting of an older version. -/
theorem legacy_rows_decode_hello :
    let jt : JsonTexts := ⟨fun _ => "[]", fun _ => .error ⟨"expected value at line 1 column 1"⟩⟩
    (jt.decodeContent "hello" = [.text "hello"] ↔ ¬ jt.ReadsAsBlocks "hello") ∧
      ∃ messages, loadMessages jt [⟨0, "user", "hello", 1⟩] 0 = .ok messages ∧
        List.Forall₂ (KeptText jt) (selectRows [⟨0, "user", "hello", 1⟩] 0) messages := by
  have hquotes : JsonTexts.Quotes ⟨fun _ => "[]", fun _ => .error ⟨"expected value at line 1 column 1"⟩⟩ "hello" :=
    fun _ hd => by cases hd
  exact ⟨(legacy_rows_decode _).1 "hello" hquotes,
    ((legacy_rows_decode _).2 _ 0 0 (List.forall_mem_singleton.mpr ⟨hquotes, .user, rfl⟩)).1⟩

/-- The plain text `[]` is read as no block at all. -/
theorem legacy_brackets_lost :
    let jt : JsonTexts := ⟨fun _ => "[]", fun text =>
      if text = "[]" then .ok (.array .nil) else .error ⟨"expected value at line 1 column 1"⟩⟩
    let row : StoredRow := ⟨0, "user", "[]", 1⟩
    jt.Quotes "[]" ∧ jt.decodeContent "[]" = [] ∧ loadMessages jt [row] 0 = .ok [⟨.user, []⟩] ∧
      loadMessagesAboveWatermark jt [row] 0 0 = .ok [(1, ⟨.user, []⟩)] := by
  refine ⟨fun d hd => ?_, rfl, rfl, rfl⟩
  obtain rfl : Json.array .nil = d := Except.ok.inj hd
  exact fun s hs => absurd hs List.not_mem_nil

end Loading


end AgentVerse
