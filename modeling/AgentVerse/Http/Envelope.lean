import AgentVerse.Core.Values
import AgentVerse.Session.Codec

/-!
# Envelopes

The messages of the aether orchestrator: envelopes, the payload that suspends a conversation, and the request that
resumes it. Each is read from objects, with its members in any order and others ignored, and from sequences of its
fields. What was read is what is read again from every copy that is sent on (`messages_relayed`).
-/

namespace AgentVerse

/-- `Uuid::to_string` and `Uuid::parse_str`: what is printed is read back. -/
structure UuidTexts where
  print : Uuid → String
  parse : String → Option Uuid
  parse_print : ∀ id, parse (print id) = some id

/-- Ids in unary. -/
def UuidTexts.unary : UuidTexts where
  print id := String.ofList (List.replicate id 'x')
  parse s := some s.toList.length
  parse_print id := by simp

/-! ### Maps of strings -/

/-- A map from strings to strings, in the order of its keys. -/
structure StringMap where
  entries : List (String × String)
  sorted : (entries.map (·.1)).Pairwise (· < ·)
  deriving DecidableEq

namespace StringMap

def empty : StringMap := ⟨[], .nil⟩

def get? (m : StringMap) (key : String) : Option String := m.entries.lookup key

/-- The entries as the members of an object. -/
def members : List (String × String) → JsonFields
  | [] => .nil
  | e :: l => .cons e.1 (.string e.2) (members l)

def document (m : StringMap) : Json := .object (members m.entries)

/-- The members of an object of strings as entries. -/
def entriesOf (fields : JsonFields) : List (String × String) := fields.toList.map fun e => (e.1, e.2.asStr.getD "")

theorem keys_entriesOf (fields : JsonFields) : (entriesOf fields).map (·.1) = fields.keys := by
  rw [entriesOf, List.map_map]
  rfl

/-- `HashMap::<String, String>::deserialize`: every value is a string, and of repeated keys the last one counts. -/
def ofDocument : Json → Option StringMap
  | .object fields =>
    if fields.toList.all fun e => e.2.asStr.isSome then
      some ⟨entriesOf (fields.collect .nil), by
        rw [keys_entriesOf]
        exact (Json.ordered_value (.object fields)).1⟩
    else none
  | _ => none

theorem toList_members (l : List (String × String)) :
    (members l).toList = l.map fun e => (e.1, Json.string e.2) := by
  induction l with
  | nil => rfl
  | cons e l ih => rw [members, JsonFields.toList, ih, List.map_cons]

theorem keys_members (l : List (String × String)) : (members l).keys = l.map (·.1) := by
  rw [JsonFields.keys, toList_members, List.map_map]
  rfl

theorem entriesOf_members (l : List (String × String)) : entriesOf (members l) = l := by
  rw [entriesOf, toList_members, List.map_map]
  exact List.map_id l

theorem ofDocument_document (m : StringMap) : ofDocument m.document = some m := by
  have hstrings : (members m.entries).toList.all (fun e => e.2.asStr.isSome) = true := by
    rw [toList_members, List.all_map]
    exact List.all_eq_true.mpr fun _ _ => rfl
  have hcollect : (members m.entries).collect .nil = members m.entries := by
    refine JsonFields.collect_eq (fun e he => ?_) ?_
    · rw [toList_members] at he
      obtain ⟨x, _, rfl⟩ := List.mem_map.mp he
      rfl
    · have hsorted := m.sorted
      rw [← keys_members] at hsorted
      exact hsorted
  obtain ⟨entries, sorted⟩ := m
  unfold document ofDocument
  dsimp only at hstrings hcollect ⊢
  rw [if_pos hstrings]
  simp only [hcollect, entriesOf_members]

theorem ordered_document (m : StringMap) : m.document.Ordered := by
  refine ⟨?_, JsonFields.ordered_iff.mpr fun e he => ?_⟩
  · rw [keys_members]
    exact m.sorted
  · rw [toList_members] at he
    obtain ⟨x, _, rfl⟩ := List.mem_map.mp he
    trivial

theorem depth_document (m : StringMap) : m.document.depth = 1 := by
  have hflat : (members m.entries).depth ≤ 0 := JsonFields.depth_le_iff.mpr fun e he => by
    rw [toList_members] at he
    obtain ⟨x, _, rfl⟩ := List.mem_map.mp he
    exact Nat.le_refl 0
  rw [document, Json.depth]
  omega

/-- What reads as a map is an object. -/
theorem depth_of_ofDocument {d : Json} {m : StringMap} (h : ofDocument d = some m) : 1 ≤ d.depth := by
  cases d with
  | object fields => exact Nat.le_add_left ..
  | _ => cases h

end StringMap

/-! ### Envelopes -/

inductive EnvelopeKind where
  | invoke
  | result
  | error
  | suspended
  | ping
  | pong
  deriving DecidableEq

namespace EnvelopeKind

/-- `rename_all = "snake_case"`. -/
def name : EnvelopeKind → String
  | invoke => "invoke"
  | result => "result"
  | error => "error"
  | suspended => "suspended"
  | ping => "ping"
  | pong => "pong"

def ofName? (s : String) : Option EnvelopeKind :=
  [invoke, result, error, suspended, ping, pong].find? fun k => k.name = s

/-- A unit variant is its name, or an object with its name and no value. -/
def ofDocument : Json → Option EnvelopeKind
  | .string s => ofName? s
  | .object (.cons key .null .nil) => ofName? key
  | _ => none

@[simp] theorem ofName?_name (k : EnvelopeKind) : ofName? k.name = some k := by
  cases k <;> decide

end EnvelopeKind

structure Envelope where
  id : Uuid
  kind : EnvelopeKind
  payload : Json
  metadata : StringMap

namespace Envelope

variable (uu : UuidTexts)

def document (e : Envelope) : Json :=
  .object (.cons "id" (.string (uu.print e.id)) (.cons "kind" (.string e.kind.name)
    (.cons "payload" e.payload (.cons "metadata" e.metadata.document .nil))))

def ofParts (id kind payload metadata : Json) : Option Envelope := do
  return ⟨← uu.parse (← id.asStr), ← EnvelopeKind.ofDocument kind, payload.value, ← StringMap.ofDocument metadata⟩

/-- `Envelope::deserialize`. -/
def ofDocument : Json → Option Envelope
  | .object fields => do
    ofParts uu (← fields.single "id") (← fields.single "kind") (← fields.single "payload") (← fields.single "metadata")
  | .array items =>
    match items.toList with
    | [id, kind, payload, metadata] => ofParts uu id kind payload metadata
    | _ => none
  | _ => none

def format : Format Envelope := ⟨document uu, ofDocument uu⟩

variable {uu} {e : Envelope} {d : Json}

theorem ofDocument_document (h : e.payload.Ordered) : ofDocument uu (e.document uu) = some e := by
  show ofParts uu (.string (uu.print e.id)) (.string e.kind.name) e.payload e.metadata.document = some e
  simp [ofParts, Json.asStr, uu.parse_print, EnvelopeKind.ofDocument, Json.value_of_ordered h,
    StringMap.ofDocument_document]

theorem depth_document : (e.document uu).depth = max e.payload.depth 1 + 1 := by
  simp [document, Json.depth, JsonFields.depth, StringMap.depth_document]

/-- The parts that an envelope was read from. -/
theorem ofParts_eq_some {id kind payload metadata : Json} (h : ofParts uu id kind payload metadata = some e) :
    e.payload = payload.value ∧ 1 ≤ metadata.depth := by
  unfold ofParts at h
  simp only [bind, Option.bind_eq_some_iff] at h
  obtain ⟨_, -, _, -, k, -, m, hm, h⟩ := h
  cases h
  exact ⟨rfl, StringMap.depth_of_ofDocument hm⟩

theorem stable : (format uu).Stable := by
  intro d e h
  obtain ⟨payload, metadata, hpayload, hmetadata, n, hd, hp, hm⟩ : ∃ payload metadata : Json,
      e.payload = payload.value ∧ 1 ≤ metadata.depth ∧ ∃ n, d.depth = n + 1 ∧ payload.depth ≤ n ∧ metadata.depth ≤ n := by
    cases d with
    | object fields =>
      simp only [format, ofDocument, bind, Option.bind_eq_some_iff] at h
      obtain ⟨_, -, _, -, payload, hpayload, metadata, hmetadata, h⟩ := h
      obtain ⟨he, hm⟩ := ofParts_eq_some h
      exact ⟨payload, metadata, he, hm, fields.depth, rfl, JsonFields.depth_single hpayload (Nat.le_refl _),
        JsonFields.depth_single hmetadata (Nat.le_refl _)⟩
    | array items =>
      simp only [format, ofDocument] at h
      split at h
      · rename_i id kind payload metadata hitems
        obtain ⟨he, hm⟩ := ofParts_eq_some h
        have hdepth := JsonItems.depth_le_iff.mp (Nat.le_refl items.depth)
        rw [hitems] at hdepth
        exact ⟨payload, metadata, he, hm, items.depth, rfl, hdepth payload (by simp), hdepth metadata (by simp)⟩
      · cases h
    | _ => cases h
  refine ⟨ofDocument_document (hpayload ▸ payload.ordered_value), ?_⟩
  have hvalue := payload.depth_value_le
  show (e.document uu).depth ≤ d.depth
  rw [depth_document, hd, hpayload]
  omega

end Envelope

/-! ### Suspending and resuming -/

/-- The payload of a suspended envelope. -/
structure SuspendPayload where
  sessionId : String
  approvalId : String
  kind : String
  prompt : String
  deriving DecidableEq

namespace SuspendPayload

/-- `serde_json::to_value`. -/
def value (p : SuspendPayload) : Json := .object (Json.record [
  ("session_id", some (.string p.sessionId)),
  ("approval_id", some (.string p.approvalId)),
  ("kind", some (.string p.kind)),
  ("prompt", some (.string p.prompt))])

/-- The payload that a value says, as its reader sees it. -/
def ofValue? (v : Json) : Option SuspendPayload := do
  return ⟨← (v.field "session_id").asStr, ← (v.field "approval_id").asStr, ← (v.field "kind").asStr,
    ← (v.field "prompt").asStr⟩

@[simp] theorem ofValue?_value (p : SuspendPayload) : ofValue? p.value = some p := by
  have hget : ∀ key, (Json.record [("session_id", some (.string p.sessionId)),
      ("approval_id", some (.string p.approvalId)), ("kind", some (.string p.kind)),
      ("prompt", some (.string p.prompt))]).get? key = _ :=
    Json.get?_record (show ["session_id", "approval_id", "kind", "prompt"].Nodup by decide)
  simp [value, ofValue?, Json.field, hget, List.lookup_cons, Json.asStr]

end SuspendPayload

/-- The decision of a human, as aether relays it. -/
inductive AetherApprovalDecision where
  | approved
  | rejected (reason : Option String)
  | modified (payload : Json)
  deriving DecidableEq

namespace AetherApprovalDecision

def optText : Option String → Json
  | some s => .string s
  | none => .null

/-- `Option::<String>::deserialize`. -/
def ofOptText : Json → Option (Option String)
  | .null => some none
  | v => v.asStr.map some

def document : AetherApprovalDecision → Json
  | approved => .object (.cons "type" (.string "approved") .nil)
  | rejected reason => .object (.cons "type" (.string "rejected") (.cons "reason" (optText reason) .nil))
  | modified payload => .object (.cons "type" (.string "modified") (.cons "payload" payload .nil))

/-- An object with a tag. A missing reason is none; a payload has to be there. -/
def ofFields (fields : JsonFields) : Option AetherApprovalDecision := do
  let tag ← (← fields.single "type").asStr
  if tag = "approved" then
    return approved
  else if tag = "rejected" then
    if fields.contains "reason" then return rejected (← ofOptText (← fields.single "reason"))
    else return rejected none
  else if tag = "modified" then
    return modified (← fields.single "payload").value
  else none

/-- A sequence of the tag and the field of the tagged variant. -/
def ofItems : List Json → Option AetherApprovalDecision
  | .string tag :: rest =>
    if tag = "approved" then if rest = [] then some approved else none
    else if tag = "rejected" then
      match rest with
      | [reason] => (ofOptText reason).map rejected
      | _ => none
    else if tag = "modified" then
      match rest with
      | [payload] => some (modified payload.value)
      | _ => none
    else none
  | _ => none

/-- `AetherApprovalDecision::deserialize`. -/
def ofDocument : Json → Option AetherApprovalDecision
  | .object fields => ofFields fields
  | .array items => ofItems items.toList
  | _ => none

def format : Format AetherApprovalDecision := ⟨document, ofDocument⟩

/-- What a payload is once it was read. -/
def Settled : AetherApprovalDecision → Prop
  | modified payload => payload.Ordered
  | _ => True

theorem ofDocument_document {a : AetherApprovalDecision} (h : a.Settled) : ofDocument a.document = some a := by
  cases a with
  | approved => rfl
  | rejected reason => cases reason <;> rfl
  | modified payload =>
    show some (modified payload.value) = _
    rw [Json.value_of_ordered h]

theorem depth_document_le {a : AetherApprovalDecision} {n : Nat} (h : ∀ payload, a = modified payload → payload.depth ≤ n) :
    a.document.depth ≤ n + 1 := by
  cases a with
  | approved => simp [document, Json.depth, JsonFields.depth]
  | rejected reason => cases reason <;> simp [document, optText, Json.depth, JsonFields.depth]
  | modified payload =>
    have hpayload := h payload rfl
    simp only [document, Json.depth, JsonFields.depth]
    omega

/-- What a decision that is read from members or items says, for its payload one of them. -/
private theorem of_modified {n : Nat} {a : AetherApprovalDecision} {v : Json} (hv : v.depth ≤ n)
    (h : some (modified v.value) = some a) : a.Settled ∧ ∀ payload, a = modified payload → payload.depth ≤ n := by
  cases h
  refine ⟨v.ordered_value, fun payload hp => ?_⟩
  cases hp
  exact v.depth_value_le.trans hv

private theorem of_other {n : Nat} {a : AetherApprovalDecision} (h : ∀ payload, a ≠ modified payload) :
    a.Settled ∧ ∀ payload, a = modified payload → payload.depth ≤ n := by
  refine ⟨?_, fun payload hp => absurd hp (h payload)⟩
  cases a with
  | modified payload => exact absurd rfl (h payload)
  | _ => trivial

theorem ofFields_settled {fields : JsonFields} {a : AetherApprovalDecision} (h : ofFields fields = some a) :
    a.Settled ∧ ∀ payload, a = modified payload → payload.depth ≤ fields.depth := by
  unfold ofFields at h
  simp only [bind, Option.bind_eq_some_iff] at h
  obtain ⟨_, -, tag, -, h⟩ := h
  split at h
  · cases h
    exact of_other fun _ h => by cases h
  · split at h
    · split at h
      · simp only [Option.bind_eq_some_iff] at h
        obtain ⟨_, -, _, -, h⟩ := h
        cases h
        exact of_other fun _ h => by cases h
      · cases h
        exact of_other fun _ h => by cases h
    · split at h
      · simp only [Option.bind_eq_some_iff] at h
        obtain ⟨v, hv, h⟩ := h
        exact of_modified (JsonFields.depth_single hv (Nat.le_refl _)) h
      · cases h

theorem ofItems_settled {items : JsonItems} {a : AetherApprovalDecision} (h : ofItems items.toList = some a) :
    a.Settled ∧ ∀ payload, a = modified payload → payload.depth ≤ items.depth := by
  have hdepth := JsonItems.depth_le_iff.mp (Nat.le_refl items.depth)
  generalize items.toList = l at h hdepth
  unfold ofItems at h
  split at h
  · split at h
    · split at h
      · cases h
        exact of_other fun _ h => by cases h
      · cases h
    · split at h
      · split at h
        · obtain ⟨_, -, rfl⟩ := Option.map_eq_some_iff.mp h
          exact of_other fun _ h => by cases h
        · cases h
      · split at h
        · split at h
          · exact of_modified (hdepth _ (by simp)) h
          · cases h
        · cases h
  · cases h

theorem stable : format.Stable := by
  intro d a h
  obtain ⟨n, hd, hsettled, hdepth⟩ : ∃ n, d.depth = n + 1 ∧ a.Settled ∧
      ∀ payload, a = modified payload → payload.depth ≤ n := by
    cases d with
    | object fields => exact ⟨fields.depth, rfl, ofFields_settled h⟩
    | array items => exact ⟨items.depth, rfl, ofItems_settled h⟩
    | _ => cases h
  exact ⟨ofDocument_document hsettled, hd ▸ depth_document_le hdepth⟩

end AetherApprovalDecision

/-- The body of a request to resume. -/
structure ResumeRequest where
  sessionId : String
  approvalId : String
  decision : AetherApprovalDecision
  deriving DecidableEq

namespace ResumeRequest

def document (r : ResumeRequest) : Json :=
  .object (.cons "session_id" (.string r.sessionId) (.cons "approval_id" (.string r.approvalId)
    (.cons "decision" r.decision.document .nil)))

def ofParts (sessionId approvalId decision : Json) : Option ResumeRequest := do
  return ⟨← sessionId.asStr, ← approvalId.asStr, ← AetherApprovalDecision.ofDocument decision⟩

/-- `ResumeRequest::deserialize`. -/
def ofDocument : Json → Option ResumeRequest
  | .object fields => do
    ofParts (← fields.single "session_id") (← fields.single "approval_id") (← fields.single "decision")
  | .array items =>
    match items.toList with
    | [sessionId, approvalId, decision] => ofParts sessionId approvalId decision
    | _ => none
  | _ => none

def format : Format ResumeRequest := ⟨document, ofDocument⟩

theorem ofParts_eq_some {sessionId approvalId decision : Json} {r : ResumeRequest}
    (h : ofParts sessionId approvalId decision = some r) :
    AetherApprovalDecision.ofDocument decision = some r.decision := by
  unfold ofParts at h
  simp only [bind, Option.bind_eq_some_iff] at h
  obtain ⟨_, -, _, -, a, ha, h⟩ := h
  cases h
  exact ha

/-- A request is read back from its parts, whose depth is that of its decision. -/
private theorem stable_of_parts {d decision : Json} {r : ResumeRequest} {n : Nat}
    (h : AetherApprovalDecision.ofDocument decision = some r.decision) (hd : d.depth = n + 1) (hn : decision.depth ≤ n) :
    ofDocument r.document = some r ∧ r.document.depth ≤ d.depth := by
  obtain ⟨hagain, hdepth⟩ := AetherApprovalDecision.stable decision r.decision h
  have hagain : AetherApprovalDecision.ofDocument r.decision.document = some r.decision := hagain
  have hdepth : r.decision.document.depth ≤ decision.depth := hdepth
  constructor
  · show ofParts (.string r.sessionId) (.string r.approvalId) r.decision.document = some r
    simp [ofParts, Json.asStr, hagain]
  · have hdoc : r.document.depth = r.decision.document.depth + 1 := by
      simp [document, Json.depth, JsonFields.depth]
    omega

theorem stable : format.Stable := by
  intro d r h
  cases d with
  | object fields =>
    simp only [format, ofDocument, bind, Option.bind_eq_some_iff] at h
    obtain ⟨_, -, _, -, decision, hdecision, h⟩ := h
    exact stable_of_parts (ofParts_eq_some h) rfl (JsonFields.depth_single hdecision (Nat.le_refl _))
  | array items =>
    simp only [format, ofDocument] at h
    split at h
    · rename_i sessionId approvalId decision hitems
      have hdepth := JsonItems.depth_le_iff.mp (Nat.le_refl items.depth)
      rw [hitems] at hdepth
      exact stable_of_parts (ofParts_eq_some h) rfl (hdepth decision (by simp))
    · cases h
  | _ => cases h

end ResumeRequest

/-! ### Relays -/

/-- An envelope is read as it was written unless its payload nests too deep. -/
theorem Envelope.read_write {uu : UuidTexts} {jt : JsonTexts} {e : Envelope} (he : e.payload.Ordered)
    (hreads : jt.Reads (e.document uu)) :
    (format uu).read jt ((format uu).write jt e) = some e ↔ e.payload.depth ≤ 126 := by
  have hlimit : (e.document uu).depth < nestingLimit ↔ e.payload.depth ≤ 126 := by
    rw [depth_document, nestingLimit]
    omega
  rw [← hlimit]
  constructor
  · intro h
    obtain ⟨d, hd, -⟩ := Format.read_eq_some.mp h
    by_contra hdeep
    obtain ⟨err, herr⟩ := hreads.2 (Nat.le_of_not_lt hdeep)
    rw [show jt.document ((format uu).write jt e) = _ from herr] at hd
    cases hd
  · exact fun h => Format.read_eq_some.mpr ⟨_, hreads.1 h, ofDocument_document he⟩

/-- Envelopes and requests to resume that were once read are read the same after any number of hops, and an envelope
is read as it was written exactly if its payload has at most 126 levels. -/
theorem messages_relayed (uu : UuidTexts) (jt : JsonTexts) (n : Nat) :
    (∀ e : Envelope, e.payload.Ordered → jt.Reads (e.document uu) →
      ((Envelope.format uu).read jt ((Envelope.format uu).write jt e) = some e ↔ e.payload.depth ≤ 126)) ∧
    (∀ text e, (∀ d, jt.document text = .ok d → d.depth < nestingLimit) → jt.Reads (e.document uu) →
      (Envelope.format uu).read jt text = some e →
      (Envelope.format uu).read jt (((Envelope.format uu).hop jt)^[n] text) = some e) ∧
    (∀ text r, (∀ d, jt.document text = .ok d → d.depth < nestingLimit) → jt.Reads r.document →
      ResumeRequest.format.read jt text = some r →
      ResumeRequest.format.read jt ((ResumeRequest.format.hop jt)^[n] text) = some r) :=
  ⟨fun _ => Envelope.read_write, fun _ _ hshallow hreads h => Envelope.stable.hops hshallow hreads h n,
    fun _ _ hshallow hreads h => ResumeRequest.stable.hops hshallow hreads h n⟩

end AgentVerse
