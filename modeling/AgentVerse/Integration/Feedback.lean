import AgentVerse.Integration.Bridge

/-!
# Answers that come back

A platform reports what the bridge posts there like anything else. A comment goes to the issue that the request was
about (`send_eventOf`), and the report of the comment is a request about that issue. Slack says of a message that it is
a bot's, and such messages are dropped; nothing drops comments (`feedback`).
-/

namespace AgentVerse.Integration

open Effects

/-! ### Addresses -/

theorem rsplitOnce_eq_none {c : Char} {cs : List Char} (h : c ∉ cs) : rsplitOnce c cs = none := by
  induction cs with
  | nil => rfl
  | cons d cs ih =>
    rw [rsplitOnce, ih (List.not_mem_of_not_mem_cons h)]
    exact if_neg (Ne.symm (List.ne_of_not_mem_cons h))

/-- A text is split at its last separator. -/
theorem rsplitOnce_append {c : Char} {r : List Char} (h : c ∉ r) (l : List Char) :
    rsplitOnce c (l ++ c :: r) = some (l, r) := by
  induction l with
  | nil =>
    rw [List.nil_append, rsplitOnce, rsplitOnce_eq_none h]
    exact if_pos rfl
  | cons d l ih =>
    rw [List.cons_append, rsplitOnce, ih]

theorem hash_not_mem_digits (n : Nat) : '#' ∉ (toString n).toList := by
  intro h
  rw [show toString n = n.repr from rfl, Nat.toList_repr] at h
  have := Nat.isDigit_of_mem_toDigits (by decide) (by decide) h
  exact absurd this (by decide)

/-- The identity of a conversation is read back as it was made. -/
theorem parseConversationId_made (repo : String) (n : Nat) :
    GithubConnector.parseConversationId (repo ++ "#" ++ toString n) = .ok (repo, toString n) := by
  have htext : (repo ++ "#" ++ toString n).toList = repo.toList ++ '#' :: (toString n).toList := by
    simp [String.toList_append]
  rw [GithubConnector.parseConversationId, htext, rsplitOnce_append (hash_not_mem_digits n)]
  simp only [String.ofList_toList]

/-- What is sent for a conversation about an issue. -/
def GithubConnector.comment (c : GithubConnector) (repo : String) (n : Nat) (text : String) : Outgoing :=
  .post (commentsUrl repo (toString n)) c.token (some "agentverse-integration") (.ofFields [("body", .string text)])

theorem GithubConnector.send_made (c : GithubConnector) {repo : String} {n : Nat} {event : Event}
    (h : event.conversationId = repo ++ "#" ++ toString n) : c.send event = .ok (c.comment repo n event.text) := by
  rw [send, h, parseConversationId_made]
  rfl

/-! ### Comments on comments -/

variable (jt : JsonTexts) (cr : Crypto)

/-- The request tells of a comment. -/
structure Reports (c : GithubConnector) (repo : String) (n : Nat) (text : String) (d : Delivery) : Prop where
  signed : c.Signed cr d
  type : GithubConnector.eventType d = "issue_comment"
  payload : ∃ payload, fromSlice jt d.body = some payload ∧
    GithubConnector.textAt payload "repository" "full_name" = repo ∧
    asU64 ((payload.field "issue").field "number") = some n ∧
    ((payload.field "comment").field "body").asStr = some text

/-- A request, the response to its event, and the outcome of the comment. -/
structure Turn where
  delivery : Delivery
  id : String
  response : Event
  outcome : Except String Unit

def Turn.inputs (t : Turn) : List Input :=
  [.delivery t.delivery t.id, .receive, .handled (some t.response), .sent t.outcome]

/-- Each request tells of the comment before, the first of a comment with this text, and is responded to in its
conversation. -/
def Echoes (c : GithubConnector) (repo : String) (n : Nat) : String → List Turn → Prop
  | _, [] => True
  | text, t :: turns => Reports jt cr c repo n text t.delivery ∧
    t.response.conversationId = repo ++ "#" ++ toString n ∧ Echoes c repo n t.response.text turns

/-- What a step posts. -/
def posted : Output → Option Outgoing
  | .attempted (.ok request) _ => some request
  | _ => none

variable {jt cr} {c : GithubConnector} {repo : String} {n : Nat} {text : String} {d : Delivery}

theorem checkSignature_ok {scheme secret : String} {message mac : List UInt8}
    (h : cr.hmac (bytesOf secret) message = some mac) :
    checkSignature cr scheme secret (scheme.toList ++ hexEncode mac) message = .ok () := by
  rw [checkSignature, h]
  exact if_neg (not_not.mpr rfl)

/-- A report is accepted, whoever wrote the comment. -/
theorem Reports.accepted (h : Reports jt cr c repo n text d) (id : String) :
    ∃ user metadata, GithubConnector.eventHandler jt cr c.webhookSecret d id =
      .ok (okBody, some ⟨id, repo ++ "#" ++ toString n, user, text, metadata⟩) := by
  obtain ⟨⟨mac, hmac, hheader⟩, htype, payload, hpayload, hrepo, hnumber, hbody⟩ := h
  refine ⟨GithubConnector.textAt payload "sender" "login", [("event_type", "issue_comment")], ?_⟩
  have hverify : GithubConnector.verifySignature cr c.webhookSecret d = .ok () := by
    rw [GithubConnector.verifySignature, hheader]
    exact checkSignature_ok hmac
  rw [GithubConnector.eventHandler, hverify]
  simp only [hpayload, htype, GithubConnector.eventOf, GithubConnector.eventAbout, hrepo, hnumber, hbody, true_or,
    if_true, Option.some_or, Option.getD_some]

/-- The loop waits, and nothing is in the channel. -/
structure Waiting (handler : Delivery → String → Except Nat (Json × Option Event)) (s : Bridge) : Prop where
  phase : s.phase = .receiving
  listener : s.listener = .bound handler
  channel : s.channel = .empty

/-- One turn of the bridge between an issue and itself. -/
theorem turn_posts {rt : IntegrationRuntime} (hrt : rt = ⟨c.connector jt cr, [c.connector jt cr]⟩) {s : Bridge}
    (hs : Waiting (GithubConnector.eventHandler jt cr c.webhookSecret) s) {t : Turn}
    (hreports : Reports jt cr c repo n text t.delivery)
    (hconv : t.response.conversationId = repo ++ "#" ++ toString n) :
    Waiting (GithubConnector.eventHandler jt cr c.webhookSecret) (rt.machine.run s t.inputs) ∧
      (rt.machine.outputs s t.inputs).filterMap posted = [c.comment repo n t.response.text] := by
  obtain ⟨phase, listener, channel⟩ := s
  obtain ⟨hphase, hlistener, hchannel⟩ := hs
  dsimp only at hphase hlistener hchannel
  subst hrt hphase hlistener hchannel
  obtain ⟨user, metadata, hok⟩ := hreports.accepted t.id
  have hopen : (Mailbox.empty : Mailbox Event channelCapacity).Open := by decide
  have hrecv := Mailbox.recv_send_empty (n := channelCapacity) (by decide)
    (⟨t.id, repo ++ "#" ++ toString n, user, text, metadata⟩ : Event)
  have hsend : (c.connector jt cr).send t.response = .ok (c.comment repo n t.response.text) := c.send_made hconv
  have hsource : (c.connector jt cr).receive = .channel := rfl
  simp only [Turn.inputs, Machine.run, Machine.outputs, IntegrationRuntime.machine, IntegrationRuntime.step,
    IntegrationRuntime.deliver, hok, IntegrationRuntime.receive, hsource, hrecv, IntegrationRuntime.received,
    IntegrationRuntime.sendTo, hsend, hopen, if_true]
  exact ⟨⟨rfl, rfl, rfl⟩, rfl⟩

theorem turns_post {rt : IntegrationRuntime} (hrt : rt = ⟨c.connector jt cr, [c.connector jt cr]⟩) {s : Bridge}
    (hs : Waiting (GithubConnector.eventHandler jt cr c.webhookSecret) s) {turns : List Turn}
    (h : Echoes jt cr c repo n text turns) : (rt.machine.outputs s (turns.flatMap Turn.inputs)).filterMap posted =
      turns.map fun t => c.comment repo n t.response.text := by
  induction turns generalizing s text with
  | nil => rfl
  | cons t turns ih =>
    obtain ⟨hreports, hconv, hrest⟩ := h
    obtain ⟨hnext, hposts⟩ := turn_posts hrt hs hreports hconv
    rw [List.flatMap_cons, Machine.outputs_append, List.filterMap_append, hposts, ih hnext hrest]
    rfl

/-! ### Messages of bots -/

/-- The request tells of a message that is no bot's. -/
def human (jt : JsonTexts) : Input → Bool
  | .delivery d _ => ((do
    let payload ← fromSlice jt d.body
    let event ← payload.get? "event"
    if event.field "type" = .string "message" ∧ (event.get? "bot_id").isNone then some () else none) : Option Unit).isSome
  | _ => false

def Mark.request : Mark → Option (Except ConnectorError Outgoing)
  | attempted request => some request
  | _ => none

def Mark.event : Mark → Option Event
  | took event => some event
  | _ => none

theorem requests_sent (response : Event) (l : List Connector) :
    l.filterMap (Mark.request ∘ fun output => .attempted (output.send response)) =
      l.map fun output => output.send response := by
  induction l with
  | nil => rfl
  | cons output l ih => simp [Mark.request, ← ih]

theorem events_sent (response : Event) (l : List Connector) :
    l.filterMap (Mark.event ∘ fun output => .attempted (output.send response)) = [] := by
  simp [Mark.event]

/-- For each event that is taken there is at most one request to each output. -/
theorem requests_le {outputs : List Connector} {phase : Phase} {marks : List Mark} {rounds : List Round}
    (h : Rounds outputs phase marks rounds) :
    (marks.filterMap Mark.request).length ≤ outputs.length * (marks.filterMap Mark.event).length := by
  obtain ⟨part, hpart, rfl⟩ := h
  have hround : ∀ r : Round, (r.marks outputs).filterMap Mark.event = [r.event] ∧
      ((r.marks outputs).filterMap Mark.request).length ≤ outputs.length := by
    rintro ⟨event, response⟩
    cases response with
    | none => simp [Round.marks, List.filterMap_cons, Mark.event, Mark.request]
    | some response =>
      simp [Round.marks, List.filterMap_cons, Mark.event, Mark.request, requests_sent, events_sent]
  have hunderway : (part.filterMap Mark.request).length ≤ outputs.length * (part.filterMap Mark.event).length := by
    cases hpart with
    | starting | receiving | ended => simp
    | handling => simp [List.filterMap_cons, Mark.event, Mark.request]
    | sending event response before output left h =>
      simp [List.filterMap_cons, Mark.event, Mark.request, requests_sent, events_sent, h]
  rw [List.filterMap_append, List.filterMap_append, List.length_append, List.length_append, Nat.mul_add]
  refine Nat.add_le_add ?_ hunderway
  induction rounds with
  | nil => simp
  | cons r rounds ih =>
    obtain ⟨hevent, hrequests⟩ := hround r
    rw [List.flatMap_cons, List.filterMap_append, List.filterMap_append, List.length_append, List.length_append,
      hevent, Nat.mul_add]
    exact Nat.add_le_add (by simpa using hrequests) ih

theorem human_of_accepted {c : SlackConnector} {outputs : List Connector} {i : Input} {o : Output} {e : Event}
    (h : accepted ⟨c.connector jt cr, outputs⟩ (i, o) = some e) : human jt i = true := by
  unfold accepted at h
  split at h
  · cases h
  · rename_i d id o' _ heq
    cases heq
    obtain ⟨handler, hhandler, h⟩ := Option.bind_eq_some_iff.mp h
    cases hhandler
    split at h
    · rename_i hok
      unfold SlackConnector.eventHandler at hok
      split at hok
      · cases hok
      · split at hok
        · cases hok
        · rename_i payload hpayload
          split at hok
          · cases hok
            cases h
          · cases hok
            obtain ⟨event, hevent, h⟩ := Option.bind_eq_some_iff.mp h
            split at h
            · rename_i hmessage
              simpa [human, hpayload, hevent, hmessage.1] using hmessage.2
            · cases h
    · cases h
  · cases h

theorem accepted_le_humans (c : SlackConnector) (outputs : List Connector) (h : List (Input × Output)) :
    (h.filterMap (accepted ⟨c.connector jt cr, outputs⟩)).length ≤ ((h.map Prod.fst).filter (human jt)).length := by
  induction h with
  | nil => exact Nat.le_refl 0
  | cons x h ih =>
    obtain ⟨i, o⟩ := x
    rw [List.filterMap_cons, List.map_cons, List.filter_cons]
    split
    · split
      · exact Nat.le_succ_of_le ih
      · exact ih
    · rename_i e he
      rw [if_pos (human_of_accepted he)]
      exact Nat.succ_le_succ ih

theorem taken_marks (h : List (Input × Output)) :
    h.filterMap taken = ((h.map Prod.snd).filterMap Output.mark).filterMap Mark.event := by
  rw [List.filterMap_map, List.filterMap_filterMap]
  refine congrFun (congrArg List.filterMap (funext ?_)) h
  rintro ⟨i, o⟩
  cases o <;> rfl

/-- Over GitHub an answer brings another one: as long as each comment is reported back to the bridge, there is a comment
for each report, on the same issue, however many there are. Over Slack a run makes at most as many requests as there are
outputs for each message of a person, all outputs together, whatever else is delivered. -/
theorem feedback (jt : JsonTexts) (cr : Crypto) (github : GithubConnector) (slack : SlackConnector) (repo : String)
    (n : Nat) (text : String) (turns : List Turn) (hechoes : Echoes jt cr github repo n text turns)
    (outputs : List Connector) (inputs : List Input) :
    let hub : IntegrationRuntime := ⟨github.connector jt cr, [github.connector jt cr]⟩
    let rt : IntegrationRuntime := ⟨slack.connector jt cr, outputs⟩
    (hub.machine.outputs .fresh (.start :: .bind true :: turns.flatMap Turn.inputs)).filterMap posted =
        turns.map (fun t => github.comment repo n t.response.text) ∧
      (((rt.machine.outputs .fresh inputs).filterMap Output.mark).filterMap Mark.request).length ≤
        outputs.length * (inputs.filter (human jt)).length := by
  intro hub rt
  constructor
  · have hready : Waiting (GithubConnector.eventHandler jt cr github.webhookSecret)
        (hub.machine.run .fresh [.start, .bind true]) := ⟨rfl, rfl, rfl⟩
    have hsplit : Input.start :: .bind true :: turns.flatMap Turn.inputs =
        [.start, .bind true] ++ turns.flatMap Turn.inputs := rfl
    rw [hsplit, Machine.outputs_append, List.filterMap_append, turns_post rfl hready hechoes]
    rfl
  · have hsource : rt.input.receive = .channel := rfl
    obtain ⟨⟨rounds, hrounds⟩, hkept, -⟩ := run_kept hsource inputs
    have htaken := taken_marks (rt.machine.history .fresh inputs)
    rw [history_outputs] at htaken
    have hcount := hkept.count
    have hhumans : ((rt.machine.history .fresh inputs).filterMap (accepted rt)).length ≤
      (((rt.machine.history .fresh inputs).map Prod.fst).filter (human jt)).length := accepted_le_humans slack outputs _
    rw [show (rt.machine.history .fresh inputs).map Prod.fst = inputs from List.map_fst_zip (by simp)] at hhumans
    refine Nat.le_trans (requests_le hrounds) (Nat.mul_le_mul_left _ ?_)
    rw [← htaken]
    omega

/-- The text of a report of a comment on issue 7 of `o/r`. -/
def reportText (text : String) : String :=
  "\x7b\"repository\":\x7b\"full_name\":\"o/r\"\x7d,\"issue\":\x7b\"number\":7\x7d,\"comment\":\x7b\"body\":\"" ++ text ++ "\"\x7d\x7d"

def reportPayload (text : String) : Json :=
  .ofFields [("repository", .ofFields [("full_name", .string "o/r")]), ("issue", .ofFields [("number", .int 7)]),
    ("comment", .ofFields [("body", .string text)])]

/-- The codes of two such reports under the secret `s`. -/
def reportMac (text : String) : List UInt8 :=
  if text = "hi" then
    [41, 136, 22, 166, 12, 175, 65, 156, 225, 74, 254, 87, 40, 189, 203, 200, 85, 82, 215, 225, 159, 45, 139, 187, 116, 5, 61, 57, 176, 32, 40, 66]
  else
    [206, 123, 40, 212, 210, 106, 43, 94, 108, 202, 71, 247, 191, 246, 117, 208, 59, 192, 191, 235, 195, 77, 194, 42, 88, 93, 20, 78, 19, 97, 108, 21]

def report (text : String) : Turn :=
  ⟨⟨fun name => if name = "X-GitHub-Event" then some (bytesOf "issue_comment")
      else if name = "X-Hub-Signature-256" then some (bytesOf "sha256=" ++ bytesOf (String.ofList (hexEncode (reportMac text))))
      else none, bytesOf (reportText text)⟩, "id", ⟨"id", "o/r#7", "", "hello", []⟩, .ok ()⟩

def reportCrypto : Crypto :=
  ⟨fun _ message => if message = bytesOf (reportText "hi") then some (reportMac "hi")
    else if message = bytesOf (reportText "hello") then some (reportMac "hello") else none⟩

def reportTexts : JsonTexts :=
  ⟨fun _ => "", fun t => if t = reportText "hi" then .ok (reportPayload "hi")
    else if t = reportText "hello" then .ok (reportPayload "hello") else .error ⟨"EOF while parsing a value"⟩⟩

theorem report_reports {text : String} (h : text = "hi" ∨ text = "hello") :
    Reports reportTexts reportCrypto ⟨"t", "s", 80⟩ "o/r" 7 text (report text).delivery := by
  refine ⟨⟨reportMac text, ?_, ?_⟩, ?_, reportPayload text, ?_, ?_, ?_, ?_⟩
  all_goals
    rcases h with rfl | rfl
    · decide +kernel
    · decide +kernel

theorem feedback_twice :
    ((IntegrationRuntime.machine ⟨GithubConnector.connector reportTexts reportCrypto ⟨"t", "s", 80⟩,
        [GithubConnector.connector reportTexts reportCrypto ⟨"t", "s", 80⟩]⟩).outputs .fresh
      (.start :: .bind true :: [report "hi", report "hello"].flatMap Turn.inputs)).filterMap posted =
        [GithubConnector.comment ⟨"t", "s", 80⟩ "o/r" 7 "hello", GithubConnector.comment ⟨"t", "s", 80⟩ "o/r" 7 "hello"] :=
  (feedback reportTexts reportCrypto ⟨"t", "s", 80⟩ ⟨"b", "s", 81⟩ "o/r" 7 "hi" [report "hi", report "hello"]
    ⟨report_reports (.inl rfl), by decide, report_reports (.inr rfl), by decide, trivial⟩ [] []).1

end AgentVerse.Integration
