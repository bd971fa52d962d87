import AgentVerse.Effects.Mailbox
import AgentVerse.Http.Gateway
import AgentVerse.Mcp.Remote

/-!
# Connectors

The platforms that an agent can be reached from. Slack and GitHub post signed requests to a listener, which makes events
of them, and events are answered by requests to the platform. The authentication code of a signature is a parameter, and
so is the identity that an event is given.
-/

namespace AgentVerse.Integration

open Effects

structure Event where
  id : String
  conversationId : String
  userId : String
  text : String
  metadata : List (String × String)
  deriving DecidableEq

inductive ConnectorError where
  | connection (message : String)
  | auth (message : String)
  | platform (message : String)
  | eof
  deriving DecidableEq

/-- A request to the listener. `header` is the first value of a header. -/
structure Delivery where
  header : String → Option (List UInt8)
  body : List UInt8

/-- The answer of a listener, without a body for a status code alone. -/
structure Answer where
  status : Nat
  body : Option Json

/-- What a connector sends to its platform. -/
inductive Outgoing where
  | post (url token : String) (userAgent : Option String) (body : Json)
  | print (line : String)
  deriving DecidableEq

/-! ### Texts -/

def bytesOf (s : String) : List UInt8 := s.toUTF8.data.toList

def utf8? (bytes : List UInt8) : Option String := String.fromUTF8? ⟨bytes.toArray⟩

/-- The continuation bytes that may follow a first byte: how many, and the range of the first of them. -/
def continuation (b : UInt8) : Nat × UInt8 × UInt8 :=
  if 0xC2 ≤ b ∧ b ≤ 0xDF then (1, 0x80, 0xBF)
  else if b = 0xE0 then (2, 0xA0, 0xBF)
  else if b = 0xED then (2, 0x80, 0x9F)
  else if 0xE1 ≤ b ∧ b ≤ 0xEF then (2, 0x80, 0xBF)
  else if b = 0xF0 then (3, 0x90, 0xBF)
  else if 0xF1 ≤ b ∧ b ≤ 0xF3 then (3, 0x80, 0xBF)
  else if b = 0xF4 then (3, 0x80, 0x8F)
  else (0, 0, 0)

/-- The bytes of a character at the start, as far as they are there, and whether the character is complete. -/
def chunk (b : UInt8) (rest : List UInt8) : List UInt8 × Bool :=
  if b < 0x80 then ([b], true)
  else
    let (n, low, high) := continuation b
    match rest.take n with
    | [] => ([b], false)
    | c :: cs =>
      if low ≤ c ∧ c ≤ high then
        let more := cs.takeWhile fun d => 0x80 ≤ d ∧ d ≤ 0xBF
        (b :: c :: more, more.length + 1 = n)
      else ([b], false)

/-- Each part that is no character becomes a replacement character. -/
def replaceInvalid : Nat → List UInt8 → String
  | 0, _ => ""
  | _, [] => ""
  | fuel + 1, b :: rest =>
    let r := chunk b rest
    (if r.2 then (utf8? r.1).getD "\uFFFD" else "\uFFFD") ++ replaceInvalid fuel (rest.drop (r.1.length - 1))

/-- `String::from_utf8_lossy`. -/
def fromUtf8Lossy (bytes : List UInt8) : String := (utf8? bytes).getD (replaceInvalid bytes.length bytes)

def hexDigit (n : Nat) : Char := if n < 10 then Char.ofNat (48 + n) else Char.ofNat (87 + n)

/-- `hex::encode`. -/
def hexEncode (bytes : List UInt8) : List Char :=
  bytes.flatMap fun b => [hexDigit (b.toNat / 16), hexDigit (b.toNat % 16)]

/-- `str::rsplit_once`. -/
def rsplitOnce (c : Char) : List Char → Option (List Char × List Char)
  | [] => none
  | d :: cs =>
    match rsplitOnce c cs with
    | some (l, r) => some (d :: l, r)
    | none => if d = c then some ([], cs) else none

/-- `Value::as_u64`. -/
def asU64 : Json → Option Nat
  | .int n => if 0 ≤ n ∧ n < 2 ^ 64 then some n.toNat else none
  | _ => none

/-- What the listeners rely on. `hmac` may refuse a key. -/
structure Crypto where
  hmac : (key message : List UInt8) → Option (List UInt8)

/-- `serde_json::from_slice`. -/
def fromSlice (jt : JsonTexts) (body : List UInt8) : Option Json := do
  let text ← utf8? body
  (jt.document text).toOption

variable (jt : JsonTexts) (cr : Crypto)

/-- The header must be the code of the message, as text with a scheme before it. -/
def checkSignature (scheme : String) (secret : String) (header : List Char) (message : List UInt8) : Except Nat Unit :=
  match cr.hmac (bytesOf secret) message with
  | none => .error 500
  | some mac => if scheme.toList ++ hexEncode mac ≠ header then .error 401 else .ok ()

def okBody : Json := .ofFields [("ok", .bool true)]

/-! ### GitHub -/

structure GithubConnector where
  token : String
  webhookSecret : String
  port : Nat

namespace GithubConnector

def verifySignature (secret : String) (d : Delivery) : Except Nat Unit :=
  match (d.header "X-Hub-Signature-256").bind Gateway.headerText with
  | none => .error 401
  | some sig => checkSignature cr "sha256=" secret sig d.body

/-- The text of a field, empty if it is no text. -/
def textAt (payload : Json) (outer inner : String) : String := ((payload.field outer).field inner).asStr.getD ""

/-- The event of a payload about an issue or a pull request, which stands under `subject`. -/
def eventAbout (subject : String) (payload : Json) (text eventType id : String) : Event :=
  ⟨id, textAt payload "repository" "full_name" ++ "#" ++
      toString ((asU64 ((payload.field subject).field "number")).getD 0),
    textAt payload "sender" "login", text, [("event_type", eventType)]⟩

def eventOf (eventType : String) (payload : Json) (id : String) : Option Event :=
  if eventType = "issue_comment" ∨ eventType = "issues" then
    some (eventAbout "issue" payload
      ((((payload.field "comment").field "body").asStr.or ((payload.field "issue").field "body").asStr).getD "")
      eventType id)
  else if eventType = "pull_request" then
    some (eventAbout "pull_request" payload (textAt payload "pull_request" "body") "pull_request" id)
  else none

def eventType (d : Delivery) : String :=
  (((d.header "X-GitHub-Event").bind Gateway.headerText).map String.ofList).getD ""

/-- `github_event_handler`: the answer, and the event that is put into the channel before. -/
def eventHandler (secret : String) (d : Delivery) (id : String) : Except Nat (Json × Option Event) :=
  match verifySignature cr secret d with
  | .error status => .error status
  | .ok () =>
    match fromSlice jt d.body with
    | none => .error 400
    | some payload => .ok (okBody, eventOf (eventType d) payload id)

def parseConversationId (id : String) : Except ConnectorError (String × String) :=
  match rsplitOnce '#' id.toList with
  | some (repo, number) => .ok (String.ofList repo, String.ofList number)
  | none => .error (.platform ("invalid conversation_id '" ++ id ++ "': expected 'owner/repo#number'"))

def commentsUrl (repo number : String) : String :=
  "https://api.github.com/repos/" ++ repo ++ "/issues/" ++ number ++ "/comments"

def send (c : GithubConnector) (event : Event) : Except ConnectorError Outgoing :=
  match parseConversationId event.conversationId with
  | .error e => .error e
  | .ok (repo, number) => .ok (.post (commentsUrl repo number) c.token (some "agentverse-integration")
      (.ofFields [("body", .string event.text)]))

end GithubConnector

/-! ### Slack -/

structure SlackConnector where
  botToken : String
  signingSecret : String
  port : Nat

namespace SlackConnector

/-- What Slack signs. -/
def basestring (timestamp : List Char) (body : List UInt8) : String :=
  "v0:" ++ String.ofList timestamp ++ ":" ++ fromUtf8Lossy body

def verifySignature (secret : String) (d : Delivery) : Except Nat Unit :=
  match (d.header "X-Slack-Request-Timestamp").bind Gateway.headerText with
  | none => .error 401
  | some timestamp =>
    match (d.header "X-Slack-Signature").bind Gateway.headerText with
    | none => .error 401
    | some sig => checkSignature cr "v0=" secret sig (bytesOf (basestring timestamp d.body))

/-- The event of a message that is no bot's. -/
def eventOf (payload : Json) (id : String) : Option Event := do
  let event ← payload.get? "event"
  if event.field "type" = .string "message" ∧ (event.get? "bot_id").isNone then
    some ⟨id, (event.field "channel").asStr.getD "", (event.field "user").asStr.getD "",
      (event.field "text").asStr.getD "", []⟩
  else none

/-- `slack_event_handler`. -/
def eventHandler (secret : String) (d : Delivery) (id : String) : Except Nat (Json × Option Event) :=
  match verifySignature cr secret d with
  | .error status => .error status
  | .ok () =>
    match fromSlice jt d.body with
    | none => .error 400
    | some payload =>
      if payload.field "type" = .string "url_verification" then
        .ok (.ofFields [("challenge", payload.field "challenge")], none)
      else .ok (okBody, eventOf payload id)

def send (c : SlackConnector) (event : Event) : Except ConnectorError Outgoing :=
  .ok (.post "https://slack.com/api/chat.postMessage" c.botToken none
    (.ofFields [("channel", .string event.conversationId), ("text", .string event.text)]))

end SlackConnector

/-! ### Trait objects -/

/-- What `start` does: nothing, as it is by default, or it lets a listener answer on a port. -/
inductive Start where
  | nothing
  | listen (port : Nat) (handler : Delivery → String → Except Nat (Json × Option Event))

/-- Where `receive` looks for events: in the channel of the listener, on the standard input, or nowhere. The channel is
never closed, since the connector itself holds a sender. -/
inductive Source where
  | channel
  | stdin
  | never (e : ConnectorError)

/-- A connector in both of its roles. -/
structure Connector where
  name : String
  start : Start
  receive : Source
  send : Event → Except ConnectorError Outgoing

def GithubConnector.connector (c : GithubConnector) : Connector :=
  ⟨"github", .listen c.port (eventHandler jt cr c.webhookSecret), .channel, c.send⟩

def SlackConnector.connector (c : SlackConnector) : Connector :=
  ⟨"slack", .listen c.port (eventHandler jt cr c.signingSecret), .channel, c.send⟩

def whatsAppError : ConnectorError := .connection "WhatsAppConnector is not yet implemented"

def whatsAppConnector : Connector := ⟨"whatsapp", .nothing, .never whatsAppError, fun _ => .error whatsAppError⟩

def consoleConnector : Connector := ⟨"console", .nothing, .stdin, fun event => .ok (.print (event.text ++ "\n"))⟩

/-- The event of a line that was read; a blank one is taken for the end of the input. -/
def consoleEvent (line id : String) : Except ConnectorError Event :=
  let text := trim line.toList
  if text.isEmpty then .error .eof else .ok ⟨id, "console", "user", String.ofList text, []⟩

/-- A connector behind an `Arc`: the name, `receive` and `send` are those of the connector, and `start` is that of the
trait. -/
def Connector.arc (c : Connector) : Connector := { c with start := .nothing }

end AgentVerse.Integration
