import AgentVerse.Core.Text
import AgentVerse.Http.Aether

/-!
# The gateway

The routes of the server behind its key and its limiter. A request without the key is turned away before anything else,
and the limiter is asked by three routes, for the user that the request names. A request that comes through is answered
by its handler, which turns nobody away (`receives_respond`).
-/

namespace AgentVerse

open Effects SessionRoutes

/-! ### Bodies -/

/-- A variant with its content. -/
def taggedValue (tag : String) (content : Json) : Json := .object (Json.record [(tag, some content)])

def InterruptKind.value : InterruptKind → Json
  | .toolApproval toolName args => taggedValue "ToolApproval"
    (.object (Json.record [("tool_name", some (.string toolName)), ("args", some args)]))
  | .phaseGate fromSkill toSkill deliverable => taggedValue "PhaseGate"
    (.object (Json.record [("from_skill", some (.string fromSkill)), ("to_skill", some (.string toSkill)),
      ("deliverable", some (.string deliverable))]))
  | .skillCheckpoint checkpointName payload => taggedValue "SkillCheckpoint"
    (.object (Json.record [("checkpoint_name", some (.string checkpointName)), ("payload", some payload)]))

def AgentOutput.value (uu : UuidTexts) : AgentOutput → Json
  | .done text => taggedValue "Done" (.string text)
  | .interrupted approvalId kind => taggedValue "Interrupted"
    (.object (Json.record [("approval_id", some (.string (uu.print approvalId))), ("kind", some kind.value)]))

def SessionStatus.display : SessionStatus → String
  | .active => "active"
  | .interrupted => "interrupted"
  | .completed => "completed"

namespace Gateway

/-! ### The key -/

/-- The characters of a header that can be read as text. -/
def visible (c : Char) : Bool := (32 ≤ c.toNat && c.toNat ≤ 126) || c = '\t'

/-- `HeaderValue::to_str`. -/
def headerText (value : List UInt8) : Option (List Char) :=
  let text := value.map fun b => Char.ofNat b.toNat
  if text.all visible then some text else none

/-- The token of an `Authorization` header. -/
def bearer (value : List UInt8) : Option (List Char) := do
  let text ← headerText value
  if "Bearer ".toList.isPrefixOf text then some (trim (text.drop "Bearer ".toList.length)) else none

/-- The key that is asked for; `var` is the variable `API_KEY`. -/
def getApiKey (var : Option String) : Option String := var.filter fun k => !(trim k.toList).isEmpty

def apiKeyConfigured (var : Option String) : Bool := (var.map fun v => !(trim v.toList).isEmpty).getD false

/-- What `auth_middleware` lets pass. -/
def admits (key : Option String) (authorization : Option (List UInt8)) : Bool :=
  match key with
  | some key => authorization.bind bearer = some key.toList
  | none => true

/-- `is_loopback_host`. `loopback` says of a text that is an address whether it is a loopback one. -/
def isLoopbackHost (loopback : String → Option Bool) (host : String) : Bool :=
  host.toList.map Char.toLower = "localhost".toList || (loopback host).getD false

def validateBindSecurity (loopback : String → Option Bool) (host : String) (apiKeySet allowInsecure : Bool) :
    Except String Unit :=
  if apiKeySet || allowInsecure || isLoopbackHost loopback host then .ok ()
  else .error ("refusing to serve HTTP on non-loopback address '" ++ host ++ "' without authentication. " ++
    "Set a non-empty API_KEY to require bearer-token auth on all routes, or set ALLOW_INSECURE=true " ++
    "to accept an unauthenticated server (local development only).")

/-! ### Routes -/

/-- An answer of the framework itself: of a failed extractor, for an unknown path, to a preflight. -/
structure OwnAnswer where
  response : Response
  status : response.status ≠ 401 ∧ response.status ≠ 429

/-- A request by its route, once the extractors are through with it. -/
inductive Route where
  | health
  | ready
  | invoke (userId message : String)
  | aetherInvoke (envelope : Envelope)
  | aetherResume (req : ResumeRequest)
  | createSession (userId : String)
  | sendMessage (sid : SessionId) (userId message : String)
  | listMessages (sid : SessionId) (query : ListMessagesQuery)
  | getSession (sid : SessionId) (userId : String)
  | endSession (sid : SessionId) (userId : String)
  | framework (answer : OwnAnswer)

/-- The user for whom a route asks the limiter. -/
def Route.limited? : Route → Option String
  | invoke userId _ | sendMessage _ userId _ => some userId
  | listMessages _ query => some query.userId
  | _ => none

variable (agent : Agent) (uu : UuidTexts)

def emptyMessage : Response := ⟨400, errorBody "message must not be empty"⟩

def invoke (userId message : String) : M Empty Response :=
  if (trim message.toList).isEmpty then .ret emptyMessage
  else do
    match ← (agent.invokeStateless message).attempt with
    | .ok reply =>
      return ⟨200, .object (Json.record [("message", some (.string reply)), ("user_id", some (.string userId))])⟩
    | .error e => return ⟨500, errorBody (e.display uu.print)⟩

def createSession (userId : String) : M Empty Response :=
  if (trim userId.toList).isEmpty then .ret ⟨400, errorBody "user_id must not be empty"⟩
  else do
    match ← (Agent.createSession userId).attempt with
    | .ok sid => return ⟨201, .object (Json.record [("session_id", some (.string (uu.print sid)))])⟩
    | .error e => return ⟨500, errorBody (e.display uu.print)⟩

def sendMessage (sid : SessionId) (userId message : String) : M Empty Response :=
  if (trim message.toList).isEmpty then .ret emptyMessage
  else do
    match ← (agent.invoke userId sid message).attempt with
    | .ok reply =>
      return ⟨200, .object (Json.record [("session_id", some (.string (uu.print sid))), ("reply", some (reply.value uu))])⟩
    | .error e => return ⟨statusForAgentError e, errorBody (e.display uu.print)⟩

def getSession (sid : SessionId) (userId : String) : M Empty Response := do
  match ← (Agent.getSession userId sid).attempt with
  | .ok (some session) =>
    return ⟨200, .object (Json.record [("session_id", some (.string (uu.print session.id))),
      ("user_id", some (.string session.userId)), ("status", some (.string session.status.display))])⟩
  | .ok none => return ⟨404, errorBody "session not found"⟩
  | .error e => return ⟨statusForAgentError e, errorBody (e.display uu.print)⟩

def endSession (sid : SessionId) (userId : String) : M Empty Response := do
  match ← (Agent.endSession userId sid).attempt with
  | .ok () => return ⟨204, .object (Json.record [])⟩
  | .error e => return ⟨statusForAgentError e, errorBody (e.display uu.print)⟩

/-- What a route does once the limiter, where it is asked, has let the request pass. -/
def respond : Route → M Empty Response
  | .health => .ret ⟨200, .object (Json.record [("status", some (.string "healthy"))])⟩
  | .ready => .ret ⟨200, .object (Json.record [("status", some (.string "ready"))])⟩
  | .invoke userId message => invoke agent uu userId message
  | .aetherInvoke envelope => Aether.aetherInvoke agent uu envelope
  | .aetherResume req => Aether.aetherResume agent uu req
  | .createSession userId => createSession uu userId
  | .sendMessage sid userId message => sendMessage agent uu sid userId message
  | .listMessages sid query => respondMessages uu.print sid query
  | .getSession sid userId => getSession uu sid userId
  | .endSession sid userId => endSession uu sid userId
  | .framework answer => .ret answer.response

/-- The handler of a route, with the limiter that it leaves. -/
def handler (limiter : RateLimiter) (now : Nat) (route : Route) : M Empty Response × RateLimiter :=
  match route.limited? with
  | none => (respond agent uu route, limiter)
  | some userId =>
    match limiter.check userId now with
    | (.error e, limiter) => (.ret ⟨429, errorBody e.display⟩, limiter)
    | (.ok (), limiter) => (respond agent uu route, limiter)

theorem handler_listMessages (limiter : RateLimiter) (now : Nat) (sid : SessionId) (query : ListMessagesQuery) :
    handler agent uu limiter now (.listMessages sid query) = listMessages uu.print limiter now sid query := rfl

/-! ### The server -/

/-- A request that reaches the server, with the instant at which the limiter would see it. -/
structure Arrival where
  authorization : Option (List UInt8)
  route : Route
  now : Nat

structure State where
  world : World
  limiter : RateLimiter

/-- The result of a program that cannot fail. -/
def outcome {α : Type} : Except Empty α → α
  | .ok a => a

/-- One request after the other. -/
def server (env : Env) (key : Option String) : Machine Arrival Response State where
  step s a :=
    if admits key a.authorization then
      let (p, limiter) := handler agent uu s.limiter a.now a.route
      let (r, c) := p.run (handle env) ⟨s.world, []⟩
      (outcome r, ⟨c.state, limiter⟩)
    else (⟨401, .null⟩, s)

/-! ### Answers that turn away -/

def turnedAway (r : Response) : Bool := r.status = 401 || r.status = 429

variable {agent uu} {env : Env} {key : Option String} {s t : State} {a : Arrival} {u : String}

theorem turnedAway_statusForAgentError (e : AgentError) (body : Json) :
    turnedAway ⟨statusForAgentError e, body⟩ = false := by
  cases e with
  | session e => cases e <;> rfl
  | _ => rfl

/-- The program turns nobody away. -/
def Receives (p : M Empty Response) : Prop :=
  p.Meets (fun _ _ => True) (fun _ => True) fun r => turnedAway (outcome r) = false

theorem Receives.bind {α : Type} (p : M Empty α) {f : α → M Empty Response} (hf : ∀ a, Receives (f a)) :
    Receives (p >>= f) :=
  Prog.Meets.bind (Prog.only_true p) (fun a _ => hf a) nofun

theorem receives_error (e : AgentError) :
    Receives (.ret ⟨statusForAgentError e, errorBody (e.display uu.print)⟩) := turnedAway_statusForAgentError e _

theorem receives_invoke (userId message : String) : Receives (invoke agent uu userId message) := by
  unfold invoke
  split
  · rfl
  · refine .bind _ fun r => ?_
    cases r with
    | ok reply => rfl
    | error e => rfl

theorem receives_createSession (userId : String) : Receives (createSession uu userId) := by
  unfold createSession
  split
  · rfl
  · refine .bind _ fun r => ?_
    cases r with
    | ok sid => rfl
    | error e => rfl

theorem receives_sendMessage (sid : SessionId) (userId message : String) :
    Receives (sendMessage agent uu sid userId message) := by
  unfold sendMessage
  split
  · rfl
  · refine .bind _ fun r => ?_
    cases r with
    | ok reply => rfl
    | error e => exact receives_error e

theorem receives_finish {owner : String} {sid : SessionId} {id : Uuid} {metadata : StringMap} (out : AgentOutput) :
    Receives (Aether.finish agent uu owner sid id metadata out >>= fun resp => .ret ⟨200, resp.value uu⟩) :=
  .bind _ fun _ => rfl

theorem receives_aetherInvoke (envelope : Envelope) : Receives (Aether.aetherInvoke agent uu envelope) := by
  unfold Aether.aetherInvoke
  split
  · rfl
  · refine .bind _ fun r => ?_
    cases r with
    | error e => rfl
    | ok sid =>
      refine .bind _ fun r => ?_
      cases r with
      | ok out => exact receives_finish out
      | error e => exact .bind _ fun _ => rfl

theorem receives_aetherResume (req : ResumeRequest) : Receives (Aether.aetherResume agent uu req) := by
  unfold Aether.aetherResume
  split
  · rfl
  · split
    · rfl
    · refine .bind _ fun r => ?_
      cases r with
      | error e => rfl
      | ok owner =>
        cases owner with
        | none => rfl
        | some owner =>
          refine .bind _ fun r => ?_
          cases r with
          | error e => exact receives_error e
          | ok out => exact .bind _ fun _ => receives_finish out

theorem receives_respond (route : Route) : Receives (respond agent uu route) := by
  cases route with
  | health | ready => rfl
  | framework answer => simp [Receives, respond, outcome, turnedAway, answer.status]
  | invoke userId message => exact receives_invoke userId message
  | aetherInvoke envelope => exact receives_aetherInvoke envelope
  | aetherResume req => exact receives_aetherResume req
  | createSession userId => exact receives_createSession userId
  | sendMessage sid userId message => exact receives_sendMessage sid userId message
  | listMessages sid query =>
    refine .bind _ fun r => ?_
    cases r with
    | ok all => rfl
    | error e => exact receives_error e
  | getSession sid userId =>
    refine .bind _ fun r => ?_
    cases r with
    | error e => exact receives_error e
    | ok session =>
      cases session with
      | some session => rfl
      | none => rfl
  | endSession sid userId =>
    refine .bind _ fun r => ?_
    cases r with
    | ok _ => rfl
    | error e => exact receives_error e

/-! ### One request -/

/-- The user for whom the limiter is asked. -/
def asks (key : Option String) (a : Arrival) : Option String :=
  if admits key a.authorization then a.route.limited? else none

/-- The request comes through to its handler. -/
def comesThrough (key : Option String) (limiter : RateLimiter) (a : Arrival) : Bool :=
  admits key a.authorization && (a.route.limited?.all fun u => (limiter.check u a.now).1.isOk)

/-- The limiter after a request. -/
def limiterAfter (key : Option String) (limiter : RateLimiter) (a : Arrival) : RateLimiter :=
  match asks key a with
  | some u => (limiter.check u a.now).2
  | none => limiter

/-- The limiter apart, a request runs its handler. -/
theorem step_eq (s : State) (a : Arrival) :
    let end_ := (handler agent uu s.limiter a.now a.route).1.run (handle env) ⟨s.world, []⟩
    ((server agent uu env key).step s a).1 = (if admits key a.authorization then outcome end_.1 else ⟨401, .null⟩) ∧
      ((server agent uu env key).step s a).2.world = (if admits key a.authorization then end_.2.state else s.world) := by
  unfold server
  by_cases hkey : admits key a.authorization = true
  · simp [hkey]
  · simp [hkey]

theorem step_limiter (s : State) (a : Arrival) :
    ((server agent uu env key).step s a).2.limiter = limiterAfter key s.limiter a := by
  unfold server limiterAfter asks
  by_cases hkey : admits key a.authorization = true
  · simp only [hkey, if_true, handler]
    cases a.route.limited? with
    | none => rfl
    | some u =>
      dsimp only
      rcases s.limiter.check u a.now with ⟨r, limiter⟩
      cases r <;> rfl
  · simp [hkey]

/-- A request that comes through is answered by its handler. -/
theorem step_through (h : comesThrough key s.limiter a = true) :
    let end_ := (respond agent uu a.route).run (handle env) ⟨s.world, []⟩
    ((server agent uu env key).step s a).1 = outcome end_.1 ∧
      ((server agent uu env key).step s a).2.world = end_.2.state := by
  obtain ⟨hkey, hlimit⟩ := Bool.and_eq_true_iff.mp h
  simp only [server, hkey, if_true, handler]
  cases hu : a.route.limited? with
  | none => exact ⟨rfl, rfl⟩
  | some u =>
    rw [hu, Option.all_some] at hlimit
    dsimp only
    rcases hcheck : s.limiter.check u a.now with ⟨r, limiter⟩
    rw [hcheck] at hlimit
    cases r with
    | error e => cases hlimit
    | ok _ => exact ⟨rfl, rfl⟩

/-- Another one is turned away, and the agent does not hear of it. -/
theorem step_away (h : comesThrough key s.limiter a = false) :
    ((server agent uu env key).step s a).1.status = (if admits key a.authorization then 429 else 401) ∧
      ((server agent uu env key).step s a).2.world = s.world := by
  by_cases hkey : admits key a.authorization = true
  · simp only [comesThrough, hkey, Bool.true_and] at h
    simp only [server, hkey, if_true, handler]
    cases hu : a.route.limited? with
    | none => simp [hu] at h
    | some u =>
      rw [hu, Option.all_some] at h
      dsimp only
      rcases hcheck : s.limiter.check u a.now with ⟨r, limiter⟩
      rw [hcheck] at h
      cases r with
      | error e => exact ⟨rfl, rfl⟩
      | ok _ => cases h
  · simp only [server, hkey]
    exact ⟨rfl, rfl⟩

theorem turnedAway_step (s : State) (a : Arrival) :
    turnedAway ((server agent uu env key).step s a).1 = !comesThrough key s.limiter a := by
  cases h : comesThrough key s.limiter a with
  | true =>
    rw [(step_through h).1]
    exact (Prog.Meets.run (handle env) (receives_respond a.route) s.world fun _ _ => trivial).2
  | false =>
    unfold turnedAway
    rw [(step_away h).1]
    split <;> rfl

/-! ### The key and the address -/

theorem isSome_getApiKey (var : Option String) : (getApiKey var).isSome = apiKeyConfigured var := by
  cases var with
  | none => rfl
  | some k => cases h : (trim k.toList).isEmpty <;> simp [getApiKey, apiKeyConfigured, h]

theorem ofNat_toUInt8 {c : Char} (h : visible c = true) : Char.ofNat c.toNat.toUInt8.toNat = c := by
  have hlt : c.toNat < 256 := by
    rcases Bool.or_eq_true_iff.mp h with h | h
    · have := (Bool.and_eq_true_iff.mp h).2
      have : c.toNat ≤ 126 := by simpa using this
      omega
    · obtain rfl : c = '\t' := by simpa using h
      decide
  have hbyte : c.toNat.toUInt8.toNat = c.toNat := by simpa using hlt
  rw [hbyte, Char.ofNat_toNat]

/-- A text of visible characters is read from its bytes. -/
theorem headerText_bytes {text : List Char} (h : text.all visible = true) :
    headerText (text.map fun c => c.toNat.toUInt8) = some text := by
  have hmap : (text.map fun c => c.toNat.toUInt8).map (fun b => Char.ofNat b.toNat) = text := by
    rw [List.map_map]
    exact (List.map_congr_left fun c hc => ofNat_toUInt8 (List.all_eq_true.mp h c hc)).trans (List.map_id _)
  unfold headerText
  rw [hmap]
  simp [h]

/-- A token is trimmed and visible. -/
theorem bearer_some {value : List UInt8} {token : List Char} (h : bearer value = some token) :
    trim token = token ∧ token.all visible = true := by
  obtain ⟨text, htext, h⟩ := Option.bind_eq_some_iff.mp h
  have hvisible : ∀ c ∈ text, visible c = true := by
    unfold headerText at htext
    dsimp only at htext
    split at htext
    · rename_i hall
      cases htext
      exact List.all_eq_true.mp hall
    · cases htext
  split at h
  · cases h
    refine ⟨trim_trim _, List.all_eq_true.mpr fun c hc => hvisible c (List.mem_of_mem_drop (i := 7) ?_)⟩
    obtain ⟨w, w', -, -, hparts⟩ := exists_trim (text.drop "Bearer ".toList.length)
    rw [show "Bearer ".toList.length = 7 from rfl] at hc hparts
    rw [hparts]
    exact List.mem_append_left _ (List.mem_append_right _ hc)
  · cases h

/-- A key that can be presented at all: it is visible and has no whitespace around it. -/
theorem admits_some (k : String) : (∃ header, admits (some k) (some header) = true) ↔
    trim k.toList = k.toList ∧ k.toList.all visible = true := by
  constructor
  · rintro ⟨header, h⟩
    exact bearer_some (by simpa [admits] using h)
  · rintro ⟨htrim, hvisible⟩
    have hall : ("Bearer ".toList ++ k.toList).all visible = true := by
      rw [List.all_append, hvisible]
      decide
    have hbearer : bearer (("Bearer ".toList ++ k.toList).map fun c => c.toNat.toUInt8) = some k.toList := by
      unfold bearer
      rw [headerText_bytes hall]
      dsimp only [Option.bind_eq_bind, Option.bind_some]
      rw [if_pos (List.isPrefixOf_iff_prefix.mpr (List.prefix_append ..)), List.drop_left, htrim]
    exact ⟨_, decide_eq_true hbearer⟩

end Gateway

end AgentVerse
