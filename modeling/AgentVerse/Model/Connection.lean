import Mathlib.Algebra.Group.Nat.Defs
import AgentVerse.Core.Types
import AgentVerse.Effects.Pool

/-!
# Connection manager

The client side of a model call: the circuit breaker, and `ConnectionManager::generate` with its retry loop and its
fallbacks. The provider is a parameter, since the manager only passes its bodies on; what the network does is the
environment's choice. Metrics and log lines are left out.
-/

namespace AgentVerse

/-! ### Circuit breaker -/

inductive CircuitState where
  | closed
  | opened
  | halfOpen
  deriving DecidableEq

/-- `CircuitBreaker`, with instants in nanoseconds. -/
structure CircuitBreaker where
  state : CircuitState
  consecutiveFailures : Nat
  threshold : Nat
  lastFailure : Option Nat
  timeoutSecs : Nat
  deriving DecidableEq

namespace CircuitBreaker

def new (threshold timeoutSecs : Nat) : CircuitBreaker := ⟨.closed, 0, threshold, none, timeoutSecs⟩

/-- `last.elapsed() > Duration::from_secs(timeout_secs)` at the instant `now`. An earlier instant has elapsed by
nothing. -/
def timedOut (cb : CircuitBreaker) (now last : Nat) : Bool := cb.timeoutSecs * 1000000000 < now - last

def canExecute (cb : CircuitBreaker) (now : Nat) : Bool × CircuitBreaker :=
  match cb.state with
  | .closed => (true, cb)
  | .opened =>
    match cb.lastFailure with
    | some last => if cb.timedOut now last then (true, { cb with state := .halfOpen }) else (false, cb)
    | none => (false, cb)
  | .halfOpen => (true, cb)

def recordSuccess (cb : CircuitBreaker) : CircuitBreaker :=
  { cb with consecutiveFailures := 0, state := .closed }

def recordFailure (cb : CircuitBreaker) (now : Nat) : CircuitBreaker :=
  { cb with
    consecutiveFailures := cb.consecutiveFailures + 1
    lastFailure := some now
    state := if cb.threshold ≤ cb.consecutiveFailures + 1 then .opened else cb.state }

end CircuitBreaker

/-! ### Providers -/

abbrev Settings := List (String × String)

abbrev HeaderMap := List (String × String)

/-- `HeaderMap::insert`: the value of a name is replaced. -/
def HeaderMap.insert (headers : HeaderMap) (name value : String) : HeaderMap :=
  (headers.filter fun x => x.1 ≠ name) ++ [(name, value)]

/-- The pure translator between requests and one provider's wire format. -/
structure ModelProvider where
  name : String
  buildRequest : String → GenerateRequest → Except ModelError Json
  parseResponse : String → Except ModelError GenerateResponse
  requestHeaders : String → HeaderMap
  endpointPath : String → String

structure ResolvedProvider where
  provider : ModelProvider
  apiBase : String
  apiKey : String
  modelName : String

abbrev ProviderFactory := Settings → Except ModelError ResolvedProvider

/-- `ProviderRegistry`: a table of factories by name. -/
structure ProviderRegistry where
  factories : List (String × ProviderFactory)

def ProviderRegistry.build (registry : ProviderRegistry) (name : String) (settings : Settings) :
    Except ModelError ResolvedProvider :=
  match registry.factories.lookup name with
  | some factory => factory settings
  | none => .error (.unknownProvider name)

/-! ### The network -/

namespace Http

/-- Which `Arc<Mutex<CircuitBreaker>>` a manager holds. -/
abbrev BreakerId := Nat

structure Post where
  url : String
  headers : HeaderMap
  body : Json
  deriving DecidableEq

/-- `StatusCode`, by its number and what it displays as. -/
structure StatusCode where
  code : Nat
  display : String
  deriving DecidableEq

def StatusCode.isSuccess (s : StatusCode) : Bool := 200 ≤ s.code && s.code < 300

/-- A response whose body has not been read. `retryAfter` is its `Retry-After` header, where that is text. -/
structure Response where
  status : StatusCode
  retryAfter : Option String
  deriving DecidableEq

/-- What a call asks for. `depth` counts the managers before the one that asks, in its chain of fallbacks. -/
inductive Request where
  /-- Lock the breaker and call `can_execute`. -/
  | canExecute (depth : Nat) (breaker : BreakerId)
  /-- One HTTP attempt: `post(url)…send()`. -/
  | send (depth : Nat) (post : Post)
  /-- `resp.text()`. -/
  | readBody (depth : Nat)
  | recordSuccess (breaker : BreakerId)
  | recordFailure (breaker : BreakerId)
  | sleep (millis : Nat)
  deriving DecidableEq

abbrev Reply : Request → Type
  | .canExecute .. => Bool
  | .send .. => Except String Response
  | .readBody _ => Except String String
  | .recordSuccess _ => Unit
  | .recordFailure _ => Unit
  | .sleep _ => Unit

abbrev Event := Effects.Step Reply

/-- A program of the client. -/
abbrev M (α : Type) := Effects.Prog Request Reply ModelError α

def request (q : Request) : M (Reply q) := Effects.Prog.perform q

structure World where
  breakers : BreakerId → CircuitBreaker
  /-- Requests served so far. -/
  steps : Nat

/-- The choices of the network, and the reading of the clock, for the `n`-th request. -/
structure Env where
  clock : Nat → Nat
  send : Nat → Post → Except String Response
  readBody : Nat → Except String String

/-- The world with one breaker replaced. -/
def World.setBreaker (w : World) (b : BreakerId) (cb : CircuitBreaker) : World :=
  { w with breakers := Function.update w.breakers b cb }

@[simp] theorem World.setBreaker_breakers (w : World) (b : BreakerId) (cb : CircuitBreaker) :
    (w.setBreaker b cb).breakers = Function.update w.breakers b cb := rfl

/-- What the world answers at the instant `now`. -/
def answer (env : Env) (now : Nat) (w : World) : (q : Request) → Reply q × World
  | .canExecute _ b => (((w.breakers b).canExecute now).1, w.setBreaker b ((w.breakers b).canExecute now).2)
  | .send _ post => (env.send w.steps post, w)
  | .readBody _ => (env.readBody w.steps, w)
  | .recordSuccess b => ((), w.setBreaker b (w.breakers b).recordSuccess)
  | .recordFailure b => ((), w.setBreaker b ((w.breakers b).recordFailure now))
  | .sleep _ => ((), w)

/-- The world as the environment of the client's programs. -/
def handle (env : Env) : Effects.Handler Reply World := fun q w =>
  let r := answer env (env.clock w.steps) w q
  (r.1, { r.2 with steps := w.steps + 1 })

end Http

/-! ### Connection manager -/

/-- The fields of a `ConnectionManager` other than its fallback. -/
structure Connection where
  apiBase : String
  apiKey : String
  modelName : String
  provider : ModelProvider
  settings : Settings
  circuitBreaker : Http.BreakerId
  maxRetries : Nat
  retryDelayMs : Nat

/-- `ConnectionManager`. -/
inductive ConnectionManager where
  | mk (conn : Connection) (fallback : Option ConnectionManager)

/-- `u64::saturating_mul`. -/
def saturatingMul (a b : Nat) : Nat := min (a * b) (2 ^ 64 - 1)

/-- `s.trim().parse::<u64>().ok()`. -/
def parseU64 (s : String) : Option Nat :=
  let trimmed := ((s.toList.dropWhile Char.isWhitespace).reverse.dropWhile Char.isWhitespace).reverse
  let digits := if trimmed.head? = some '+' then trimmed.tail else trimmed
  if digits ≠ [] ∧ digits.all Char.isDigit then
    let n := digits.foldl (fun n d => 10 * n + (d.toNat - '0'.toNat)) 0
    if n < 2 ^ 64 then some n else none
  else none

/-- `clamp_retry_after_ms`. -/
def clampRetryAfterMs (ms : Nat) : Nat := min ms 60000

/-- The delay that the server asks for. -/
def Http.Response.retryAfterMs (resp : Http.Response) : Option Nat :=
  ((resp.retryAfter.bind parseU64).map fun secs => saturatingMul secs 1000).map clampRetryAfterMs

namespace Connection

variable (c : Connection)

def backoffMs (attempt : Nat) : Nat := saturatingMul c.retryDelayMs (2 ^ min (attempt % 2 ^ 32) 10)

def rateLimitBackoffMs (attempt : Nat) : Nat := saturatingMul (c.backoffMs attempt) 4

/-- Steps 4 and 5 of `generate`: the URL and the headers around a built body. -/
def post (body : Json) : Http.Post where
  url :=
    let path := c.provider.endpointPath c.modelName
    if c.provider.name = "gemini" then c.apiBase ++ path ++ "?key=" ++ c.apiKey else c.apiBase ++ path
  headers := (c.provider.requestHeaders c.apiKey).insert "content-type" "application/json"
  body := body

/-- Pause before the next attempt, if there is one. -/
def pause (attempt delayMs : Nat) : Http.M Unit :=
  if attempt < c.maxRetries then Http.request (.sleep delayMs) else .ret ()

/-- The retry loop, with `remaining` attempts to come, of which the next one is number `attempt`. `fallback` is the
call of the configured fallback. -/
def retryLoop (depth : Nat) (fallback : Option (Http.M GenerateResponse)) (post : Http.Post) (attempt : Nat) :
    (remaining : Nat) → (lastError : Option ModelError) → Http.M GenerateResponse
  | 0, lastError => fallback.getD (.fail (lastError.getD (.apiError "No response")))
  | remaining + 1, _ => do
    match ← Http.request (.send depth post) with
    | .error e =>
      Http.request (.recordFailure c.circuitBreaker)
      c.pause attempt (c.backoffMs attempt)
      retryLoop depth fallback post (attempt + 1) remaining (some (.apiError e))
    | .ok resp =>
      match ← Http.request (.readBody depth) with
      | .error e => .fail (.apiError e)
      | .ok bodyText =>
        if resp.status.code = 429 then
          Http.request (.recordFailure c.circuitBreaker)
          c.pause attempt (resp.retryAfterMs.getD (c.rateLimitBackoffMs attempt))
          retryLoop depth fallback post (attempt + 1) remaining (some (.rateLimited bodyText))
        else if resp.status.isSuccess then
          match c.provider.parseResponse bodyText with
          | .ok response =>
            Http.request (.recordSuccess c.circuitBreaker)
            return response
          | .error e =>
            Http.request (.recordFailure c.circuitBreaker)
            .fail e
        else
          Http.request (.recordFailure c.circuitBreaker)
          fallback.getD (.fail (.apiError ("HTTP " ++ resp.status.display ++ ": " ++ bodyText)))

/-- `generate`, given the call of the configured fallback. Behind an open breaker the source keeps the lock on it until
the fallback has returned, and waits forever for a fallback with the same breaker; here the lock is released first, so
that there are more interleavings, and such a call goes on. -/
def generate (depth : Nat) (fallback : Option (Http.M GenerateResponse)) (req : GenerateRequest) :
    Http.M GenerateResponse := do
  if ← Http.request (.canExecute depth c.circuitBreaker) then
    let body ← Effects.Prog.lift (c.provider.buildRequest c.modelName req)
    c.retryLoop depth fallback (c.post body) 0 (c.maxRetries + 1) none
  else
    fallback.getD (.fail (.circuitOpen "Circuit breaker is open"))

end Connection

namespace ConnectionManager

def conn : ConnectionManager → Connection
  | mk conn _ => conn

/-- The managers of a chain of fallbacks, the first one first. -/
def chain : ConnectionManager → List Connection
  | mk conn none => [conn]
  | mk conn (some fallback) => conn :: fallback.chain

/-- `generate` of a manager that has `depth` managers before it. -/
def generate (depth : Nat) : ConnectionManager → GenerateRequest → Http.M GenerateResponse
  | mk conn none, req => conn.generate depth none req
  | mk conn (some fallback), req => conn.generate depth (some (fallback.generate (depth + 1) req)) req

/-- `with_model`: another model behind the same endpoint and key, with the same breaker and no fallback. -/
def withModel (cm : ConnectionManager) (modelName : String) (registry : ProviderRegistry) :
    Except ModelError ConnectionManager :=
  match registry.build cm.conn.provider.name cm.conn.settings with
  | .ok resolved => .ok (mk { cm.conn with modelName := modelName, provider := resolved.provider } none)
  | .error e => .error e

end ConnectionManager

/-! ### A plain manager -/

/-- A provider that sends every request as `null` and reads every body as an empty answer. -/
def plainProvider : ModelProvider where
  name := "plain"
  buildRequest _ _ := .ok .null
  parseResponse _ := .ok ⟨[], .zero⟩
  requestHeaders _ := []
  endpointPath _ := "/generate"

def plainConnection : Connection where
  apiBase := "http://localhost"
  apiKey := "key"
  modelName := "model"
  provider := plainProvider
  settings := []
  circuitBreaker := 0
  maxRetries := 3
  retryDelayMs := 500

end AgentVerse
