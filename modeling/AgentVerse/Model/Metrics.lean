import AgentVerse.Effects.Notes
import AgentVerse.Model.Connection

/-!
# Metrics of model calls

`ConnectionManager::generate` with the metrics that it records. Without them it is the call of the connection manager
(`metered_erase`). What is recorded agrees with what happened (`CallLedger`): a retry for each pause, with its reason, a
fallback for each manager that was given up, and at most one record of the call, by the manager that decided it, which has
the tokens of the response. Durations are left out.
-/

namespace AgentVerse

open Effects Prog

inductive RetryReason where
  | rateLimited
  | transport
  deriving DecidableEq

/-- One record of `record_llm_call`. -/
structure CallRecord where
  provider : String
  model : String
  usage : Option UsageStats
  errorType : Option String
  deriving DecidableEq

inductive Metric where
  | circuitOpen (provider : String)
  | llmFallback (provider : String)
  | llmRetry (reason : RetryReason)
  | llmCall (record : CallRecord)
  deriving DecidableEq

/-- A program of the client that records metrics. -/
abbrev Metered (α : Type) : Type := Noted Http.Request Metric Http.Reply ModelError α

def metered (q : Http.Request) : Metered (Http.Reply q) := .ask (.inl q) .ret

namespace Connection

variable (c : Connection)

/-- `record_llm_call` by this manager. -/
def recordCall (usage : Option UsageStats) (errorType : Option String) : Metered Unit :=
  note (.llmCall ⟨c.provider.name, c.modelName, usage, errorType⟩)

/-- The configured fallback, or else `otherwise`. -/
def divert (fallback : Option (Metered GenerateResponse)) (otherwise : Metered GenerateResponse) :
    Metered GenerateResponse :=
  match fallback with
  | some call => do
    note (.llmFallback c.provider.name)
    call
  | none => otherwise

def pauseMetered (attempt delayMs : Nat) (reason : RetryReason) : Metered Unit :=
  if attempt < c.maxRetries then do
    note (.llmRetry reason)
    metered (.sleep delayMs)
  else .ret ()

/-- The error type of a call whose retries are exhausted. -/
def exhaustedType : ModelError → String
  | .rateLimited _ => "rate_limited"
  | _ => "api_error"

def retryLoopMetered (depth : Nat) (fallback : Option (Metered GenerateResponse)) (post : Http.Post) (attempt : Nat) :
    (remaining : Nat) → (lastError : Option ModelError) → Metered GenerateResponse
  | 0, lastError =>
    let primaryErr := lastError.getD (.apiError "No response")
    c.divert fallback do
      c.recordCall none (some (exhaustedType primaryErr))
      .fail primaryErr
  | remaining + 1, _ => do
    match ← metered (.send depth post) with
    | .error e =>
      metered (.recordFailure c.circuitBreaker)
      c.pauseMetered attempt (c.backoffMs attempt) .transport
      retryLoopMetered depth fallback post (attempt + 1) remaining (some (.apiError e))
    | .ok resp =>
      match ← metered (.readBody depth) with
      | .error e =>
        c.recordCall none (some "api_error")
        .fail (.apiError e)
      | .ok bodyText =>
        if resp.status.code = 429 then
          metered (.recordFailure c.circuitBreaker)
          c.pauseMetered attempt (resp.retryAfterMs.getD (c.rateLimitBackoffMs attempt)) .rateLimited
          retryLoopMetered depth fallback post (attempt + 1) remaining (some (.rateLimited bodyText))
        else if resp.status.isSuccess then
          match c.provider.parseResponse bodyText with
          | .ok response =>
            metered (.recordSuccess c.circuitBreaker)
            c.recordCall (some response.usage) none
            return response
          | .error e =>
            metered (.recordFailure c.circuitBreaker)
            c.recordCall none (some "invalid_response")
            .fail e
        else
          metered (.recordFailure c.circuitBreaker)
          c.divert fallback do
            c.recordCall none (some "api_error")
            .fail (.apiError ("HTTP " ++ resp.status.display ++ ": " ++ bodyText))

def generateMetered (depth : Nat) (fallback : Option (Metered GenerateResponse)) (req : GenerateRequest) :
    Metered GenerateResponse := do
  if ← metered (.canExecute depth c.circuitBreaker) then
    let body ← Prog.lift (c.provider.buildRequest c.modelName req)
    c.retryLoopMetered depth fallback (c.post body) 0 (c.maxRetries + 1) none
  else
    note (.circuitOpen c.provider.name)
    c.divert fallback (.fail (.circuitOpen "Circuit breaker is open"))

end Connection

/-- `generate` with its metrics. -/
def ConnectionManager.generateMetered (depth : Nat) : ConnectionManager → GenerateRequest → Metered GenerateResponse
  | mk conn none, req => conn.generateMetered depth none req
  | mk conn (some fallback), req => conn.generateMetered depth (some (fallback.generateMetered (depth + 1) req)) req

/-! ### Without the metrics -/

namespace Connection

variable {c : Connection} {depth : Nat} {fallback : Option (Metered GenerateResponse)}

theorem divert_erase {otherwise : Metered GenerateResponse} {e : ModelError} (h : otherwise.erase = .fail e) :
    (c.divert fallback otherwise).erase = (fallback.map erase).getD (.fail e) := by
  cases fallback with
  | none => exact h
  | some call => rfl

theorem pauseMetered_erase (attempt delayMs : Nat) (reason : RetryReason) (f : Unit → Metered GenerateResponse) :
    (c.pauseMetered attempt delayMs reason >>= f).erase = c.pause attempt delayMs >>= fun u => (f u).erase := by
  unfold pauseMetered pause
  split <;> rfl

theorem retryLoopMetered_erase (post : Http.Post) (attempt remaining : Nat) (lastError : Option ModelError) :
    (c.retryLoopMetered depth fallback post attempt remaining lastError).erase =
      c.retryLoop depth (fallback.map erase) post attempt remaining lastError := by
  induction remaining generalizing attempt lastError with
  | zero => exact divert_erase rfl
  | succ remaining ih =>
    refine congrArg (Prog.ask _) (funext fun sent => ?_)
    cases sent with
    | error e =>
      refine congrArg (Prog.ask _) (funext fun _ => ?_)
      exact (pauseMetered_erase ..).trans (congrArg _ (funext fun _ => ih ..))
    | ok resp =>
      refine congrArg (Prog.ask _) (funext fun bodyText => ?_)
      cases bodyText with
      | error e => rfl
      | ok text =>
        dsimp only
        split
        · refine congrArg (Prog.ask _) (funext fun _ => ?_)
          exact (pauseMetered_erase ..).trans (congrArg _ (funext fun _ => ih ..))
        · split
          · cases hparse : c.provider.parseResponse text with
            | ok response =>
              simp only [Prog.bind, hparse]
              rfl
            | error e =>
              simp only [Prog.bind, hparse]
              rfl
          · exact congrArg (Prog.ask _) (funext fun _ => divert_erase rfl)

theorem generateMetered_erase (req : GenerateRequest) :
    (c.generateMetered depth fallback req).erase = c.generate depth (fallback.map erase) req := by
  refine congrArg (Prog.ask _) (funext fun allowed => ?_)
  cases allowed with
  | false => exact divert_erase rfl
  | true =>
    cases hbody : c.provider.buildRequest c.modelName req with
    | error e => simp [Prog.bind]
    | ok body => simpa [Prog.bind] using retryLoopMetered_erase ..

end Connection

/-- The metrics change nothing else. -/
theorem ConnectionManager.generateMetered_erase (cm : ConnectionManager) (depth : Nat) (req : GenerateRequest) :
    (cm.generateMetered depth req).erase = cm.generate depth req := by
  match cm with
  | mk conn none => exact conn.generateMetered_erase req
  | mk conn (some fallback) =>
    refine (conn.generateMetered_erase req).trans ?_
    rw [Option.map_some, fallback.generateMetered_erase]
    rfl

/-! ### What is recorded -/

namespace Http

/-- The reasons of the pauses of a call. `answered` tells whether its last attempt got a response. -/
def pauseReasons : (answered : Bool) → List Event → List RetryReason
  | _, [] => []
  | _, ⟨.send .., .error _⟩ :: t => pauseReasons false t
  | _, ⟨.send .., .ok _⟩ :: t => pauseReasons true t
  | answered, ⟨.sleep _, _⟩ :: t => (if answered then .rateLimited else .transport) :: pauseReasons answered t
  | answered, ⟨.canExecute .., _⟩ :: t | answered, ⟨.readBody _, _⟩ :: t | answered, ⟨.recordSuccess _, _⟩ :: t
  | answered, ⟨.recordFailure _, _⟩ :: t => pauseReasons answered t

/-- A breaker did not let a call through. -/
def refusesCall : Event → Bool
  | ⟨.canExecute .., allowed⟩ => !allowed
  | _ => false

def consultsBreaker : Event → Bool
  | ⟨.canExecute .., _⟩ => true
  | _ => false

/-- A call ends where its last manager has consulted its breaker. -/
def endsConsulting (t : List Event) : Bool := t.getLast?.any consultsBreaker

theorem endsConsulting_cons {e : Event} (he : consultsBreaker e = false) (t : List Event) :
    endsConsulting (e :: t) = endsConsulting t := by
  cases t with
  | nil => exact he
  | cons e' t => rw [endsConsulting, List.getLast?_cons_cons, endsConsulting]

end Http

namespace Metric

def retry? : Metric → Option RetryReason
  | llmRetry reason => some reason
  | _ => none

def fallback? : Metric → Option String
  | llmFallback provider => some provider
  | _ => none

def call? : Metric → Option CallRecord
  | llmCall record => some record
  | _ => none

def opens : Metric → Bool
  | circuitOpen _ => true
  | _ => false

end Metric

/-- The error type under which an error of a manager is recorded. -/
inductive ErrorType (c : Connection) : String → ModelError → Prop where
  | api (message : String) : ErrorType c "api_error" (.apiError message)
  | rateLimited (body : String) : ErrorType c "rate_limited" (.rateLimited body)
  | invalid {body : String} {e : ModelError} (h : c.provider.parseResponse body = .error e) :
      ErrorType c "invalid_response" e

/-- What the manager that decides a call records of it: nothing if no request was made after its breaker was consulted. -/
inductive DecidedBy (c : Connection) : (consulting : Bool) → Except ModelError GenerateResponse → List CallRecord → Prop where
  | answered (response : GenerateResponse) :
      DecidedBy c false (.ok response) [⟨c.provider.name, c.modelName, some response.usage, none⟩]
  | failed {errorType : String} {e : ModelError} (h : ErrorType c errorType e) :
      DecidedBy c false (.error e) [⟨c.provider.name, c.modelName, none, some errorType⟩]
  | unmade (e : ModelError) : DecidedBy c true (.error e) []

/-- The metrics `ms` of a call of the managers `cs` that asked `t` and ended with `x`. -/
structure CallLedger (answered : Bool) (cs : List Connection) (ms : List Metric) (t : List Http.Event)
    (x : Except ModelError GenerateResponse) : Prop where
  retries : ms.filterMap Metric.retry? = Http.pauseReasons answered t
  refusals : ms.countP Metric.opens = t.countP Http.refusesCall
  decided : ∃ k c, cs[k]? = some c ∧ ms.filterMap Metric.fallback? = (cs.take k).map (·.provider.name) ∧
    DecidedBy c (Http.endsConsulting t) x (ms.filterMap Metric.call?)

namespace CallLedger

variable {a b : Bool} {c : Connection} {cs : List Connection} {ms : List Metric} {t : List Http.Event}
  {x : Except ModelError GenerateResponse}

/-- A request that is no pause, and consults no breaker. -/
theorem quiet (h : CallLedger b cs ms t x) {e : Http.Event} (hreasons : Http.pauseReasons a (e :: t) = Http.pauseReasons b t)
    (hconsults : Http.consultsBreaker e = false) : CallLedger a cs ms (e :: t) x where
  retries := h.retries.trans hreasons.symm
  refusals := by
    have hrefuses : Http.refusesCall e = false := by
      obtain ⟨q, r⟩ := e
      cases q <;> first | rfl | cases hconsults
    rw [List.countP_cons, hrefuses]
    exact h.refusals
  decided := by
    rw [Http.endsConsulting_cons hconsults]
    exact h.decided

/-- A pause, with its reason. -/
theorem paused (h : CallLedger a cs ms t x) (millis : Nat) (u : Unit) :
    CallLedger a cs (.llmRetry (if a then .rateLimited else .transport) :: ms) (⟨.sleep millis, u⟩ :: t) x where
  retries := congrArg (_ :: ·) h.retries
  refusals := h.refusals
  decided := by
    rw [Http.endsConsulting_cons rfl]
    exact h.decided

/-- The next manager is asked. -/
theorem passed (h : CallLedger a cs ms t x) (c : Connection) :
    CallLedger a (c :: cs) (.llmFallback c.provider.name :: ms) t x where
  retries := h.retries
  refusals := h.refusals
  decided := by
    obtain ⟨k, c', hc', hfallbacks, hdecided⟩ := h.decided
    exact ⟨k + 1, c', hc', congrArg (c.provider.name :: ·) hfallbacks, hdecided⟩

/-- A breaker lets a call through, and a request is made. -/
theorem admitted (h : CallLedger a cs ms t x) (ht : t ≠ []) (depth : Nat) (breaker : Http.BreakerId) :
    CallLedger a cs ms (⟨.canExecute depth breaker, true⟩ :: t) x where
  retries := h.retries
  refusals := h.refusals
  decided := by
    have hends : Http.endsConsulting (⟨.canExecute depth breaker, true⟩ :: t) = Http.endsConsulting t := by
      obtain ⟨e, t, rfl⟩ := List.exists_cons_of_ne_nil ht
      rw [Http.endsConsulting, List.getLast?_cons_cons, Http.endsConsulting]
    rw [hends]
    exact h.decided

/-- A breaker lets no call through, and the next manager is asked. -/
theorem diverted (h : CallLedger a cs ms t x) (ht : t ≠ []) (c : Connection) (depth : Nat) :
    CallLedger a (c :: cs) (.circuitOpen c.provider.name :: .llmFallback c.provider.name :: ms)
      (⟨.canExecute depth c.circuitBreaker, false⟩ :: t) x where
  retries := h.retries
  refusals := by
    rw [List.countP_cons, List.countP_cons, List.countP_cons, h.refusals]
    rfl
  decided := by
    have hends : Http.endsConsulting (⟨.canExecute depth c.circuitBreaker, false⟩ :: t) = Http.endsConsulting t := by
      obtain ⟨e, t, rfl⟩ := List.exists_cons_of_ne_nil ht
      rw [Http.endsConsulting, List.getLast?_cons_cons, Http.endsConsulting]
    rw [hends]
    exact (h.passed c).decided

/-- The first manager decides the call, and nothing more is asked. -/
theorem ended {record : CallRecord} (h : DecidedBy c false x [record]) : CallLedger a (c :: cs) [.llmCall record] [] x where
  retries := rfl
  refusals := rfl
  decided := ⟨0, c, rfl, rfl, h⟩

end CallLedger

namespace Connection

variable {a : Bool} {c : Connection} {cs : List Connection} {depth : Nat} {fallback : Option (Metered GenerateResponse)}
  {t : List (Step (NoteReply Http.Reply Metric))} {x : Except ModelError GenerateResponse}
  (hfallback : ∀ call ∈ fallback, ∀ t x, call.Plays t x → ∀ a, CallLedger a cs (notes t) (asks t) x)

include hfallback in
/-- A call that is given up goes to the fallback, or is recorded as failed. -/
theorem divert_ledger {errorType : String} {e : ModelError} (he : ErrorType c errorType e)
    (h : (c.divert fallback (c.recordCall none (some errorType) >>= fun _ => .fail e)).Plays t x) :
    CallLedger a (c :: cs) (notes t) (asks t) x := by
  cases fallback with
  | some call =>
    obtain ⟨_, t, rfl, h⟩ := h
    exact (hfallback call rfl t x h a).passed c
  | none =>
    obtain ⟨_, t, rfl, rfl, rfl⟩ := h
    exact .ended (.failed he)

/-- A pause is recorded with its reason. -/
theorem pauseMetered_ledger {attempt delayMs : Nat} {f : Unit → Metered GenerateResponse}
    (h : (c.pauseMetered attempt delayMs (if a then .rateLimited else .transport) >>= f).Plays t x)
    (hrest : ∀ t, (f ()).Plays t x → CallLedger a (c :: cs) (notes t) (asks t) x) :
    CallLedger a (c :: cs) (notes t) (asks t) x := by
  unfold pauseMetered at h
  split at h
  · obtain ⟨_, _, rfl, _, t, rfl, h⟩ := h
    exact (hrest t h).paused delayMs ()
  · exact hrest t h

theorem exhausted_errorType {lastError : Option ModelError}
    (hlast : ∀ e ∈ lastError, (∃ m, e = .apiError m) ∨ ∃ body, e = .rateLimited body) :
    ErrorType c (exhaustedType (lastError.getD (.apiError "No response"))) (lastError.getD (.apiError "No response")) := by
  cases lastError with
  | none => exact .api _
  | some e =>
    rcases hlast e rfl with ⟨m, rfl⟩ | ⟨body, rfl⟩
    · exact .api m
    · exact .rateLimited body

include hfallback in
theorem retryLoopMetered_ledger {post : Http.Post} {attempt remaining : Nat} {lastError : Option ModelError}
    (hlast : ∀ e ∈ lastError, (∃ m, e = .apiError m) ∨ ∃ body, e = .rateLimited body)
    (h : (c.retryLoopMetered depth fallback post attempt remaining lastError).Plays t x) :
    CallLedger a (c :: cs) (notes t) (asks t) x := by
  induction remaining generalizing attempt lastError t a with
  | zero => exact divert_ledger hfallback (exhausted_errorType hlast) h
  | succ remaining ih =>
    obtain ⟨sent, t, rfl, h⟩ := h
    cases sent with
    | error e =>
      obtain ⟨_, t, rfl, h⟩ := h
      have hrest : CallLedger false (c :: cs) (notes t) (asks t) x :=
        pauseMetered_ledger (a := false) h fun t h => ih (fun e' he' => by cases he'; exact .inl ⟨e, rfl⟩) h
      exact (hrest.quiet rfl rfl).quiet rfl rfl
    | ok resp =>
      obtain ⟨bodyText, t, rfl, h⟩ := h
      -- The attempt got a response; what follows is told by its body.
      have hsent : CallLedger true (c :: cs) (notes t) (asks t) x → CallLedger a (c :: cs) (notes t)
          (⟨.send depth post, .ok resp⟩ :: ⟨.readBody depth, bodyText⟩ :: asks t) x :=
        fun h => (h.quiet rfl rfl).quiet rfl rfl
      refine hsent ?_
      cases bodyText with
      | error e =>
        obtain ⟨_, t, rfl, rfl, rfl⟩ := h
        exact .ended (.failed (.api e))
      | ok text =>
        simp only at h
        split at h
        · obtain ⟨_, t, rfl, h⟩ := h
          have hrest : CallLedger true (c :: cs) (notes t) (asks t) x :=
            pauseMetered_ledger (a := true) h fun t h => ih (fun e' he' => by cases he'; exact .inr ⟨text, rfl⟩) h
          exact hrest.quiet rfl rfl
        · split at h
          · cases hparse : c.provider.parseResponse text with
            | ok response =>
              simp only [Prog.bind, hparse] at h
              obtain ⟨_, _, rfl, _, t, rfl, rfl, rfl⟩ := h
              exact (CallLedger.ended (a := true) (.answered response)).quiet rfl rfl
            | error e =>
              simp only [Prog.bind, hparse] at h
              obtain ⟨_, _, rfl, _, t, rfl, rfl, rfl⟩ := h
              exact (CallLedger.ended (a := true) (.failed (.invalid hparse))).quiet rfl rfl
          · obtain ⟨_, t, rfl, h⟩ := h
            exact (divert_ledger (a := true) hfallback (.api _) h).quiet rfl rfl

theorem retryLoopMetered_asks {post : Http.Post} {attempt remaining : Nat} {lastError : Option ModelError}
    (h : (c.retryLoopMetered depth fallback post attempt (remaining + 1) lastError).Plays t x) : asks t ≠ [] := by
  obtain ⟨sent, t, rfl, -⟩ := h
  exact List.cons_ne_nil _ _

include hfallback in
theorem generateMetered_ledger (hasks : ∀ call ∈ fallback, ∀ t x, call.Plays t x → asks t ≠ []) {req : GenerateRequest}
    (h : (c.generateMetered depth fallback req).Plays t x) : CallLedger a (c :: cs) (notes t) (asks t) x := by
  obtain ⟨allowed, t, rfl, h⟩ := h
  cases allowed with
  | false =>
    obtain ⟨_, t, rfl, h⟩ := h
    cases fallback with
    | some call =>
      obtain ⟨_, t, rfl, h⟩ := h
      exact (hfallback call rfl t x h a).diverted (hasks call rfl t x h) c depth
    | none =>
      obtain ⟨rfl, rfl⟩ := h
      exact ⟨rfl, rfl, 0, c, rfl, rfl, .unmade _⟩
  | true =>
    simp only at h
    cases hbody : c.provider.buildRequest c.modelName req with
    | error e =>
      rw [hbody] at h
      obtain ⟨rfl, rfl⟩ := h
      exact ⟨rfl, rfl, 0, c, rfl, rfl, .unmade e⟩
    | ok body =>
      rw [hbody] at h
      have hloop : (c.retryLoopMetered depth fallback (c.post body) 0 (c.maxRetries + 1) none).Plays t x := h
      have hledger : CallLedger a (c :: cs) (notes t) (asks t) x :=
        retryLoopMetered_ledger hfallback (fun e he => by cases he) hloop
      exact hledger.admitted (retryLoopMetered_asks hloop) depth c.circuitBreaker

end Connection

theorem ConnectionManager.generateMetered_asks {cm : ConnectionManager} {depth : Nat} {req : GenerateRequest}
    {t : List (Step (NoteReply Http.Reply Metric))} {x : Except ModelError GenerateResponse}
    (h : (cm.generateMetered depth req).Plays t x) : asks t ≠ [] := by
  match cm with
  | mk conn none | mk conn (some fallback) =>
    obtain ⟨allowed, t, rfl, -⟩ := h
    exact List.cons_ne_nil _ _

/-- The ledger of a call. -/
theorem ConnectionManager.generateMetered_ledger (cm : ConnectionManager) {depth : Nat} {req : GenerateRequest}
    {t : List (Step (NoteReply Http.Reply Metric))} {x : Except ModelError GenerateResponse}
    (h : (cm.generateMetered depth req).Plays t x) (a : Bool) : CallLedger a cm.chain (notes t) (asks t) x := by
  match cm with
  | mk conn none => exact Connection.generateMetered_ledger (fun _ h => by cases h) (fun _ h => by cases h) h
  | mk conn (some fallback) =>
    refine Connection.generateMetered_ledger (fun call hcall t x h a => ?_) (fun call hcall t x h => ?_) h
    · cases hcall
      exact fallback.generateMetered_ledger h a
    · cases hcall
      exact generateMetered_asks h

/-! ### Calls at a time -/

section Pools

variable {ι : Type} [DecidableEq ι]

/-- The network, which does not notice metrics. -/
def Http.handleMetered (env : Http.Env) : Handler (NoteReply Http.Reply Metric) Http.World :=
  (Http.handle env).sum fun _ w => ((), w)

/-- Calls of managers, which may share breakers. -/
def meteredPool (cms : ι → ConnectionManager) (reqs : ι → GenerateRequest) (w : Http.World) :
    Pool ι (NoteReply Http.Reply Metric) Http.World ModelError GenerateResponse :=
  ⟨fun i => (cms i).generateMetered 0 (reqs i), ⟨w, []⟩⟩

/-- The metrics of a call change nothing of it, and agree with what it asked of the network and how it ended, whatever else
is called at the same time. -/
theorem calls_metered (env : Http.Env) (w : Http.World) (cms : ι → ConnectionManager) (reqs : ι → GenerateRequest)
    (schedule : List ι) (i : ι) {x : Except ModelError GenerateResponse}
    (hx : (((meteredPool cms reqs w).run (Http.handleMetered env) schedule).threads i).result? = some x) :
    let own := turns i ((meteredPool cms reqs w).run (Http.handleMetered env) schedule).view.trace
    ((cms i).generate 0 (reqs i)).Plays (asks own) x ∧ CallLedger false (cms i).chain (notes own) (asks own) x := by
  have hplays := Pool.plays_of_result (P := meteredPool cms reqs w) rfl hx
  refine ⟨?_, (cms i).generateMetered_ledger hplays false⟩
  rw [← (cms i).generateMetered_erase]
  exact hplays.erase

/-- A network in which the first attempt is answered by an error. -/
def Http.Env.firstFails : Http.Env where
  clock _ := 0
  send n _ := .ok ⟨⟨if n = 1 then 503 else 200, ""⟩, none⟩
  readBody _ := .ok ""

/-- A manager with a fallback behind another breaker. -/
def plainPair : ConnectionManager := .mk plainConnection (some (.mk { plainConnection with circuitBreaker := 1 } none))

def pairRun : Pool Unit (NoteReply Http.Reply Metric) Http.World ModelError GenerateResponse :=
  (meteredPool (fun _ => plainPair) (fun _ => ⟨none, [], none, none⟩) ⟨fun _ => .new 5 30, 0⟩).run
    (Http.handleMetered .firstFails) (List.replicate 12 ())

/-- The failure of the first manager is recorded as a fallback only; the second one records the call. -/
theorem calls_metered_fallback :
    notes (turns () pairRun.view.trace) =
        [.llmFallback "plain", .llmCall ⟨"plain", "model", some .zero, none⟩] ∧
      CallLedger false plainPair.chain (notes (turns () pairRun.view.trace)) (asks (turns () pairRun.view.trace))
        (.ok ⟨[], .zero⟩) :=
  ⟨by decide +kernel, (calls_metered .firstFails _ (fun _ => plainPair) _ _ () (by decide +kernel)).2⟩

end Pools

end AgentVerse
