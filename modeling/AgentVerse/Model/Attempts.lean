import AgentVerse.Model.Connection

/-!
# Attempts of a model call

What a call of `generate` does, read from its events: the HTTP attempts, how each of them ended, what it reported to
the breaker, and which managers of the chain were called. `Goes` lists the ways a call can go, and `generate_goes`
shows that there are no others; the rest is by induction on it.
-/

namespace AgentVerse

open Effects

namespace Http

/-! ### Reading the events of a call -/

/-- How an HTTP attempt ends. -/
inductive Outcome where
  | sendError
  | bodyError
  | rateLimited
  | failed
  | unparsable
  | parsed
  deriving DecidableEq

/-- What a breaker is told. -/
inductive Report where
  | success
  | failure
  deriving DecidableEq

def isSend : Event → Bool
  | ⟨.send .., _⟩ => true
  | _ => false

def report? : Event → Option (BreakerId × Report)
  | ⟨.recordSuccess b, _⟩ => some (b, .success)
  | ⟨.recordFailure b, _⟩ => some (b, .failure)
  | _ => none

def bodyRead? : Event → Option (Except String String)
  | ⟨.readBody _, r⟩ => some r
  | _ => none

/-- An HTTP attempt: the manager that makes it, its reply, and what is asked before the next attempt. -/
structure Attempt where
  depth : Nat
  reply : Except String Response
  followed : List Event

/-- How the attempt ended, for a manager with this provider. -/
def Attempt.outcome (p : ModelProvider) (a : Attempt) : Option Outcome :=
  match a.reply, a.followed.findSome? bodyRead? with
  | .error _, _ => some .sendError
  | .ok _, none => none
  | .ok _, some (.error _) => some .bodyError
  | .ok resp, some (.ok text) =>
    if resp.status.code = 429 then some .rateLimited
    else if resp.status.isSuccess then
      match p.parseResponse text with
      | .ok _ => some .parsed
      | .error _ => some .unparsable
    else some .failed

/-- What the attempt reports, and to which breaker. -/
def Attempt.reports (a : Attempt) : List (BreakerId × Report) := a.followed.filterMap report?

/-- The attempts among the events, in order. -/
def attempts : List Event → List Attempt
  | [] => []
  | ⟨.send d _, r⟩ :: es => ⟨d, r, es.takeWhile fun e => !isSend e⟩ :: attempts es
  | _ :: es => attempts es

/-- The number of attempts that the manager at `depth` makes. -/
def attemptsOf (depth : Nat) (as : List Attempt) : Nat := as.countP fun a => a.depth = depth

/-- The manager at `depth` was called. -/
def Consulted (depth : Nat) (t : List Event) : Prop := ∃ b r, ⟨.canExecute depth b, r⟩ ∈ t

/-- Transport failures and 429s. -/
def Outcome.transient (o : Outcome) : Prop := o = .sendError ∨ o = .bodyError ∨ o = .rateLimited

/-- The success or the failure of an attempt. -/
def Outcome.verdict : Outcome → Report
  | .parsed => .success
  | _ => .failure

/-- The end of `t` shows that a body of the manager at `depth` could not be parsed. -/
def EndsUnparsable (c : Connection) (depth : Nat) (t : List Event) : Prop :=
  ∃ a, (attempts t).getLast? = some a ∧ a.depth = depth ∧ a.outcome c.provider = some .unparsable

/-- Why the manager `c` may leave its fallback alone. -/
def Excused (req : GenerateRequest) (c : Connection) (depth : Nat) (t : List Event) : Prop :=
  (∃ e, c.provider.buildRequest c.modelName req = .error e) ∨ EndsUnparsable c depth t

/-- What is promised of a call of the chain `cs` with events `t` and result `r`. -/
structure Disciplined (cs : List Connection) (req : GenerateRequest) (t : List Event)
    (r : Except ModelError GenerateResponse) : Prop where
  bounded : ∀ d c, cs[d]? = some c → attemptsOf d (attempts t) ≤ c.maxRetries + 1
  reported : ∀ a ∈ attempts t, ∃ c o, cs[a.depth]? = some c ∧ a.outcome c.provider = some o ∧
    a.reports = [(c.circuitBreaker, o.verdict)]
  retried : ∀ pre a post c o, attempts t = pre ++ a :: post → cs[a.depth]? = some c →
    a.outcome c.provider = some o → o.transient → attemptsOf a.depth pre < c.maxRetries →
    ∃ b, post.head? = some b ∧ b.depth = a.depth
  consulted : (∀ a, r ≠ .ok a) → ∀ d c, cs[d]? = some c → (cs[d + 1]?).isSome → Consulted d t →
    ¬ Consulted (d + 1) t → Excused req c d t

/-- No body read of the call fails. -/
def BodiesRead (t : List Event) : Prop := ∀ x ∈ t, ∀ e, bodyRead? x ≠ some (.error e)

/-! ### Ways to go -/

/-- An attempt of the manager `c` that ends with `o`, and what the manager asks after it. -/
inductive Bout (c : Connection) (depth : Nat) : Outcome → List Event → Prop where
  | sendError {post e pauses} (hp : ∀ x ∈ pauses, ∃ ms, x = ⟨.sleep ms, ()⟩) :
      Bout c depth .sendError
        (⟨.send depth post, .error e⟩ :: ⟨.recordFailure c.circuitBreaker, ()⟩ :: pauses)
  | bodyError {post resp e} :
      Bout c depth .bodyError [⟨.send depth post, .ok resp⟩, ⟨.readBody depth, .error e⟩]
  | rateLimited {post resp text pauses} (hs : resp.status.code = 429)
      (hp : ∀ x ∈ pauses, ∃ ms, x = ⟨.sleep ms, ()⟩) :
      Bout c depth .rateLimited
        (⟨.send depth post, .ok resp⟩ :: ⟨.readBody depth, .ok text⟩ ::
          ⟨.recordFailure c.circuitBreaker, ()⟩ :: pauses)
  | failed {post resp text} (hs : resp.status.code ≠ 429) (hf : resp.status.isSuccess = false) :
      Bout c depth .failed
        [⟨.send depth post, .ok resp⟩, ⟨.readBody depth, .ok text⟩, ⟨.recordFailure c.circuitBreaker, ()⟩]
  | unparsable {post resp text e} (hs : resp.status.code ≠ 429) (hf : resp.status.isSuccess = true)
      (he : c.provider.parseResponse text = .error e) :
      Bout c depth .unparsable
        [⟨.send depth post, .ok resp⟩, ⟨.readBody depth, .ok text⟩, ⟨.recordFailure c.circuitBreaker, ()⟩]
  | parsed {post resp text a} (hs : resp.status.code ≠ 429) (hf : resp.status.isSuccess = true)
      (ha : c.provider.parseResponse text = .ok a) :
      Bout c depth .parsed
        [⟨.send depth post, .ok resp⟩, ⟨.readBody depth, .ok text⟩, ⟨.recordSuccess c.circuitBreaker, ()⟩]

/-- Where a call is: about to call the first manager of the rest of the chain, or in its retry loop with so many
attempts made. -/
inductive Phase where
  | calling
  | looping (made : Nat)

/-- The ways a call can go from a phase, with the managers `cs` left in the chain, the first of them at `depth`. -/
inductive Goes (req : GenerateRequest) : Nat → List Connection → Phase → List Event →
    Except ModelError GenerateResponse → Prop where
  | noFallback {d e} : Goes req d [] .calling [] (.error e)
  | tripped {d c cs t r} (ht : Goes req (d + 1) cs .calling t r) :
      Goes req d (c :: cs) .calling (⟨.canExecute d c.circuitBreaker, false⟩ :: t) r
  | unbuilt {d c cs e} (he : c.provider.buildRequest c.modelName req = .error e) :
      Goes req d (c :: cs) .calling [⟨.canExecute d c.circuitBreaker, true⟩] (.error e)
  | admitted {d c cs t r} (ht : Goes req d (c :: cs) (.looping 0) t r) :
      Goes req d (c :: cs) .calling (⟨.canExecute d c.circuitBreaker, true⟩ :: t) r
  | spent {d c cs t r} (ht : Goes req (d + 1) cs .calling t r) :
      Goes req d (c :: cs) (.looping (c.maxRetries + 1)) t r
  | again {d c cs k o b t r} (hk : k ≤ c.maxRetries) (hb : Bout c d o b) (ho : o = .sendError ∨ o = .rateLimited)
      (ht : Goes req d (c :: cs) (.looping (k + 1)) t r) : Goes req d (c :: cs) (.looping k) (b ++ t) r
  | handedOver {d c cs k b t r} (hk : k ≤ c.maxRetries) (hb : Bout c d .failed b)
      (ht : Goes req (d + 1) cs .calling t r) : Goes req d (c :: cs) (.looping k) (b ++ t) r
  | answered {d c cs k b a} (hk : k ≤ c.maxRetries) (hb : Bout c d .parsed b) :
      Goes req d (c :: cs) (.looping k) b (.ok a)
  | refused {d c cs k o b e} (hk : k ≤ c.maxRetries) (hb : Bout c d o b) (ho : o = .unparsable ∨ o = .bodyError) :
      Goes req d (c :: cs) (.looping k) b (.error e)

end Http

section Goes

open Http

variable {req : GenerateRequest} {d : Nat} {t : List Event} {r : Except ModelError GenerateResponse}

namespace Connection

variable {c : Connection}

theorem pause_plays {attempt ms : Nat} {f : Unit → Http.M GenerateResponse}
    (h : (c.pause attempt ms >>= f).Plays t r) :
    ∃ pauses t', t = pauses ++ t' ∧ (∀ x ∈ pauses, ∃ ms, x = ⟨.sleep ms, ()⟩) ∧ (f ()).Plays t' r := by
  unfold pause at h
  split at h
  · obtain ⟨_, t', rfl, h⟩ := h
    exact ⟨[⟨.sleep ms, ()⟩], t', rfl, by simp, h⟩
  · exact ⟨[], t, rfl, by simp, h⟩

variable {cs : List Connection} {fallback : Option (Http.M GenerateResponse)} {post : Post}

theorem retryLoop_goes
    (hfb : ∀ e t r, (fallback.getD (.fail e)).Plays t r → Goes req (d + 1) cs .calling t r)
    {attempt remaining : Nat} {lastError : Option ModelError} (hk : attempt + remaining = c.maxRetries + 1)
    (h : (c.retryLoop d fallback post attempt remaining lastError).Plays t r) :
    Goes req d (c :: cs) (.looping attempt) t r := by
  induction remaining generalizing attempt lastError t with
  | zero =>
    obtain rfl : attempt = c.maxRetries + 1 := by omega
    exact .spent (hfb _ _ _ h)
  | succ remaining ih =>
    have hle : attempt ≤ c.maxRetries := by omega
    have hnext : attempt + 1 + remaining = c.maxRetries + 1 := by omega
    obtain ⟨sent, t, rfl, h⟩ := h
    cases sent with
    | error e =>
      obtain ⟨_, t, rfl, h⟩ := h
      obtain ⟨pauses, t, rfl, hp, h⟩ := pause_plays h
      exact .again hle (.sendError hp) (.inl rfl) (ih hnext h)
    | ok resp =>
      obtain ⟨bodyText, t, rfl, h⟩ := h
      cases bodyText with
      | error e =>
        obtain ⟨rfl, rfl⟩ := h
        exact .refused hle .bodyError (.inr rfl)
      | ok text =>
        simp only at h
        split at h
        · rename_i hs
          obtain ⟨_, t, rfl, h⟩ := h
          obtain ⟨pauses, t, rfl, hp, h⟩ := pause_plays h
          exact .again hle (.rateLimited hs hp) (.inr rfl) (ih hnext h)
        · rename_i hs
          split at h
          · rename_i hf
            cases ha : c.provider.parseResponse text with
            | ok a =>
              simp only [Prog.bind, ha] at h
              obtain ⟨_, t, rfl, rfl, rfl⟩ := h
              exact .answered hle (.parsed hs hf ha)
            | error e =>
              simp only [Prog.bind, ha] at h
              obtain ⟨_, t, rfl, rfl, rfl⟩ := h
              exact .refused hle (.unparsable hs hf ha) (.inl rfl)
          · rename_i hf
            obtain ⟨_, t, rfl, h⟩ := h
            exact .handedOver hle (.failed hs (by simpa using hf)) (hfb _ _ _ h)

theorem generate_goes
    (hfb : ∀ e t r, (fallback.getD (.fail e)).Plays t r → Goes req (d + 1) cs .calling t r)
    (h : (c.generate d fallback req).Plays t r) : Goes req d (c :: cs) .calling t r := by
  obtain ⟨allowed, t, rfl, h⟩ := h
  cases allowed with
  | false => exact .tripped (hfb _ _ _ h)
  | true =>
    simp only at h
    cases hb : c.provider.buildRequest c.modelName req with
    | error e =>
      rw [hb] at h
      obtain ⟨rfl, rfl⟩ := h
      exact .unbuilt hb
    | ok body =>
      rw [hb] at h
      exact .admitted (retryLoop_goes hfb (by omega) h)

end Connection

/-- Every call goes one of the ways. -/
theorem ConnectionManager.generate_goes (cm : ConnectionManager) {d : Nat} {t : List Event}
    {r : Except ModelError GenerateResponse} (h : (cm.generate d req).Plays t r) :
    Goes req d cm.chain .calling t r := by
  match cm with
  | mk conn none =>
    refine Connection.generate_goes (fun e t r h => ?_) h
    obtain ⟨rfl, rfl⟩ := h
    exact .noFallback
  | mk conn (some fallback) =>
    refine Connection.generate_goes (fun e t r h => ?_) h
    exact fallback.generate_goes h

end Goes

end AgentVerse
