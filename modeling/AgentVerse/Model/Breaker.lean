import AgentVerse.Model.Connection

/-!
# The circuit breaker among concurrent calls

Any number of calls of `generate` run interleaved; a manager and its `with_model` siblings hold the same breaker. The
state of a breaker always agrees with its count of failures, and every HTTP attempt belongs to a call that the breaker
let pass when the call began (`breaker_agrees`). The breaker is not asked again before a retry, so an attempt may still
start while it is open (`retry_through_open`).
-/

namespace AgentVerse

open Effects

/-! ### One breaker -/

namespace CircuitBreaker

/-- The state of the breaker agrees with its failures. -/
structure Sound (cb : CircuitBreaker) : Prop where
  threshold_pos : 0 < cb.threshold
  opened : cb.state = .opened → cb.lastFailure.isSome ∧ cb.threshold ≤ cb.consecutiveFailures
  closed : cb.state = .closed → cb.consecutiveFailures < cb.threshold
  halfOpen : cb.state = .halfOpen → cb.threshold ≤ cb.consecutiveFailures

/-- The breaker is open, and its timeout has not elapsed since the last failure. -/
def Blocking (cb : CircuitBreaker) (now : Nat) : Prop :=
  cb.state = .opened ∧ ∃ last, cb.lastFailure = some last ∧ cb.timedOut now last = false

variable {cb : CircuitBreaker} {now : Nat}

theorem new_sound {threshold : Nat} (timeoutSecs : Nat) (h : 0 < threshold) : (new threshold timeoutSecs).Sound where
  threshold_pos := h
  opened hs := by cases hs
  closed _ := h
  halfOpen hs := by cases hs

theorem recordSuccess_sound (h : cb.Sound) : cb.recordSuccess.Sound where
  threshold_pos := h.threshold_pos
  opened hs := by cases hs
  closed _ := h.threshold_pos
  halfOpen hs := by cases hs

theorem recordFailure_sound (h : cb.Sound) : (cb.recordFailure now).Sound := by
  unfold recordFailure
  by_cases hlt : cb.threshold ≤ cb.consecutiveFailures + 1
  · rw [if_pos hlt]
    refine ⟨h.threshold_pos, fun _ => ⟨rfl, hlt⟩, fun hs => ?_, fun hs => ?_⟩
    · cases hs
    · cases hs
  · rw [if_neg hlt]
    refine ⟨h.threshold_pos, fun hs => ?_, fun _ => by simpa using hlt, fun hs => ?_⟩
    · have := (h.opened hs).2
      omega
    · have := h.halfOpen hs
      omega

/-- A failure of the trial call opens the breaker again. -/
theorem recordFailure_halfOpen (h : cb.Sound) (hs : cb.state = .halfOpen) :
    (cb.recordFailure now).state = .opened := by
  have hle := h.halfOpen hs
  unfold recordFailure
  rw [if_pos (by omega)]

theorem canExecute_sound (h : cb.Sound) : (cb.canExecute now).2.Sound := by
  unfold canExecute
  cases hs : cb.state with
  | closed => exact h
  | halfOpen => exact h
  | opened =>
    obtain ⟨hsome, hle⟩ := h.opened hs
    obtain ⟨last, hlast⟩ := Option.isSome_iff_exists.mp hsome
    simp only [hlast]
    split
    · refine ⟨h.threshold_pos, fun hs => ?_, fun hs => ?_, fun _ => hle⟩
      · cases hs
      · cases hs
    · exact h

/-- A call is turned away exactly while the breaker is blocking. -/
theorem canExecute_iff (h : cb.Sound) : (cb.canExecute now).1 = true ↔ ¬ cb.Blocking now := by
  unfold canExecute Blocking
  cases hs : cb.state with
  | closed => simp
  | halfOpen => simp
  | opened =>
    obtain ⟨last, hlast⟩ := Option.isSome_iff_exists.mp (h.opened hs).1
    simp only [hlast]
    cases ht : cb.timedOut now last <;> simp [ht]

end CircuitBreaker

/-! ### All breakers -/

namespace Http

def World.Sound (w : World) : Prop := ∀ b, (w.breakers b).Sound

theorem World.setBreaker_sound {w : World} {b : BreakerId} {cb : CircuitBreaker} (hw : w.Sound) (hcb : cb.Sound) :
    (w.setBreaker b cb).Sound := by
  intro b'
  rw [World.setBreaker_breakers]
  by_cases hb : b' = b
  · subst hb
    rw [Function.update_self]
    exact hcb
  · rw [Function.update_of_ne hb]
    exact hw b'

theorem handle_sound (env : Env) (q : Request) {w : World} (hw : w.Sound) : (handle env q w).2.Sound := by
  have hanswer : (answer env (env.clock w.steps) w q).2.Sound := by
    cases q with
    | canExecute depth b => exact World.setBreaker_sound hw (CircuitBreaker.canExecute_sound (hw b))
    | recordSuccess b => exact World.setBreaker_sound hw (CircuitBreaker.recordSuccess_sound (hw b))
    | recordFailure b => exact World.setBreaker_sound hw (CircuitBreaker.recordFailure_sound (hw b))
    | send => exact hw
    | readBody => exact hw
    | sleep => exact hw
  exact hanswer

/-- The world with new breakers, of the given thresholds and timeouts. -/
def World.start (threshold timeoutSecs : BreakerId → Nat) : World := ⟨fun b => .new (threshold b) (timeoutSecs b), 0⟩

/-- A sibling for another model holds the same breaker. -/
theorem withModel_breaker {cm cm' : ConnectionManager} {modelName : String} {registry : ProviderRegistry}
    (h : cm.withModel modelName registry = .ok cm') : cm'.conn.circuitBreaker = cm.conn.circuitBreaker := by
  unfold ConnectionManager.withModel at h
  split at h
  · cases h
    rfl
  · cases h

/-! ### Calls let pass -/

variable {ι : Type} {env : Env} {i : ι} {c : Connection} {d : Nat} {v : View ι Reply World}

/-- Call `i` was let pass at the manager `c`, at `depth` in its chain. -/
def Admitted (c : Connection) (depth : Nat) (i : ι) (v : View ι Reply World) : Prop :=
  Happened v i (· = ⟨.canExecute depth c.circuitBreaker, true⟩)

/-- The terms of the calls: an attempt is made by a manager of the chain that let the call pass. -/
def gate (chain : ι → List Connection) : Discipline ι Reply World where
  inv v := v.state.Sound
  allowed _ _ _ := True
  guar v i q := ∀ d post, q = .send d post → ∃ c, (chain i)[d]? = some c ∧ Admitted c d i v

variable {chain : ι → List Connection} {E : Except ModelError GenerateResponse → View ι Reply World → Prop}

theorem admitted_stable : (gate chain).Stable (handle env) i (Admitted c d i) :=
  fun _ _ _ _ _ _ _ hK => hK.after

theorem ask_safe {q : Request} {k : Reply q → M GenerateResponse} (hc : (chain i)[d]? = some c)
    (hq : ∀ d' post, q = .send d' post → d' = d) (hv : Admitted c d i v)
    (hk : ∀ r v, Admitted c d i v → (gate chain).Safe (handle env) i (fun _ _ => True) (k r) v) :
    (gate chain).Safe (handle env) i (fun _ _ => True) (.ask q k) v := by
  refine ⟨Admitted c d i, admitted_stable, hv, fun v' hI hK _ => ⟨?_, handle_sound env q hI, hk _ _ hK.after⟩⟩
  intro d' post hsend
  obtain rfl := hq d' post hsend
  exact ⟨c, hc, hK⟩

theorem fail_safe (e : ModelError) :
    (gate chain).Safe (handle env) i (fun _ _ => True) (.fail e : M GenerateResponse) v :=
  Discipline.Safe.fail Discipline.stable_true trivial

theorem ret_safe (a : GenerateResponse) :
    (gate chain).Safe (handle env) i (fun _ _ => True) (.ret a : M GenerateResponse) v :=
  Discipline.Safe.ret Discipline.stable_true trivial

theorem retryLoop_safe {fallback : Option (M GenerateResponse)} {post : Post} (hc : (chain i)[d]? = some c)
    (hfb : ∀ e v, (gate chain).Safe (handle env) i (fun _ _ => True) (fallback.getD (.fail e)) v)
    (attempt remaining : Nat) (lastError : Option ModelError) (hv : Admitted c d i v) :
    (gate chain).Safe (handle env) i (fun _ _ => True)
      (c.retryLoop d fallback post attempt remaining lastError) v := by
  induction remaining generalizing attempt lastError v with
  | zero => exact hfb _ v
  | succ remaining ih =>
    have hpause : ∀ (ms : Nat) (e : ModelError) (v : View ι Reply World), Admitted c d i v →
        (gate chain).Safe (handle env) i (fun _ _ => True)
          (c.pause attempt ms >>= fun _ => c.retryLoop d fallback post (attempt + 1) remaining (some e)) v := by
      intro ms e v hv
      unfold Connection.pause
      split
      · exact ask_safe hc (fun _ _ h => by cases h) hv fun _ v hv => ih _ _ hv
      · exact ih _ _ hv
    refine ask_safe hc (fun _ _ h => by cases h; rfl) hv fun sent v hv => ?_
    cases sent with
    | error e => exact ask_safe hc (fun _ _ h => by cases h) hv fun _ v hv => hpause _ _ v hv
    | ok resp =>
      refine ask_safe hc (fun _ _ h => by cases h) hv fun bodyText v hv => ?_
      cases bodyText with
      | error e => exact fail_safe _
      | ok text =>
        split
        · exact ask_safe hc (fun _ _ h => by cases h) hv fun _ v hv => hpause _ _ v hv
        · split
          · cases ha : c.provider.parseResponse text with
            | ok a =>
              simp only [Prog.bind, ha]
              exact ask_safe hc (fun _ _ h => by cases h) hv fun _ v _ => ret_safe a
            | error e =>
              simp only [Prog.bind, ha]
              exact ask_safe hc (fun _ _ h => by cases h) hv fun _ v _ => fail_safe e
          · exact ask_safe hc (fun _ _ h => by cases h) hv fun _ v _ => hfb _ v

theorem connection_safe {fallback : Option (M GenerateResponse)} {req : GenerateRequest}
    (hc : (chain i)[d]? = some c)
    (hfb : ∀ e v, (gate chain).Safe (handle env) i (fun _ _ => True) (fallback.getD (.fail e)) v) :
    (gate chain).Safe (handle env) i (fun _ _ => True) (c.generate d fallback req) v := by
  refine Discipline.Safe.ask fun v' hI _ => ⟨fun _ _ h => (by cases h), handle_sound env _ hI, ?_⟩
  cases hr : (handle env (.canExecute d c.circuitBreaker) v'.state).1 with
  | false => exact hfb _ _
  | true =>
    have hadm : Admitted c d i (v'.after (handle env) i (.canExecute d c.circuitBreaker)) :=
      happened_after.mpr (.inr ⟨rfl, by rw [hr]⟩)
    cases hb : c.provider.buildRequest c.modelName req with
    | error e => exact fail_safe e
    | ok body => exact retryLoop_safe hc hfb 0 _ none hadm

theorem generate_safe (cm : ConnectionManager) {req : GenerateRequest} {d : Nat} {v : View ι Reply World}
    (hc : (chain i).drop d = cm.chain) :
    (gate chain).Safe (handle env) i (fun _ _ => True) (cm.generate d req) v := by
  match cm with
  | .mk conn none =>
    refine connection_safe (c := conn) ?_ fun e v => fail_safe e
    have h := congrArg List.head? hc
    rwa [List.head?_drop] at h
  | .mk conn (some fallback) =>
    refine connection_safe (c := conn) ?_ fun e v => generate_safe fallback ?_
    · have h := congrArg List.head? hc
      rwa [List.head?_drop] at h
    · rw [← List.tail_drop, hc]
      rfl

/-! ### Pools of calls -/

/-- Calls of `generate` about to start. -/
def calls (w : World) (cms : ι → ConnectionManager) (reqs : ι → GenerateRequest) :
    Pool ι Reply World ModelError GenerateResponse :=
  ⟨fun i => (cms i).generate 0 (reqs i), ⟨w, []⟩⟩

theorem calls_safe [DecidableEq ι] (env : Env) {w : World} (hw : w.Sound) (cms : ι → ConnectionManager)
    (reqs : ι → GenerateRequest) (schedule : List ι) :
    (((calls w cms reqs).run (handle env) schedule).view.state).Sound ∧
      ∀ i, (gate fun i => (cms i).chain).Safe (handle env) i (fun _ _ => True)
        (((calls w cms reqs).run (handle env) schedule).threads i)
        ((calls w cms reqs).run (handle env) schedule).view := by
  have hI : (gate fun i => (cms i).chain).inv (calls w cms reqs).view := hw
  exact Pool.run_safe hI (fun i => generate_safe (cms i) rfl)
    (Pool.conforms_true (handle env) (fun _ _ _ => trivial) schedule)

/-- In every interleaving of any calls, starting with new breakers of positive thresholds: every breaker agrees with
its failures, a failure of a half-open breaker opens it, and every attempt belongs to a call that was let pass, by its
manager, at a moment when the breaker was not blocking. -/
theorem breaker_agrees [DecidableEq ι] (env : Env) (threshold timeoutSecs : BreakerId → Nat)
    (hpos : ∀ b, 0 < threshold b) (cms : ι → ConnectionManager) (reqs : ι → GenerateRequest) (schedule : List ι) :
    let pool := (calls (.start threshold timeoutSecs) cms reqs).run (handle env)
    let P := pool schedule
    (∀ b cb, P.view.state.breakers b = cb →
        (cb.state = .opened → cb.lastFailure.isSome ∧ cb.threshold ≤ cb.consecutiveFailures) ∧
        (cb.state = .closed → cb.consecutiveFailures < cb.threshold)) ∧
      (∀ i b k, P.threads i = .ask (.recordFailure b) k → (P.view.state.breakers b).state = .halfOpen →
        ((P.step (handle env) i).view.state.breakers b).state = .opened) ∧
      ∀ i d post k, P.threads i = .ask (.send d post) k → ∃ c s₁ s₂ k', (cms i).chain[d]? = some c ∧
        schedule = s₁ ++ i :: s₂ ∧ (pool s₁).threads i = .ask (.canExecute d c.circuitBreaker) k' ∧
        ¬ ((pool s₁).view.state.breakers c.circuitBreaker).Blocking (env.clock (pool s₁).view.state.steps) := by
  intro pool P
  have hstart : (World.start threshold timeoutSecs).Sound := fun b => CircuitBreaker.new_sound _ (hpos b)
  obtain ⟨hI, hS⟩ := calls_safe env hstart cms reqs schedule
  refine ⟨fun b cb hcb => ?_, fun i b k ht hs => ?_, fun i d post k ht => ?_⟩
  · subst hcb
    exact ⟨(hI b).opened, (hI b).closed⟩
  · unfold Pool.step
    rw [ht]
    show (Function.update P.view.state.breakers b _ b).state = _
    rw [Function.update_self]
    exact CircuitBreaker.recordFailure_halfOpen (hI b) hs
  · have hi := hS i
    rw [ht] at hi
    obtain ⟨K, -, hKv, hK⟩ := hi
    obtain ⟨c, hc, x, hx, hxi, he⟩ := (hK _ hI hKv trivial).1 d post rfl
    obtain ⟨j, e⟩ := x
    obtain rfl : j = i := hxi
    obtain rfl : e = _ := he
    rcases Pool.turn_of_trace (handle env) hx with hx | ⟨s₁, s₂, q, k', hs, ht', he⟩
    · cases hx
    · obtain ⟨rfl, hr⟩ := Sigma.mk.inj he
      refine ⟨c, s₁, s₂, k', hc, hs, ht', ?_⟩
      exact (CircuitBreaker.canExecute_iff ((calls_safe env hstart cms reqs s₁).1 _)).mp (eq_of_heq hr).symm

/-- Nothing can be sent, and half a second passes between requests. -/
def Env.down : Env where
  clock n := n * 500000000
  send _ _ := .error "connection refused"
  readBody _ := .error "connection refused"

/-- A call through a breaker of threshold 1 while nothing can be sent. -/
def downCall : List Unit → Pool Unit Reply World ModelError GenerateResponse :=
  (calls (.start (fun _ => 1) fun _ => 30) (fun _ => .mk plainConnection none) fun _ => ⟨none, [], none, none⟩).run
    (handle .down)

/-- Its first failure opens the breaker, and the call goes on to its next attempt. -/
theorem retry_through_open :
    let P := downCall [(), (), (), ()]
    (∃ post k, P.threads () = .ask (.send 0 post) k) ∧
      (P.view.state.breakers plainConnection.circuitBreaker).Blocking (Env.down.clock P.view.state.steps) :=
  ⟨⟨_, _, rfl⟩, rfl, _, rfl, by decide⟩

/-- The call was let pass when it began. -/
theorem breaker_agrees_down :
    ∃ c s₁ s₂ k', (ConnectionManager.mk plainConnection none).chain[0]? = some c ∧
      [(), (), (), ()] = s₁ ++ () :: s₂ ∧
      (downCall s₁).threads () = .ask (.canExecute 0 c.circuitBreaker) k' ∧
      ¬ ((downCall s₁).view.state.breakers c.circuitBreaker).Blocking
        (Env.down.clock (downCall s₁).view.state.steps) :=
  (breaker_agrees .down (fun _ => 1) (fun _ => 30) (fun _ => Nat.one_pos) (fun _ => .mk plainConnection none)
    (fun _ => ⟨none, [], none, none⟩) [(), (), (), ()]).2.2 () 0 _ _ rfl

end Http

end AgentVerse
