import AgentVerse.Http.Gateway

/-!
# Admission

The server over whole runs. The limiter sees the requests that have the key and ask for it, at their instants, so its
laws are laws about the answers. Servers that are alike for the requests to come (`Alike`) stay so when one of them sees
a request that is turned away; hence such requests make no difference (`gateway_sound`).
-/

namespace AgentVerse

open Effects SessionRoutes

namespace Gateway

variable {agent : Agent} {uu : UuidTexts} {env : Env} {key : Option String} {s t : State} {a : Arrival} {u : String}

/-! ### The limiter over a run -/

theorem check_settings' (l : RateLimiter) (u : String) (now : Nat) :
    (l.check u now).2.defaultMaxRequests = l.defaultMaxRequests ∧
      (l.check u now).2.defaultWindowSeconds = l.defaultWindowSeconds := by
  rcases l.check_cases u now with ⟨-, e, hcheck⟩ | ⟨-, hcheck⟩
  · rw [hcheck]
    exact ⟨rfl, rfl⟩
  · rw [hcheck]
    exact ⟨rfl, rfl⟩

theorem limiterAfter_settings (l : RateLimiter) (a : Arrival) :
    (limiterAfter key l a).defaultMaxRequests = l.defaultMaxRequests ∧
      (limiterAfter key l a).defaultWindowSeconds = l.defaultWindowSeconds := by
  unfold limiterAfter
  cases asks key a with
  | none => exact ⟨rfl, rfl⟩
  | some u => exact check_settings' l u a.now

theorem comesThrough_of_asks {l : RateLimiter} (h : asks key a = some u) :
    comesThrough key l a = (l.check u a.now).1.isOk := by
  unfold asks at h
  split at h
  · simp [comesThrough, *]
  · cases h

/-- What is kept for a user and in the window at a later instant: what was, and the request if it came through. -/
theorem recent_limiterAfter (l : RateLimiter) (u : String) {later : Nat} (h : a.now ≤ later) :
    RateLimiter.recent l.window later ((limiterAfter key l a).limits u) =
      RateLimiter.recent l.window later (l.limits u) ++
        (if asks key a = some u ∧ comesThrough key l a = true then RateLimiter.recent l.window later [a.now] else []) := by
  unfold limiterAfter
  cases hasks : asks key a with
  | none => simp
  | some u' =>
    dsimp only
    rw [comesThrough_of_asks hasks, RateLimiter.check_limits]
    by_cases hu : u = u'
    · subst hu
      rw [if_pos rfl, RateLimiter.recent_append, RateLimiter.recent_recent h]
      by_cases hok : (l.check u a.now).1.isOk = true
      · simp [hok]
      · simp [hok, RateLimiter.recent]
    · simp [hu, Ne.symm hu]

/-- The same requests are in the window, the same is said. -/
theorem check_same {l l' : RateLimiter} {now : Nat} (hmax : l.defaultMaxRequests = l'.defaultMaxRequests)
    (hseconds : l.defaultWindowSeconds = l'.defaultWindowSeconds)
    (h : RateLimiter.recent l.window now (l.limits u) = RateLimiter.recent l'.window now (l'.limits u)) :
    (l.check u now).1 = (l'.check u now).1 := by
  unfold RateLimiter.check
  rw [h, hmax, hseconds]
  dsimp only
  split
  · rfl
  · rfl

/-- Servers that are alike for the requests to come. -/
structure Alike (arrivals : List Arrival) (s t : State) : Prop where
  ordered : arrivals.Pairwise fun a b => a.now ≤ b.now
  world : s.world = t.world
  max : s.limiter.defaultMaxRequests = t.limiter.defaultMaxRequests
  seconds : s.limiter.defaultWindowSeconds = t.limiter.defaultWindowSeconds
  recent : ∀ u later, (∃ a ∈ arrivals, a.now ≤ later) →
    RateLimiter.recent s.limiter.window later (s.limiter.limits u) =
      RateLimiter.recent t.limiter.window later (t.limiter.limits u)

theorem Alike.refl {arrivals : List Arrival} (h : arrivals.Pairwise fun a b => a.now ≤ b.now) (s : State) :
    Alike arrivals s s := ⟨h, rfl, rfl, rfl, fun _ _ _ => rfl⟩

variable {arrivals : List Arrival}

theorem Alike.handler (h : Alike (a :: arrivals) s t) :
    (handler agent uu s.limiter a.now a.route).1 = (handler agent uu t.limiter a.now a.route).1 := by
  unfold Gateway.handler
  cases hu : a.route.limited? with
  | none => rfl
  | some u =>
    have hcheck : (s.limiter.check u a.now).1 = (t.limiter.check u a.now).1 :=
      check_same h.max h.seconds (h.recent u a.now ⟨a, List.mem_cons_self, Nat.le_refl _⟩)
    dsimp only
    rcases hs : s.limiter.check u a.now with ⟨r, limiter⟩
    rcases ht : t.limiter.check u a.now with ⟨r', limiter'⟩
    rw [hs, ht] at hcheck
    cases hcheck
    cases r with
    | error e => rfl
    | ok _ => rfl

theorem Alike.comesThrough (h : Alike (a :: arrivals) s t) :
    comesThrough key s.limiter a = comesThrough key t.limiter a := by
  rw [Gateway.comesThrough, Gateway.comesThrough]
  cases a.route.limited? with
  | none => rw [Option.all_none, Option.all_none]
  | some u =>
    have hcheck : (s.limiter.check u a.now).1 = (t.limiter.check u a.now).1 :=
      check_same h.max h.seconds (h.recent u a.now ⟨a, List.mem_cons_self, Nat.le_refl _⟩)
    rw [Option.all_some, Option.all_some, hcheck]

theorem Alike.step (h : Alike (a :: arrivals) s t) :
    ((server agent uu env key).step t a).1 = ((server agent uu env key).step s a).1 ∧
      ((server agent uu env key).step t a).2.world = ((server agent uu env key).step s a).2.world := by
  have hhandler : (Gateway.handler agent uu s.limiter a.now a.route).1 = _ := h.handler
  rw [(step_eq t a).1, (step_eq t a).2, (step_eq s a).1, (step_eq s a).2, h.world, hhandler]
  exact ⟨rfl, rfl⟩

theorem window_eq {l l' : RateLimiter} (h : l.defaultWindowSeconds = l'.defaultWindowSeconds) : l.window = l'.window := by
  rw [RateLimiter.window, RateLimiter.window, h]

/-- The requests to come are no earlier than the one at hand. -/
theorem Alike.later (h : Alike (a :: arrivals) s t) {later : Nat} (hlater : ∃ b ∈ arrivals, b.now ≤ later) :
    a.now ≤ later := by
  obtain ⟨b, hb, hle⟩ := hlater
  exact Nat.le_trans (List.rel_of_pairwise_cons h.ordered hb) hle

/-- A request that is turned away makes no difference. -/
theorem alike_dulls : Machine.Dulls (server agent uu env key) turnedAway Alike where
  output _ _ _ _ h := h.step.1
  next a arrivals s t h := by
    refine ⟨h.ordered.of_cons, h.step.2.symm, ?_, ?_, fun u later hlater => ?_⟩
    · rw [step_limiter, step_limiter, (limiterAfter_settings _ a).1, (limiterAfter_settings _ a).1, h.max]
    · rw [step_limiter, step_limiter, (limiterAfter_settings _ a).2, (limiterAfter_settings _ a).2, h.seconds]
    · rw [step_limiter, step_limiter, window_eq (limiterAfter_settings _ a).2, window_eq (limiterAfter_settings _ a).2,
        recent_limiterAfter _ u (h.later hlater), recent_limiterAfter _ u (h.later hlater), h.comesThrough,
        h.recent u later ⟨a, List.mem_cons_self, h.later hlater⟩, window_eq h.seconds]
  skip a arrivals s t h haway := by
    rw [turnedAway_step, Bool.not_eq_true'] at haway
    refine ⟨h.ordered.of_cons, (step_away haway).2.trans h.world, ?_, ?_, fun u later hlater => ?_⟩
    · rw [step_limiter, (limiterAfter_settings _ a).1, h.max]
    · rw [step_limiter, (limiterAfter_settings _ a).2, h.seconds]
    · rw [step_limiter, window_eq (limiterAfter_settings _ a).2, recent_limiterAfter _ u (h.later hlater), haway,
        if_neg (by simp), List.append_nil, h.recent u later ⟨a, List.mem_cons_self, h.later hlater⟩]

/-! ### The requests that come through -/

/-- What the limiter is asked. -/
def limiterCalls (key : Option String) (arrivals : List Arrival) : List (String × Nat) :=
  arrivals.filterMap fun a => (asks key a).map fun u => (u, a.now)

/-- A request for `u` that the limiter let pass, with its answer. -/
def passed (u : String) (e : Arrival × Response) : Bool := e.1.route.limited? = some u && !turnedAway e.2

theorem limiterCalls_append (arrivals : List Arrival) (a : Arrival) :
    limiterCalls key (arrivals ++ [a]) = limiterCalls key arrivals ++ ((asks key a).map fun u => (u, a.now)).toList := by
  rw [limiterCalls, List.filterMap_append]
  cases h : asks key a <;> simp [limiterCalls, h]

theorem limiterCalls_ordered (h : arrivals.Pairwise fun a b => a.now ≤ b.now) :
    (limiterCalls key arrivals).Pairwise fun c d => c.2 ≤ d.2 := by
  refine h.filterMap _ fun a b hab c hc d hd => ?_
  obtain ⟨_, -, rfl⟩ := Option.map_eq_some_iff.mp hc
  obtain ⟨_, -, rfl⟩ := Option.map_eq_some_iff.mp hd
  exact hab

/-- The limiter of a run is that of its calls. -/
theorem run_limiter (s : State) (arrivals : List Arrival) :
    ((server agent uu env key).run s arrivals).limiter =
      RateLimiter.machine.run s.limiter (limiterCalls key arrivals) := by
  induction arrivals generalizing s with
  | nil => rfl
  | cons a arrivals ih =>
    have hrest := ih ((server agent uu env key).step s a).2
    rw [step_limiter] at hrest
    refine hrest.trans ?_
    unfold limiterAfter limiterCalls
    rw [List.filterMap_cons]
    cases asks key a with
    | none => rfl
    | some u => rfl

theorem passed_step (s : State) (a : Arrival) (u : String) :
    passed u (a, ((server agent uu env key).step s a).1) =
      (decide (asks key a = some u) && comesThrough key s.limiter a) := by
  unfold passed
  rw [turnedAway_step, Bool.not_not]
  by_cases hkey : admits key a.authorization = true
  · simp [asks, hkey]
  · simp [comesThrough, hkey]

/-- The requests that passed are those that the limiter accepted. -/
theorem passed_accepted (s : State) (u : String) (arrivals : List Arrival) :
    ((arrivals.zip ((server agent uu env key).outputs s arrivals)).filter (passed u)).map (·.1.now) =
      RateLimiter.accepted s.limiter u (limiterCalls key arrivals) := by
  induction arrivals using List.reverseRecOn with
  | nil => rfl
  | append_singleton arrivals a ih =>
    have hlast : passed u (a, ((server agent uu env key).step ((server agent uu env key).run s arrivals) a).1) = _ :=
      passed_step _ a u
    rw [run_limiter] at hlast
    rw [Machine.outputs_append, List.zip_append (by simp), List.filter_append, List.map_append, ih, limiterCalls_append]
    show _ ++ List.map _ (List.filter _ [(a, ((server agent uu env key).step _ a).1)]) = _
    rw [List.filter_cons, hlast]
    cases hasks : asks key a with
    | none => simp
    | some u' =>
      rw [Option.map_some, Option.toList_some, RateLimiter.accepted_append, comesThrough_of_asks hasks]
      congr 1
      by_cases hu : u' = u
      · subst hu
        cases ((RateLimiter.machine.run s.limiter (limiterCalls key arrivals)).check u' a.now).1.isOk <;> simp
      · simp [hu]

/-! ### Runs of the server -/

/-- Requests that passed, counted by their instants. -/
theorem count_passed (s : State) (u : String) (arrivals : List Arrival) (q : Nat → Bool) :
    ((arrivals.zip ((server agent uu env key).outputs s arrivals)).filter fun e => passed u e && q e.1.now).length =
      ((RateLimiter.accepted s.limiter u (limiterCalls key arrivals)).filter q).length := by
  have haccepted : ((arrivals.zip ((server agent uu env key).outputs s arrivals)).filter (passed u)).map (·.1.now) = _ :=
    passed_accepted s u arrivals
  rw [← haccepted, List.filter_map, List.length_map, List.filter_filter]
  refine congrArg List.length (List.filter_congr fun e _ => ?_)
  exact Bool.and_comm ..

/-- A request comes through exactly if fewer requests than allowed passed less than a window earlier. -/
theorem comesThrough_iff {N W : Nat} {w : World} {before : List Arrival}
    (h : (before ++ [a]).Pairwise fun a b => a.now ≤ b.now) (hkey : admits key a.authorization = true)
    (hu : a.route.limited? = some u) :
    let M := server agent uu env key
    let s : State := ⟨w, .new N W⟩
    comesThrough key (M.run s before).limiter a = true ↔
      ((before.zip (M.outputs s before)).filter
        fun e => passed u e && decide (a.now - e.1.now < W * 1000000000)).length < N := by
  intro M s
  have hasks : asks key a = some u := by simp [asks, hkey, hu]
  have hcalls : (limiterCalls key before ++ [(u, a.now)]).Pairwise fun c d => c.2 ≤ d.2 := by
    have hordered : (limiterCalls key (before ++ [a])).Pairwise _ := limiterCalls_ordered h
    rwa [limiterCalls_append, hasks] at hordered
  rw [count_passed s u before fun t => decide (a.now - t < W * 1000000000), comesThrough_of_asks hasks, run_limiter]
  exact RateLimiter.check_isOk_iff hcalls N W

/-- A request with its answer. -/
abbrev Answered := Arrival × Response

/-- In every run of requests at instants that do not decrease, those that are turned away can be left out: the others
have the same answers and the agent comes to the same state. A request is refused exactly if it lacks the key, and
limited exactly if as many requests of its user as are allowed passed less than a window earlier, so that no window
holds more of them. A key with whitespace around it or with a character that a header cannot show admits nobody, and
a server behind no key is reached from the host alone, unless that is switched off. -/
theorem gateway_sound (agent : Agent) (uu : UuidTexts) (env : Env) (var : Option String) (N W : Nat) (w : World)
    (arrivals : List Arrival) (h : arrivals.Pairwise fun a b => a.now ≤ b.now) :
    let key := getApiKey var
    let M := server agent uu env key
    let s : State := ⟨w, .new N W⟩
    let answered (arrivals : List Arrival) : List Answered := arrivals.zip (M.outputs s arrivals)
    (M.outputs s (M.lively turnedAway s arrivals) = (M.outputs s arrivals).filter (fun r => !turnedAway r) ∧
      (M.run s (M.lively turnedAway s arrivals)).world = (M.run s arrivals).world) ∧
    (∀ before a after, arrivals = before ++ a :: after →
      let r := (M.step (M.run s before) a).1
      (r.status = 401 ↔ admits key a.authorization = false) ∧
      (r.status = 429 ↔ admits key a.authorization = true ∧ ∃ u, a.route.limited? = some u ∧
        N ≤ ((answered before).filter fun e => passed u e && decide (a.now - e.1.now < W * 1000000000)).length)) ∧
    (∀ u start, ((answered arrivals).filter fun e => passed u e &&
      decide (start ≤ e.1.now ∧ e.1.now < start + W * 1000000000)).length ≤ N) ∧
    (∀ k, key = some k →
      ((∃ header, admits key (some header) = true) ↔ trim k.toList = k.toList ∧ k.toList.all visible = true)) ∧
    ∀ loopback host, validateBindSecurity loopback host (apiKeyConfigured var) false = .ok () →
      isLoopbackHost loopback host = false → ∃ k, key = some k := by
  intro key M s answered
  have hdulls : M.Dulls turnedAway Alike := alike_dulls
  obtain ⟨houtputs, hend⟩ := hdulls.outputs (.refl h s)
  refine ⟨⟨houtputs, hend.world.symm⟩, ?_, fun u start => ?_, fun k hk => ?_, fun loopback host hbind hhost => ?_⟩
  · rintro before a after rfl
    intro r
    have hordered : (before ++ [a]).Pairwise fun a b => a.now ≤ b.now := by
      rw [← List.singleton_append, ← List.append_assoc] at h
      exact (List.pairwise_append.mp h).1
    have hcount (hkey : admits key a.authorization = true) (u : String) (hu : a.route.limited? = some u) :
        comesThrough key (M.run s before).limiter a = true ↔
          ((answered before).filter fun e => passed u e && decide (a.now - e.1.now < W * 1000000000)).length < N :=
      comesThrough_iff hordered hkey hu
    cases hthrough : comesThrough key (M.run s before).limiter a with
    | true =>
      have hkey : admits key a.authorization = true := (Bool.and_eq_true_iff.mp hthrough).1
      have haway : turnedAway r = false := by rw [turnedAway_step, hthrough]; rfl
      obtain ⟨h401, h429⟩ : r.status ≠ 401 ∧ r.status ≠ 429 := by simpa [turnedAway] using haway
      refine ⟨⟨fun h => absurd h h401, fun h => ?_⟩, ⟨fun h => absurd h h429, ?_⟩⟩
      · rw [hkey] at h
        cases h
      · rintro ⟨-, u, hu, hfull⟩
        exact absurd ((hcount hkey u hu).mp hthrough) (Nat.not_lt.mpr hfull)
    | false =>
      have hstatus : r.status = if admits key a.authorization then 429 else 401 := (step_away hthrough).1
      rw [hstatus]
      cases hkey : admits key a.authorization with
      | false => simp
      | true =>
        simp only [if_true, Nat.reduceEqDiff, reduceCtorEq, true_and, true_iff]
        cases hu : a.route.limited? with
        | none => simp [comesThrough, hkey, hu] at hthrough
        | some u =>
          refine ⟨u, rfl, Nat.not_lt.mp fun hfew => ?_⟩
          rw [(hcount hkey u hu).mpr hfew] at hthrough
          cases hthrough
  · refine Nat.le_trans (Nat.le_of_eq (count_passed s u arrivals
      fun t => decide (start ≤ t ∧ t < start + W * 1000000000))) ?_
    exact RateLimiter.accepted_bounded (limiterCalls_ordered h) N W u start
  · rw [hk]
    exact admits_some k
  · refine Option.isSome_iff_exists.mp ?_
    rw [isSome_getApiKey]
    cases hset : apiKeyConfigured var with
    | true => rfl
    | false => simp [validateBindSecurity, hset, hhost] at hbind

/-- A request without the key, one without a message, and one too many. -/
def threeArrivals : List Arrival :=
  let header := some ("Bearer k".toList.map fun c => c.toNat.toUInt8)
  [⟨none, .health, 0⟩, ⟨header, .invoke "u" " ", 1⟩, ⟨header, .invoke "u" "hi", 2⟩]

/-- The one in the middle is answered as if it were alone. -/
theorem gateway_sound_three :
    let M := server .plain .unary (Env.asksFor []) (getApiKey (some "k"))
    let s : State := ⟨.fresh ⟨[]⟩ 0, .new 1 60⟩
    (M.outputs s threeArrivals).map (·.status) = [401, 400, 429] ∧
      M.outputs s (M.lively turnedAway s threeArrivals) =
        (M.outputs s threeArrivals).filter fun r => !turnedAway r :=
  ⟨by decide +kernel, (gateway_sound .plain .unary (Env.asksFor []) (some "k") 1 60 (.fresh ⟨[]⟩ 0) threeArrivals
    (by decide +kernel)).1.1⟩

end Gateway

end AgentVerse
