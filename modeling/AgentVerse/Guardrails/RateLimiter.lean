import Mathlib.Data.List.Induction
import Mathlib.Logic.Function.Basic
import AgentVerse.Effects.Machine

/-!
# Rate limiter

The limiter keeps, for each user, the instants of the accepted calls that were in the window at the user's last call.
At any later instant these are the accepted calls that are in the window then (`Tracks`), so a call is rejected exactly
when the window behind it is full, and no window of the same length holds more calls than allowed.
-/

namespace AgentVerse

open Effects

inductive GuardrailError where
  | promptInjection (message : String)
  | outputFiltered (message : String)
  | actionBlocked (message : String)
  | rateLimited (message : String)
  deriving DecidableEq

def GuardrailError.display : GuardrailError → String
  | promptInjection m => "Prompt injection: " ++ m
  | outputFiltered m => "Output filtered: " ++ m
  | actionBlocked m => "Action blocked: " ++ m
  | rateLimited m => "Rate limited: " ++ m

/-- `RateLimiter`, with instants in nanoseconds. A user without an entry has no requests. -/
structure RateLimiter where
  limits : String → List Nat
  defaultMaxRequests : Nat
  defaultWindowSeconds : Nat

namespace RateLimiter

def new (defaultMaxRequests defaultWindowSeconds : Nat) : RateLimiter :=
  ⟨fun _ => [], defaultMaxRequests, defaultWindowSeconds⟩

/-- `Duration::from_secs(default_window_seconds)`. -/
def window (l : RateLimiter) : Nat := l.defaultWindowSeconds * 1000000000

/-- The requests of a user that are in the window at `now`. An earlier instant has elapsed by nothing. -/
def recent (window now : Nat) (requests : List Nat) : List Nat := requests.filter fun t => now - t < window

/-- Check if a user is within their rate limit. -/
def check (l : RateLimiter) (userId : String) (now : Nat) : Except GuardrailError Unit × RateLimiter :=
  let requests := recent l.window now (l.limits userId)
  if requests.length ≥ l.defaultMaxRequests then
    (.error (.rateLimited ("User " ++ userId ++ " exceeded rate limit: " ++ toString l.defaultMaxRequests ++
        " requests per " ++ toString l.defaultWindowSeconds ++ "s")),
      { l with limits := Function.update l.limits userId requests })
  else (.ok (), { l with limits := Function.update l.limits userId (requests ++ [now]) })

/-- The limiter as a machine that reads calls, each with its user and its instant. -/
def machine : Machine (String × Nat) (Except GuardrailError Unit) RateLimiter := ⟨fun l call => l.check call.1 call.2⟩

/-- The instants of a user's accepted calls. -/
def accepted (l : RateLimiter) (userId : String) (calls : List (String × Nat)) : List Nat :=
  ((calls.zip (machine.outputs l calls)).filter fun x => x.1.1 = userId && x.2.isOk).map (·.1.2)

/-- The verdicts on a user's calls. -/
def verdicts (l : RateLimiter) (userId : String) (calls : List (String × Nat)) : List (Except GuardrailError Unit) :=
  ((calls.zip (machine.outputs l calls)).filter fun x => x.1.1 = userId).map (·.2)

/-! ### One call -/

variable {l : RateLimiter} {userId u : String} {now : Nat}

/-- A call is rejected, or it is accepted and kept. -/
theorem check_cases (l : RateLimiter) (userId : String) (now : Nat) :
    (l.defaultMaxRequests ≤ (recent l.window now (l.limits userId)).length ∧ ∃ e, l.check userId now =
      (.error e, { l with limits := Function.update l.limits userId (recent l.window now (l.limits userId)) })) ∨
    ((recent l.window now (l.limits userId)).length < l.defaultMaxRequests ∧ l.check userId now =
      (.ok (),
        { l with limits := Function.update l.limits userId (recent l.window now (l.limits userId) ++ [now]) })) := by
  by_cases hfull : (recent l.window now (l.limits userId)).length ≥ l.defaultMaxRequests
  · exact .inl ⟨hfull, _, if_pos hfull⟩
  · exact .inr ⟨Nat.not_le.mp hfull, if_neg hfull⟩

theorem check_isOk : (l.check userId now).1.isOk = true ↔
    (recent l.window now (l.limits userId)).length < l.defaultMaxRequests := by
  rcases l.check_cases userId now with ⟨hfull, e, hcheck⟩ | ⟨hfree, hcheck⟩
  · rw [hcheck]
    simpa [Except.isOk, Except.toBool] using hfull
  · rw [hcheck]
    simpa [Except.isOk, Except.toBool] using hfree

/-- The requests that are kept for a user after a call. -/
theorem check_limits : (l.check userId now).2.limits u =
    if u = userId then
      recent l.window now (l.limits u) ++ (if (l.check userId now).1.isOk then [now] else [])
    else l.limits u := by
  rcases l.check_cases userId now with ⟨-, e, hcheck⟩ | ⟨-, hcheck⟩
  · rw [hcheck]
    by_cases hu : u = userId
    · subst hu
      simp [Except.isOk, Except.toBool]
    · simp [hu]
  · rw [hcheck]
    by_cases hu : u = userId
    · subst hu
      simp [Except.isOk, Except.toBool]
    · simp [hu]

theorem check_settings : (l.check userId now).2.window = l.window ∧
    (l.check userId now).2.defaultMaxRequests = l.defaultMaxRequests := by
  rcases l.check_cases userId now with ⟨-, e, hcheck⟩ | ⟨-, hcheck⟩
  · rw [hcheck]
    exact ⟨rfl, rfl⟩
  · rw [hcheck]
    exact ⟨rfl, rfl⟩

theorem run_settings (calls : List (String × Nat)) : (machine.run l calls).window = l.window ∧
    (machine.run l calls).defaultMaxRequests = l.defaultMaxRequests := by
  induction calls generalizing l with
  | nil => exact ⟨rfl, rfl⟩
  | cons c calls ih =>
    obtain ⟨hwindow, hmax⟩ := ih (l := (l.check c.1 c.2).2)
    exact ⟨hwindow.trans check_settings.1, hmax.trans check_settings.2⟩

theorem accepted_append (calls : List (String × Nat)) (c : String × Nat) :
    accepted l u (calls ++ [c]) = accepted l u calls ++
      (if c.1 = u && ((machine.run l calls).check c.1 c.2).1.isOk then [c.2] else []) := by
  unfold accepted
  rw [Machine.outputs_append, List.zip_append (by simp), List.filter_append, List.map_append]
  congr 1
  show List.map _ (List.filter _ [(c, ((machine.run l calls).check c.1 c.2).1)]) = _
  rw [List.filter_cons]
  split
  · rfl
  · rfl

/-! ### The window -/

theorem recent_append (window now : Nat) (l₁ l₂ : List Nat) :
    recent window now (l₁ ++ l₂) = recent window now l₁ ++ recent window now l₂ := List.filter_append ..

/-- What is in the window later is in it now. -/
theorem recent_recent {window now later : Nat} (h : now ≤ later) (requests : List Nat) :
    recent window later (recent window now requests) = recent window later requests := by
  unfold recent
  rw [List.filter_filter]
  refine List.filter_congr fun t _ => ?_
  have himp : later - t < window → now - t < window := by omega
  by_cases hlater : later - t < window
  · simp [hlater, himp hlater]
  · simp [hlater]

/-- At every instant after the calls, the requests that are kept and in the window are the accepted ones. -/
theorem recent_limits {calls : List (String × Nat)} (h : calls.Pairwise fun c d => c.2 ≤ d.2) (N W : Nat) (u : String)
    {later : Nat} (hlater : ∀ c ∈ calls, c.2 ≤ later) :
    recent (new N W).window later ((machine.run (new N W) calls).limits u) =
      recent (new N W).window later (accepted (new N W) u calls) := by
  induction calls using List.reverseRecOn generalizing later with
  | nil => rfl
  | append_singleton calls c ih =>
    obtain ⟨hcalls, -, hbefore⟩ := List.pairwise_append.mp h
    have hc : c.2 ≤ later := hlater c (by simp)
    have hbefore : ∀ d ∈ calls, d.2 ≤ c.2 := fun d hd => hbefore d hd c (by simp)
    have hkept := ih hcalls hbefore
    rw [accepted_append, recent_append, Machine.run_append]
    show recent _ later (((machine.run (new N W) calls).check c.1 c.2).2.limits u) = _
    rw [check_limits, (run_settings calls).1]
    by_cases hu : u = c.1
    · subst hu
      rw [if_pos rfl, recent_append, hkept, recent_recent hc]
      simp
    · have hother : ∀ d ∈ calls, d.2 ≤ later := fun d hd => hlater d (List.mem_append_left _ hd)
      rw [if_neg hu, ih hcalls hother]
      simp [Ne.symm hu, recent]

/-- A call is accepted exactly if fewer than `N` calls of its user were accepted in the window behind it. -/
theorem check_isOk_iff {calls : List (String × Nat)} {c : String × Nat}
    (h : (calls ++ [c]).Pairwise fun c d => c.2 ≤ d.2) (N W : Nat) :
    ((machine.run (new N W) calls).check c.1 c.2).1.isOk = true ↔
      (recent (new N W).window c.2 (accepted (new N W) c.1 calls)).length < N := by
  obtain ⟨hcalls, -, hbefore⟩ := List.pairwise_append.mp h
  have hbefore : ∀ d ∈ calls, d.2 ≤ c.2 := fun d hd => hbefore d hd c (by simp)
  rw [check_isOk, (run_settings calls).1, (run_settings calls).2, recent_limits hcalls N W c.1 hbefore]
  rfl

/-- No window holds more than `N` accepted calls of a user. -/
theorem accepted_bounded {calls : List (String × Nat)} (h : calls.Pairwise fun c d => c.2 ≤ d.2) (N W : Nat)
    (u : String) (start : Nat) :
    ((accepted (new N W) u calls).filter fun t => start ≤ t ∧ t < start + (new N W).window).length ≤ N := by
  induction calls using List.reverseRecOn with
  | nil => simp [accepted]
  | append_singleton calls c ih =>
    obtain ⟨hcalls, -, hbefore⟩ := List.pairwise_append.mp h
    have hrest := ih hcalls
    rw [accepted_append, List.filter_append, List.length_append]
    by_cases hnew : (c.1 = u && ((machine.run (new N W) calls).check c.1 c.2).1.isOk) = true
    · obtain ⟨hu, hok⟩ := Bool.and_eq_true_iff.mp hnew
      obtain rfl : c.1 = u := by simpa using hu
      rw [if_pos hnew]
      by_cases hin : start ≤ c.2 ∧ c.2 < start + (new N W).window
      · -- every earlier call of the window is still in the window behind the new one
        have hfree := (check_isOk_iff h N W).mp hok
        have hsub : ((accepted (new N W) c.1 calls).filter
            fun t => start ≤ t ∧ t < start + (new N W).window).length ≤
              (recent (new N W).window c.2 (accepted (new N W) c.1 calls)).length := by
          refine (List.monotone_filter_right _ fun t ht => ?_).length_le
          have hmem : start ≤ t ∧ t < start + (new N W).window := by simpa using ht
          have hrecent : c.2 - t < (new N W).window := by omega
          simpa using hrecent
        have hone : ([c.2].filter fun t => start ≤ t ∧ t < start + (new N W).window).length ≤ 1 :=
          List.length_filter_le _ _
        omega
      · rw [List.filter_cons_of_neg (by simpa using hin)]
        exact hrest
    · rw [if_neg hnew]
      exact hrest

/-! ### Other users -/

/-- Limiters that are alike for one user. -/
structure Alike (u : String) (l l' : RateLimiter) : Prop where
  limits : l.limits u = l'.limits u
  max : l.defaultMaxRequests = l'.defaultMaxRequests
  seconds : l.defaultWindowSeconds = l'.defaultWindowSeconds

variable {l' : RateLimiter}

theorem Alike.verdict (h : Alike u l l') (now : Nat) : (l.check u now).1 = (l'.check u now).1 := by
  unfold check window
  rw [h.limits, h.max, h.seconds]
  dsimp only
  split
  · rfl
  · rfl

theorem Alike.next (h : Alike u l l') (now : Nat) : Alike u (l.check u now).2 (l'.check u now).2 := by
  unfold check window
  rw [h.limits, h.max, h.seconds]
  dsimp only
  split
  · exact ⟨by simp, rfl, rfl⟩
  · exact ⟨by simp, rfl, rfl⟩

/-- A call of another user makes no difference. -/
theorem Alike.other (h : Alike u l l') (hu : u ≠ userId) (now : Nat) : Alike u (l.check userId now).2 l' := by
  refine ⟨?_, check_settings.2.trans h.max, ?_⟩
  · rw [check_limits, if_neg hu, h.limits]
  · rcases l.check_cases userId now with ⟨-, e, hcheck⟩ | ⟨-, hcheck⟩
    · rw [hcheck]
      exact h.seconds
    · rw [hcheck]
      exact h.seconds

/-- The verdicts on a user's calls are the verdicts on them alone. -/
theorem verdicts_alone (h : Alike u l l') (calls : List (String × Nat)) :
    verdicts l u calls = machine.outputs l' (calls.filter fun c => c.1 = u) := by
  induction calls generalizing l l' with
  | nil => rfl
  | cons c calls ih =>
    obtain ⟨userId, now⟩ := c
    have hcons : verdicts l u ((userId, now) :: calls) =
        (if userId = u then [(l.check userId now).1] else []) ++ verdicts (l.check userId now).2 u calls := by
      unfold verdicts
      rw [Machine.outputs, List.zip_cons_cons, List.filter_cons]
      by_cases hu : userId = u
      · rw [if_pos (by simpa using hu), if_pos hu]
        rfl
      · rw [if_neg (by simpa using hu), if_neg hu]
        rfl
    rw [hcons, List.filter_cons]
    by_cases hu : userId = u
    · subst hu
      have hrest := ih (h.next now)
      rw [if_pos rfl, if_pos (by simp), hrest, h.verdict]
      rfl
    · have hrest := ih (h.other (Ne.symm hu) now)
      rw [if_neg hu, if_neg (by simpa using hu), hrest, List.nil_append]

/-! ### Runs -/

/-- In every run of calls at times that do not decrease: no half-open interval of the length of the window holds more
than `N` accepted calls of a user, a call is rejected exactly if `N` calls of its user were accepted less than the
window earlier, and the verdicts for a user are the same whatever others call. -/
theorem sliding_window (N W : Nat) (calls : List (String × Nat)) (h : calls.Pairwise fun c d => c.2 ≤ d.2) :
    (∀ userId start, ((accepted (new N W) userId calls).filter
      fun t => start ≤ t ∧ t < start + W * 1000000000).length ≤ N) ∧
    (∀ before userId now after, calls = before ++ (userId, now) :: after →
      (((machine.run (new N W) before).check userId now).1.isOk = false ↔
        N ≤ ((accepted (new N W) userId before).filter fun t => now - t < W * 1000000000).length)) ∧
    ∀ userId, verdicts (new N W) userId calls = machine.outputs (new N W) (calls.filter fun c => c.1 = userId) := by
  refine ⟨fun userId start => accepted_bounded h N W userId start, ?_, fun userId => ?_⟩
  · rintro before userId now after rfl
    have hsplit : (before ++ [(userId, now)]).Pairwise fun c d => c.2 ≤ d.2 := by
      rw [← List.singleton_append, ← List.append_assoc] at h
      exact (List.pairwise_append.mp h).1
    have hok := check_isOk_iff hsplit N W
    rw [← Bool.not_eq_true, hok, Nat.not_lt]
    rfl
  · exact verdicts_alone ⟨rfl, rfl, rfl⟩ calls

/-- Two calls at once and one after a window. -/
theorem sliding_window_three : accepted (new 1 60) "a" [("a", 5), ("b", 5), ("a", 5), ("a", 60000000005)] =
    [5, 60000000005] ∧
    ((accepted (new 1 60) "a" [("a", 5), ("b", 5), ("a", 5), ("a", 60000000005)]).filter
      fun t => 5 ≤ t ∧ t < 5 + 60 * 1000000000).length ≤ 1 :=
  ⟨by decide, (sliding_window 1 60 _ (by decide)).1 "a" 5⟩

end RateLimiter

end AgentVerse
