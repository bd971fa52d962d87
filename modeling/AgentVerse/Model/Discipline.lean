import AgentVerse.Model.Attempts

/-!
# Retry, breaker and fallback of a model call

A call of `generate` bounds the attempts of every manager, has each attempt reported to the breaker, retries transient
failures and tries the configured fallbacks exactly when it can read every response body
(`generate_disciplined_iff`): a body that cannot be read ends the call at once, unreported. Each part is an induction
over the ways the call can go.
-/

namespace AgentVerse

open Effects

section Goes

open Http

variable {req : GenerateRequest} {d : Nat} {t : List Event} {r : Except ModelError GenerateResponse}

/-! ### What a bout adds -/

namespace Http

/-- What is asked before the first attempt. -/
def lead (t : List Event) : List Event := t.takeWhile fun e => !isSend e

def isConsult : Event → Bool
  | ⟨.canExecute .., _⟩ => true
  | _ => false

private theorem pauses_quiet {pauses : List Event} (hp : ∀ x ∈ pauses, ∃ ms, x = ⟨.sleep ms, ()⟩) :
    (∀ x ∈ pauses, isSend x = false ∧ isConsult x = false) ∧ pauses.filterMap report? = [] := by
  constructor
  · intro x hx
    obtain ⟨ms, rfl⟩ := hp x hx
    exact ⟨rfl, rfl⟩
  · rw [List.filterMap_eq_nil_iff]
    intro x hx
    obtain ⟨ms, rfl⟩ := hp x hx
    rfl

/-- The outcome of an attempt whose body was read. -/
theorem Attempt.outcome_read (p : ModelProvider) (depth depth' : Nat) (resp : Response) (text : String)
    (l : List Event) :
    (Attempt.mk depth (.ok resp) (⟨.readBody depth', .ok text⟩ :: l)).outcome p =
      if resp.status.code = 429 then some .rateLimited
      else if resp.status.isSuccess then
        match p.parseResponse text with
        | .ok _ => some .parsed
        | .error _ => some .unparsable
      else some .failed := rfl

/-- A bout begins with its only send, calls no manager, and tells how it ended. -/
theorem Bout.parts {c : Connection} {o : Outcome} {b : List Event} (hb : Bout c d o b) :
    ∃ post reply rest, b = ⟨.send d post, reply⟩ :: rest ∧
      (∀ x ∈ rest, isSend x = false ∧ isConsult x = false) ∧
      (∀ l, (Attempt.mk d reply (rest ++ l)).outcome c.provider = some o) ∧
      rest.filterMap report? = if o = .bodyError then [] else [(c.circuitBreaker, o.verdict)] := by
  cases hb with
  | @sendError post e pauses hp =>
    obtain ⟨hq, hr⟩ := pauses_quiet hp
    refine ⟨post, .error e, _, rfl, ?_, fun _ => rfl, ?_⟩
    · simpa [isSend, isConsult] using hq
    · show (c.circuitBreaker, Report.failure) :: pauses.filterMap report? = _
      rw [hr]
      rfl
  | @bodyError post resp e =>
    exact ⟨post, .ok resp, _, rfl, by simp [isSend, isConsult], fun _ => rfl, rfl⟩
  | @rateLimited post resp text pauses hs hp =>
    obtain ⟨hq, hr⟩ := pauses_quiet hp
    refine ⟨post, .ok resp, _, rfl, ?_, fun l => ?_, ?_⟩
    · simpa [isSend, isConsult] using hq
    · exact (Attempt.outcome_read ..).trans (if_pos hs)
    · show (c.circuitBreaker, Report.failure) :: pauses.filterMap report? = _
      rw [hr]
      rfl
  | @failed post resp text hs hf =>
    refine ⟨post, .ok resp, _, rfl, by simp [isSend, isConsult], fun l => ?_, rfl⟩
    exact (Attempt.outcome_read ..).trans (by simp [hs, hf])
  | @unparsable post resp text e hs hf he =>
    refine ⟨post, .ok resp, _, rfl, by simp [isSend, isConsult], fun l => ?_, rfl⟩
    exact (Attempt.outcome_read ..).trans (by simp [hs, hf, he])
  | @parsed post resp text a hs hf ha =>
    refine ⟨post, .ok resp, _, rfl, by simp [isSend, isConsult], fun l => ?_, rfl⟩
    exact (Attempt.outcome_read ..).trans (by simp [hs, hf, ha])

private theorem attempts_quiet {l t : List Event} (hl : ∀ x ∈ l, isSend x = false) :
    attempts (l ++ t) = attempts t := by
  induction l with
  | nil => rfl
  | cons x l ih =>
    have hrest : attempts (l ++ t) = attempts t := ih fun y hy => hl y (List.mem_cons_of_mem _ hy)
    have hx := hl x (List.mem_cons_self ..)
    obtain ⟨q, r⟩ := x
    cases q with
    | send => cases hx
    | _ => exact hrest

/-- A bout is an attempt of its manager, whatever comes after it. -/
theorem Bout.attempts_append {c : Connection} {o : Outcome} {b : List Event} (hb : Bout c d o b) (t : List Event) :
    ∃ a, attempts (b ++ t) = a :: attempts t ∧ a.depth = d ∧ a.outcome c.provider = some o ∧
      a.reports = (if o = .bodyError then [] else [(c.circuitBreaker, o.verdict)]) ++
        (lead t).filterMap report? := by
  obtain ⟨post, reply, rest, rfl, hq, ho, hr⟩ := hb.parts
  have hlead : lead (rest ++ t) = rest ++ lead t :=
    List.takeWhile_append_of_pos fun x hx => by rw [(hq x hx).1]; rfl
  refine ⟨⟨d, reply, rest ++ lead t⟩, ?_, rfl, ho _, ?_⟩
  · rw [← hlead, ← attempts_quiet (t := t) fun x hx => (hq x hx).1]
    rfl
  · rw [Attempt.reports, List.filterMap_append, hr]

/-- A bout calls no manager. -/
theorem Bout.consulted_append {c : Connection} {o : Outcome} {b : List Event} (hb : Bout c d o b) {d' : Nat}
    {t : List Event} : Consulted d' (b ++ t) ↔ Consulted d' t := by
  obtain ⟨post, reply, rest, rfl, hq, -, -⟩ := hb.parts
  constructor
  · rintro ⟨br, r, hx⟩
    rw [List.cons_append, List.mem_cons, List.mem_append] at hx
    rcases hx with hx | hx | hx
    · cases hx
    · exact absurd (hq _ hx).2 (by simp [isConsult])
    · exact ⟨br, r, hx⟩
  · rintro ⟨br, r, hx⟩
    exact ⟨br, r, List.mem_append_right _ hx⟩

/-! ### Induction over the ways to go -/

theorem BodiesRead.of_append {t t' : List Event} (h : BodiesRead (t ++ t')) : BodiesRead t ∧ BodiesRead t' :=
  ⟨fun x hx => h x (List.mem_append_left _ hx), fun x hx => h x (List.mem_append_right _ hx)⟩

theorem BodiesRead.of_cons {x : Event} {t : List Event} (h : BodiesRead (x :: t)) : BodiesRead t :=
  fun y hy => h y (List.mem_cons_of_mem _ hy)

theorem Bout.ne_bodyError {c : Connection} {o : Outcome} {b : List Event} (hb : Bout c d o b)
    (h : BodiesRead b) : o ≠ .bodyError := by
  rintro rfl
  cases hb with
  | @bodyError post resp e => exact h ⟨.readBody d, .error e⟩ (by simp) e rfl

theorem Bout.attempts_eq {c : Connection} {o : Outcome} {b : List Event} (hb : Bout c d o b) :
    ∃ a, attempts b = [a] ∧ a.depth = d ∧ a.outcome c.provider = some o ∧
      a.reports = if o = .bodyError then [] else [(c.circuitBreaker, o.verdict)] := by
  obtain ⟨a, ha, hd, ho, hr⟩ := hb.attempts_append []
  refine ⟨a, ?_, hd, ho, ?_⟩
  · rw [List.append_nil] at ha
    exact ha
  · rw [hr]
    exact List.append_nil _

/-- The attempt of a bout has its outcome. -/
theorem Bout.outcome_eq {c c' : Connection} {cs : List Connection} {o o' : Outcome} {b : List Event} (hb : Bout c d o b)
    {a : Attempt} (ha : a ∈ attempts b) {j : Nat} (hd : a.depth = d + j) (hc : (c :: cs)[j]? = some c')
    (ho : a.outcome c'.provider = some o') : o' = o := by
  obtain ⟨a₀, ha₀, hd₀, ho₀, -⟩ := hb.attempts_eq
  obtain rfl : a = a₀ := by simpa [ha₀] using ha
  obtain rfl : j = 0 := by omega
  obtain rfl : c = c' := by simpa using hc
  exact Option.some.inj (ho.symm.trans ho₀)

theorem attemptsOf_cons (e : Nat) (a : Attempt) (as : List Attempt) :
    attemptsOf e (a :: as) = attemptsOf e as + if a.depth = e then 1 else 0 := by
  simp [attemptsOf, List.countP_cons]

theorem attemptsOf_eq_zero {e : Nat} {as : List Attempt} (h : ∀ a ∈ as, e < a.depth) : attemptsOf e as = 0 := by
  rw [attemptsOf, List.countP_eq_zero]
  intro a ha
  have := h a ha
  simp only [decide_eq_true_eq]
  omega

variable {cs : List Connection} {ph : Phase}

/-- The managers that were called before make no more attempts. -/
theorem Goes.depth_le (hg : Goes req d cs ph t r) : ∀ a ∈ attempts t, d ≤ a.depth := by
  induction hg with
  | noFallback => simp [attempts]
  | unbuilt => simp [attempts]
  | tripped _ ih =>
    intro a ha
    have := ih a ha
    omega
  | admitted _ ih => exact ih
  | spent _ ih =>
    intro a ha
    have := ih a ha
    omega
  | again _ hb _ _ ih =>
    obtain ⟨a, ha, hd, -, -⟩ := hb.attempts_append _
    rw [ha, List.forall_mem_cons]
    exact ⟨by omega, ih⟩
  | handedOver _ hb _ ih =>
    obtain ⟨a, ha, hd, -, -⟩ := hb.attempts_append _
    rw [ha, List.forall_mem_cons]
    refine ⟨by omega, fun a' ha' => ?_⟩
    have := ih a' ha'
    omega
  | answered _ hb =>
    obtain ⟨a, ha, hd, -, -⟩ := hb.attempts_eq
    simp [ha, hd]
  | refused _ hb _ =>
    obtain ⟨a, ha, hd, -, -⟩ := hb.attempts_eq
    simp [ha, hd]

/-- The attempts that a manager has made in its loop. -/
def Phase.made : Phase → Nat
  | .calling => 0
  | .looping k => k

/-- What is left to a manager and to those after it, once the first one is done. -/
private theorem bounded_tail {d : Nat} {c : Connection} {cs : List Connection} {as : List Attempt}
    (hd : ∀ a ∈ as, d + 1 ≤ a.depth)
    (ih : ∀ j c, cs[j]? = some c →
      attemptsOf (d + 1 + j) as ≤ c.maxRetries + 1 - if j = 0 then Phase.calling.made else 0) :
    ∀ j c', (c :: cs)[j]? = some c' → attemptsOf (d + j) as ≤ if j = 0 then 0 else c'.maxRetries + 1 := by
  intro j c' hc
  cases j with
  | zero => simp [attemptsOf_eq_zero hd]
  | succ j =>
    have := ih j c' hc
    rw [show d + (j + 1) = d + 1 + j by omega]
    cases j <;> simpa [Phase.made] using this

/-- The last attempt of a call. -/
private theorem bounded_last {d k : Nat} {c : Connection} {cs : List Connection} {a : Attempt}
    (hk : k ≤ c.maxRetries) (hd : a.depth = d) :
    ∀ j c', (c :: cs)[j]? = some c' → attemptsOf (d + j) [a] ≤ c'.maxRetries + 1 - if j = 0 then k else 0 := by
  intro j c' hc
  rw [attemptsOf_cons, hd]
  cases j with
  | zero =>
    obtain rfl : c = c' := by simpa using hc
    simp only [attemptsOf, List.countP_nil, if_true, Nat.add_zero]
    omega
  | succ j => simp [attemptsOf]

/-- No manager makes more attempts than it has left. -/
theorem Goes.bounded (hg : Goes req d cs ph t r) :
    ∀ j c, cs[j]? = some c →
      attemptsOf (d + j) (attempts t) ≤ c.maxRetries + 1 - if j = 0 then ph.made else 0 := by
  induction hg with
  | noFallback => simp
  | unbuilt => simp [attempts, attemptsOf]
  | tripped ht ih =>
    intro j c' hc
    refine Nat.le_trans (bounded_tail ht.depth_le ih j c' hc) ?_
    split <;> simp
  | admitted _ ih => exact ih
  | spent ht ih =>
    intro j c' hc
    refine Nat.le_trans (bounded_tail ht.depth_le ih j c' hc) ?_
    split <;> simp
  | @again d c cs k o b t r hk hb _ _ ih =>
    obtain ⟨a, ha, hd, -, -⟩ := hb.attempts_append t
    intro j c' hc
    have hrest := ih j c' hc
    rw [ha, attemptsOf_cons, hd]
    cases j with
    | zero =>
      obtain rfl : c = c' := by simpa using hc
      simp only [Phase.made, if_true, Nat.add_zero] at hrest ⊢
      omega
    | succ j => simpa using hrest
  | @handedOver d c cs k b t r hk hb ht ih =>
    obtain ⟨a, ha, hd, -, -⟩ := hb.attempts_append t
    intro j c' hc
    have hrest := bounded_tail ht.depth_le ih j c' hc
    rw [ha, attemptsOf_cons, hd]
    cases j with
    | zero =>
      obtain rfl : c = c' := by simpa using hc
      simp only [Phase.made, if_true, Nat.add_zero] at hrest ⊢
      omega
    | succ j => simpa using hrest
  | answered hk hb =>
    obtain ⟨a, ha, hd, -, -⟩ := hb.attempts_eq
    rw [ha]
    exact bounded_last hk hd
  | refused hk hb =>
    obtain ⟨a, ha, hd, -, -⟩ := hb.attempts_eq
    rw [ha]
    exact bounded_last hk hd

/-- Nothing is reported before the first attempt. -/
theorem Goes.lead_quiet (hg : Goes req d cs ph t r) : (lead t).filterMap report? = [] := by
  induction hg with
  | noFallback => rfl
  | unbuilt => rfl
  | tripped _ ih => exact ih
  | admitted _ ih => exact ih
  | spent _ ih => exact ih
  | again _ hb =>
    obtain ⟨_, _, _, rfl, -⟩ := hb.parts
    rfl
  | handedOver _ hb =>
    obtain ⟨_, _, _, rfl, -⟩ := hb.parts
    rfl
  | answered _ hb =>
    obtain ⟨_, _, _, rfl, -⟩ := hb.parts
    rfl
  | refused _ hb =>
    obtain ⟨_, _, _, rfl, -⟩ := hb.parts
    rfl

/-- If every body can be read, every attempt reports its verdict to the breaker of its manager, and nothing else. -/
theorem Goes.reported (hg : Goes req d cs ph t r) (hbr : BodiesRead t) :
    ∀ a ∈ attempts t, ∃ j c o, a.depth = d + j ∧ cs[j]? = some c ∧ a.outcome c.provider = some o ∧
      a.reports = [(c.circuitBreaker, o.verdict)] := by
  have hnext : ∀ {d : Nat} {c : Connection} {cs : List Connection} {a : Attempt},
      (∃ j c o, a.depth = d + 1 + j ∧ cs[j]? = some c ∧ a.outcome c.provider = some o ∧
        a.reports = [(c.circuitBreaker, o.verdict)]) →
      ∃ j c' o, a.depth = d + j ∧ (c :: cs)[j]? = some c' ∧ a.outcome c'.provider = some o ∧
        a.reports = [(c'.circuitBreaker, o.verdict)] := by
    rintro d c cs a ⟨j, c', o, hd, h⟩
    exact ⟨j + 1, c', o, by omega, h⟩
  induction hg with
  | noFallback => simp [attempts]
  | unbuilt => simp [attempts]
  | tripped _ ih => exact fun a ha => hnext (ih hbr.of_cons a ha)
  | admitted _ ih => exact ih hbr.of_cons
  | spent _ ih => exact fun a ha => hnext (ih hbr a ha)
  | @again d c cs k o b t r _ hb _ ht ih =>
    obtain ⟨a, ha, hd, ho, hr⟩ := hb.attempts_append t
    rw [if_neg (hb.ne_bodyError hbr.of_append.1), ht.lead_quiet, List.append_nil] at hr
    rw [ha, List.forall_mem_cons]
    exact ⟨⟨0, c, o, hd, rfl, ho, hr⟩, ih hbr.of_append.2⟩
  | @handedOver d c cs k b t r _ hb ht ih =>
    obtain ⟨a, ha, hd, ho, hr⟩ := hb.attempts_append t
    rw [if_neg (hb.ne_bodyError hbr.of_append.1), ht.lead_quiet, List.append_nil] at hr
    rw [ha, List.forall_mem_cons]
    exact ⟨⟨0, c, _, hd, rfl, ho, hr⟩, fun a' ha' => hnext (ih hbr.of_append.2 a' ha')⟩
  | @answered d c cs k b x _ hb =>
    obtain ⟨a, ha, hd, ho, hr⟩ := hb.attempts_eq
    rw [ha, List.forall_mem_singleton]
    exact ⟨0, c, _, hd, rfl, ho, hr⟩
  | @refused d c cs k o b e _ hb _ =>
    obtain ⟨a, ha, hd, ho, hr⟩ := hb.attempts_eq
    rw [if_neg (hb.ne_bodyError hbr)] at hr
    rw [ha, List.forall_mem_singleton]
    exact ⟨0, c, o, hd, rfl, ho, hr⟩

/-- A loop with attempts left begins with one. -/
theorem Goes.next {c : Connection} {k : Nat} (hg : Goes req d (c :: cs) (.looping k) t r) (hk : k ≤ c.maxRetries) :
    ∃ a as, attempts t = a :: as ∧ a.depth = d := by
  cases hg with
  | spent => omega
  | again _ hb _ _ =>
    obtain ⟨a, ha, hd, -, -⟩ := hb.attempts_append _
    exact ⟨a, _, ha, hd⟩
  | handedOver _ hb _ =>
    obtain ⟨a, ha, hd, -, -⟩ := hb.attempts_append _
    exact ⟨a, _, ha, hd⟩
  | answered _ hb =>
    obtain ⟨a, ha, hd, -, -⟩ := hb.attempts_eq
    exact ⟨a, [], ha, hd⟩
  | refused _ hb _ =>
    obtain ⟨a, ha, hd, -, -⟩ := hb.attempts_eq
    exact ⟨a, [], ha, hd⟩

/-- `retried`, for a manager that has already made `ph.made` attempts. -/
theorem Goes.retried (hg : Goes req d cs ph t r) (hbr : BodiesRead t) :
    ∀ pre a post j c o, attempts t = pre ++ a :: post → a.depth = d + j → cs[j]? = some c →
      a.outcome c.provider = some o → o.transient →
      (attemptsOf a.depth pre + if j = 0 then ph.made else 0) < c.maxRetries →
      ∃ b, post.head? = some b ∧ b.depth = a.depth := by
  -- The attempt is of the manager at distance `j`; it is the first event of the chain, or one of the rest.
  induction hg with
  | noFallback => simp
  | unbuilt => simp [attempts]
  | @tripped d c cs t r ht ih =>
    intro pre a post j c' o ha hd hc ho htr hlt
    cases j with
    | zero =>
      have := ht.depth_le a (ha ▸ List.mem_append_right _ (List.mem_cons_self ..))
      omega
    | succ j => exact ih hbr.of_cons pre a post j c' o ha (by omega) hc ho htr (by simpa [Phase.made] using hlt)
  | admitted _ ih => exact ih hbr.of_cons
  | @spent d c cs t r ht ih =>
    intro pre a post j c' o ha hd hc ho htr hlt
    cases j with
    | zero =>
      have := ht.depth_le a (ha ▸ List.mem_append_right _ (List.mem_cons_self ..))
      omega
    | succ j => exact ih hbr pre a post j c' o ha (by omega) hc ho htr (by simpa [Phase.made] using hlt)
  | @again d c cs k o b t r hk hb _ ht ih =>
    obtain ⟨a₀, ha₀, hd₀, -, -⟩ := hb.attempts_append t
    intro pre a post j c' o' ha hd hc ho htr hlt
    rw [ha₀] at ha
    cases pre with
    | nil =>
      obtain ⟨rfl, rfl⟩ := List.cons.inj ha
      obtain rfl : j = 0 := by omega
      obtain rfl : c = c' := by simpa using hc
      simp only [attemptsOf, List.countP_nil, if_true, Phase.made] at hlt
      obtain ⟨a₁, as, ha₁, hd₁⟩ := ht.next (by omega)
      exact ⟨a₁, by rw [ha₁]; rfl, by omega⟩
    | cons x pre =>
      obtain ⟨rfl, hpost⟩ := List.cons.inj ha
      refine ih hbr.of_append.2 pre a post j c' o' hpost hd hc ho htr ?_
      rw [attemptsOf_cons, hd₀, hd] at hlt
      rw [hd]
      cases j with
      | zero =>
        simp only [Phase.made, if_true, Nat.add_zero] at hlt ⊢
        omega
      | succ j => simpa using hlt
  | @handedOver d c cs k b t r hk hb ht ih =>
    obtain ⟨a₀, ha₀, hd₀, ho₀, -⟩ := hb.attempts_append t
    intro pre a post j c' o' ha hd hc ho htr hlt
    rw [ha₀] at ha
    cases pre with
    | nil =>
      obtain ⟨rfl, rfl⟩ := List.cons.inj ha
      obtain rfl : j = 0 := by omega
      obtain rfl : c = c' := by simpa using hc
      obtain rfl := Option.some.inj (ho₀.symm.trans ho)
      simp [Outcome.transient] at htr
    | cons x pre =>
      obtain ⟨rfl, hpost⟩ := List.cons.inj ha
      cases j with
      | zero =>
        have := ht.depth_le a (hpost ▸ List.mem_append_right _ (List.mem_cons_self ..))
        omega
      | succ j =>
        refine ih hbr.of_append.2 pre a post j c' o' hpost (by omega) hc ho htr ?_
        rw [attemptsOf_cons, hd₀, hd] at hlt
        rw [hd]
        simpa [Phase.made] using hlt
  | @answered d c cs k b x hk hb =>
    intro pre a post j c' o' ha hd hc ho htr _
    have hmem : a ∈ attempts b := ha ▸ List.mem_append_right pre (List.mem_cons_self ..)
    obtain rfl := hb.outcome_eq hmem hd hc ho
    simp [Outcome.transient] at htr
  | @refused d c cs k o b e hk hb hor =>
    intro pre a post j c' o' ha hd hc ho htr _
    have hmem : a ∈ attempts b := ha ▸ List.mem_append_right pre (List.mem_cons_self ..)
    obtain rfl := hb.outcome_eq hmem hd hc ho
    rcases hor with rfl | rfl
    · simp [Outcome.transient] at htr
    · exact absurd rfl (hb.ne_bodyError hbr)

theorem Bout.endsUnparsable {c c' : Connection} {o : Outcome} {b t : List Event} {e : Nat} (hb : Bout c d o b)
    (h : EndsUnparsable c' e t) : EndsUnparsable c' e (b ++ t) := by
  obtain ⟨a₀, ha₀, -⟩ := hb.attempts_append t
  obtain ⟨a, ha, h⟩ := h
  refine ⟨a, ?_, h⟩
  rw [ha₀, List.getLast?_cons, ha]
  rfl

theorem consulted_cons {b : BreakerId} {x : Bool} {e : Nat} :
    Consulted e (⟨.canExecute d b, x⟩ :: t) ↔ e = d ∨ Consulted e t := by
  constructor
  · rintro ⟨b', x', h⟩
    rcases List.mem_cons.mp h with h | h
    · cases h
      exact .inl rfl
    · exact .inr ⟨b', x', h⟩
  · rintro (rfl | ⟨b', x', h⟩)
    · exact ⟨b, x, List.mem_cons_self ..⟩
    · exact ⟨b', x', List.mem_cons_of_mem _ h⟩

/-- A chain that is called has its first manager called. -/
theorem Goes.called (hg : Goes req d cs .calling t r) (hcs : cs ≠ []) : Consulted d t := by
  cases hg with
  | noFallback => exact absurd rfl hcs
  | tripped => exact consulted_cons.mpr (.inl rfl)
  | unbuilt => exact consulted_cons.mpr (.inl rfl)
  | admitted => exact consulted_cons.mpr (.inl rfl)

/-- Once the rest of the chain is called, its managers are the ones to be excused. -/
private theorem excused_tail {d : Nat} {c : Connection} {cs : List Connection} {t : List Event}
    (hg : Goes req (d + 1) cs .calling t r)
    (ih : ∀ j c, cs[j]? = some c → (cs[j + 1]?).isSome → Consulted (d + 1 + j) t →
      ¬ Consulted (d + 1 + j + 1) t → Excused req c (d + 1 + j) t) :
    ∀ j c', (c :: cs)[j]? = some c' → ((c :: cs)[j + 1]?).isSome → (j = 0 ∨ Consulted (d + j) t) →
      ¬ Consulted (d + j + 1) t → Excused req c' (d + j) t := by
  intro j c' hc hnext hcon hnot
  cases j with
  | zero =>
    have hcs : cs ≠ [] := by
      rintro rfl
      simp at hnext
    exact absurd (hg.called hcs) hnot
  | succ j =>
    have hcon' : Consulted (d + (j + 1)) t := hcon.resolve_left (by omega)
    rw [show d + (j + 1) = d + 1 + j by omega] at hcon' hnot ⊢
    exact ih j c' hc hnext hcon' hnot

/-- `consulted`, where a manager that is in its loop has been called before. -/
theorem Goes.excused (hg : Goes req d cs ph t r) (hbr : BodiesRead t) (hr : ∀ a, r ≠ .ok a) :
    ∀ j c, cs[j]? = some c → (cs[j + 1]?).isSome → (Consulted (d + j) t ∨ (j = 0 ∧ ph ≠ .calling)) →
      ¬ Consulted (d + j + 1) t → Excused req c (d + j) t := by
  -- A manager behind the first one is excused by what comes after the hand-over.
  induction hg with
  | noFallback => simp
  | @unbuilt d c cs e he =>
    intro j c' hc _ hcon _
    have hj : j = 0 := by
      rcases hcon with hcon | ⟨hj, -⟩
      · rcases consulted_cons.mp hcon with hj | ⟨_, _, h⟩
        · omega
        · simp at h
      · exact hj
    subst hj
    obtain rfl : c = c' := by simpa using hc
    exact .inl ⟨e, he⟩
  | @tripped d c cs t r ht ih =>
    intro j c' hc hnext hcon hnot
    rw [consulted_cons, not_or] at hnot
    refine excused_tail ht (fun j c h₁ h₂ h₃ => ih hbr.of_cons hr j c h₁ h₂ (.inl h₃)) j c' hc hnext ?_ hnot.2
    rcases hcon with hcon | ⟨-, hph⟩
    · exact (consulted_cons.mp hcon).imp (by omega) id
    · exact absurd rfl hph
  | @admitted d c cs t r ht ih =>
    intro j c' hc hnext hcon hnot
    rw [consulted_cons, not_or] at hnot
    refine ih hbr.of_cons hr j c' hc hnext ?_ hnot.2
    rcases hcon with hcon | ⟨-, hph⟩
    · rcases consulted_cons.mp hcon with hj | hcon
      · exact .inr ⟨by omega, by simp⟩
      · exact .inl hcon
    · exact absurd rfl hph
  | @spent d c cs t r ht ih =>
    intro j c' hc hnext hcon hnot
    refine excused_tail ht (fun j c h₁ h₂ h₃ => ih hbr hr j c h₁ h₂ (.inl h₃)) j c' hc hnext ?_ hnot
    exact hcon.symm.imp (fun h => h.1) id
  | @again d c cs k o b t r hk hb _ ht ih =>
    intro j c' hc hnext hcon hnot
    rw [hb.consulted_append] at hcon hnot
    have hrest := ih hbr.of_append.2 hr j c' hc hnext (hcon.imp id fun h => ⟨h.1, by simp⟩) hnot
    exact hrest.imp id hb.endsUnparsable
  | @handedOver d c cs k b t r hk hb ht ih =>
    intro j c' hc hnext hcon hnot
    rw [hb.consulted_append] at hcon hnot
    have hrest := excused_tail ht (fun j c h₁ h₂ h₃ => ih hbr.of_append.2 hr j c h₁ h₂ (.inl h₃)) j c' hc hnext
      (hcon.symm.imp (fun h => h.1) id) hnot
    exact hrest.imp id hb.endsUnparsable
  | answered => exact absurd rfl (hr _)
  | @refused d c cs k o b e hk hb hor =>
    intro j c' hc _ hcon _
    have hj : j = 0 := by
      rcases hcon with hcon | ⟨hj, -⟩
      · rw [← List.append_nil b, hb.consulted_append] at hcon
        obtain ⟨_, _, h⟩ := hcon
        simp at h
      · exact hj
    subst hj
    obtain rfl : c = c' := by simpa using hc
    obtain ⟨a, ha, hd, ho, -⟩ := hb.attempts_eq
    obtain rfl := hor.resolve_right (hb.ne_bodyError hbr)
    exact .inr ⟨a, by rw [ha]; rfl, hd, ho⟩

theorem Bout.bodiesRead {c : Connection} {o : Outcome} {b : List Event} (hb : Bout c d o b)
    (ho : o ≠ .bodyError) : BodiesRead b := by
  have hpauses : ∀ pauses : List Event, (∀ x ∈ pauses, ∃ ms, x = ⟨.sleep ms, ()⟩) → BodiesRead pauses := by
    intro pauses hp x hx e he
    obtain ⟨ms, rfl⟩ := hp x hx
    cases he
  intro x hx e he
  cases hb with
  | bodyError => exact ho rfl
  | sendError hp =>
    simp only [List.mem_cons] at hx
    rcases hx with rfl | rfl | hx
    · cases he
    · cases he
    · exact hpauses _ hp x hx e he
  | rateLimited _ hp =>
    simp only [List.mem_cons] at hx
    rcases hx with rfl | rfl | rfl | hx
    · cases he
    · cases he
    · cases he
    · exact hpauses _ hp x hx e he
  | _ =>
    simp only [List.mem_cons, List.not_mem_nil, or_false] at hx
    rcases hx with rfl | rfl | rfl <;> cases he

/-- An attempt whose body cannot be read is not reported. -/
theorem Goes.unreported (hg : Goes req d cs ph t r) (hbr : ¬ BodiesRead t) :
    ∃ a ∈ attempts t, a.reports = [] := by
  have hcons : ∀ {d : Nat} {b : BreakerId} {x : Bool} {t : List Event},
      ¬ BodiesRead (⟨.canExecute d b, x⟩ :: t) → ¬ BodiesRead t := by
    intro d b x t h ht
    refine h fun y hy => ?_
    rcases List.mem_cons.mp hy with rfl | hy
    · exact fun _ h => by cases h
    · exact ht y hy
  have happend : ∀ {b t : List Event}, BodiesRead b → ¬ BodiesRead (b ++ t) → ¬ BodiesRead t :=
    fun hb h ht => h fun x hx => (List.mem_append.mp hx).elim (hb x) (ht x)
  induction hg with
  | noFallback => exact absurd (fun _ h => by cases h) hbr
  | unbuilt => exact absurd (fun _ h => by cases h) (hcons hbr)
  | tripped _ ih => exact ih (hcons hbr)
  | admitted _ ih => exact ih (hcons hbr)
  | spent _ ih => exact ih hbr
  | again _ hb ho _ ih =>
    have hne := hb.bodiesRead (by rcases ho with rfl | rfl <;> simp)
    obtain ⟨a, ha, hr⟩ := ih (happend hne hbr)
    obtain ⟨a₀, ha₀, -⟩ := hb.attempts_append _
    exact ⟨a, ha₀ ▸ List.mem_cons_of_mem _ ha, hr⟩
  | handedOver _ hb _ ih =>
    obtain ⟨a, ha, hr⟩ := ih (happend (hb.bodiesRead (by simp)) hbr)
    obtain ⟨a₀, ha₀, -⟩ := hb.attempts_append _
    exact ⟨a, ha₀ ▸ List.mem_cons_of_mem _ ha, hr⟩
  | answered _ hb => exact absurd (hb.bodiesRead (by simp)) hbr
  | refused _ hb ho =>
    rcases ho with rfl | rfl
    · exact absurd (hb.bodiesRead (by simp)) hbr
    · obtain ⟨a, ha, -, -, hr⟩ := hb.attempts_eq
      exact ⟨a, by simp [ha], hr⟩

end Http

end Goes

/-! ### Calls of a chain -/

open Http

/-- A call keeps the discipline of retries, breakers and fallbacks exactly when it can read every response body. -/
theorem generate_disciplined_iff (env : Http.Env) (w : Http.World) (cm : ConnectionManager) (req : GenerateRequest) :
    Disciplined cm.chain req ((cm.generate 0 req).asked (handle env) w)
        ((cm.generate 0 req).run (handle env) ⟨w, []⟩).1 ↔
      BodiesRead ((cm.generate 0 req).asked (handle env) w) := by
  have hg := cm.generate_goes (Prog.run_plays (handle env) (cm.generate 0 req) w)
  constructor
  · intro h
    by_contra hbr
    obtain ⟨a, ha, hnone⟩ := hg.unreported hbr
    obtain ⟨c, o, -, -, hr⟩ := h.reported a ha
    rw [hnone] at hr
    cases hr
  · intro hbr
    refine ⟨fun d c hc => ?_, fun a ha => ?_, fun pre a post c o ha hc ho htr hlt => ?_,
      fun hr d c hc hnext hcon hnot => ?_⟩
    · simpa [Phase.made] using hg.bounded d c hc
    · obtain ⟨j, c, o, hd, h⟩ := hg.reported hbr a ha
      rw [Nat.zero_add] at hd
      exact ⟨c, o, hd ▸ h⟩
    · exact hg.retried hbr pre a post a.depth c o ha (Nat.zero_add _).symm hc ho htr (by simpa [Phase.made] using hlt)
    · have h := hg.excused hbr hr d c hc hnext
      rw [Nat.zero_add] at h
      exact h (.inl hcon) hnot

/-- A manager with a fallback of its own kind. -/
def pairedManager : ConnectionManager :=
  .mk plainConnection (some (.mk { plainConnection with circuitBreaker := 1 } none))

/-- Every server answers `200 OK`, and every connection is lost while the body is read. -/
def Http.Env.cutBodies : Http.Env where
  clock := id
  send _ _ := .ok ⟨⟨200, "200 OK"⟩, none⟩
  readBody _ := .error "connection closed before message completed"

def Http.World.fresh : Http.World := ⟨fun _ => .new 5 30, 0⟩

/-- The call gives up after one attempt, which it neither reports nor retries, and leaves its fallback alone. -/
theorem generate_gives_up :
    let p := pairedManager.generate 0 ⟨none, [], none, none⟩
    let t := p.asked (handle .cutBodies) .fresh
    let r := (p.run (handle .cutBodies) ⟨.fresh, []⟩).1
    r = .error (.apiError "connection closed before message completed") ∧ (attempts t).length = 1 ∧
      ¬ Consulted 1 t ∧ ¬ Disciplined pairedManager.chain ⟨none, [], none, none⟩ t r := by
  refine ⟨rfl, rfl, ?_, fun h => ?_⟩
  · rintro ⟨b, x, hx⟩
    change _ ∈ [(⟨.canExecute 0 0, true⟩ : Event), ⟨.send 0 _, _⟩, ⟨.readBody 0, _⟩] at hx
    simp only [List.mem_cons, List.not_mem_nil, or_false] at hx
    rcases hx with hx | hx | hx <;> cases hx
  · obtain ⟨c, o, -, -, hr⟩ := h.reported _ (List.mem_cons_self ..)
    cases hr

end AgentVerse
