import AgentVerse.Agent.Confinement

/-!
# Two runs, as one user sees them

In two runs a user makes the same calls, and whenever one of these calls has its turn, the environment makes the same
choices (`SessionRun.AgreesFor`). What the calls of all other users are, and when they have their turns, may differ.
`Indistinct` relates the two runs as far as the user is concerned: a turn of another user's call in either run keeps it
(`Indistinct.other`), as long as its sweep of the working memory spares the conversations that are in use, and so does
a turn that the user's call takes in both (`Indistinct.same`).
-/

namespace AgentVerse

open Effects

/-! ### Runs -/

/-- A run of session operations: what the environment chooses, the ids that are drawn, which are distinct, the calls,
and whose turn it is. -/
structure SessionRun (ι : Type) where
  env : Env
  draw : Nat → Uuid
  distinct : draw.Injective
  clock : Nat
  calls : ι → SessionCall
  schedule : List ι

/-- What the environment chooses for one request. -/
structure Moment where
  clock : Nat
  id : Uuid
  storeError : Option String
  queueError : Option String
  generate : Nat → GenerateRequest → Except ModelError GenerateResponse
  joinOrder : (calls : List ToolCall) → Schedule calls
  tool : Dispatch → TaskEnd
  cutsOff : Bool
  retrieve : Except String (List String)
  longtermWrite : Except String Unit
  summaries : String

abbrev SessionPool (ι : Type) : Type := Pool ι Reply World AgentError SessionResult

namespace SessionRun

variable {ι : Type} (R : SessionRun ι)

abbrev handler : Handler Reply World := handleDrawn R.env R.draw

/-- What is chosen for the next request. -/
def moment (w : World) : Moment where
  clock := w.clock + R.env.elapse w.steps
  id := R.draw w.steps
  storeError := R.env.storeError w.steps
  queueError := R.env.queueError w.steps
  generate := R.env.generate w.steps
  joinOrder := R.env.joinOrder w.steps
  tool := R.env.tool w.steps
  cutsOff := R.env.cutsOff w.steps
  retrieve := R.env.retrieve w.steps
  longtermWrite := R.env.longtermWrite w.steps
  summaries := R.env.summaries w.steps

/-- All calls are there and none has begun. -/
def start (agent : Agent) (skills : SkillRegistry) : SessionPool ι :=
  ⟨fun i => agent.sessionProgram (R.calls i), ⟨World.fresh skills R.clock, []⟩⟩

/-- The calls of a user. -/
def of (userId : String) (i : ι) : Bool := (R.calls i).userId = userId

section Final

variable [DecidableEq ι] (agent : Agent) (skills : SkillRegistry)

def final : SessionPool ι := (R.start agent skills).run R.handler R.schedule

/-- The turns that are taken, with what the environment chooses for them. -/
def moments : List (ι × Moment) := (R.start agent skills).turns R.handler R.moment R.schedule

/-- The user's calls are the same, and at their turns the environment chooses the same. -/
structure AgreesFor (userId : String) (R' : SessionRun ι) : Prop where
  calls : ∀ i, R.of userId i = true ∨ R'.of userId i = true → R.calls i = R'.calls i
  ttl : R.env.cacheTtl = R'.env.cacheTtl
  turns : Pool.lowTurns (R.of userId) (R.moments agent skills) = Pool.lowTurns (R.of userId) (R'.moments agent skills)

end Final

end SessionRun

variable {ι : Type}

/-- What the calls of a user asked, with the histories that their turns start from. -/
def askedBy (low : ι → Bool) (v : AgentView ι) : List (ι × Request × Option (List Message)) :=
  (v.trace.filter fun x => low x.1).map fun x => (x.1, x.2.1, historyTaken? x.2)

/-- A turn of the session has its history and has not ended. -/
def InUse (low : ι → Bool) (calls : ι → SessionCall) (P : SessionPool ι) (sid : SessionId) : Prop :=
  ∃ i, low i = true ∧ (calls i).invokes = some sid ∧ TookHistory P.view i ∧ (P.threads i).result?.isNone = true

/-- When another user's call sweeps the working memory, the conversations of the user that are in use have not expired. -/
def Unswept (userId : String) (R : SessionRun ι) (P : SessionPool ι) (i : ι) : Prop :=
  match P.threads i with
  | .ask (.cacheStore ..) _ => R.of userId i = false → ∀ e ∈ P.view.state.cache, e.1.1 = userId →
      InUse (R.of userId) R.calls P e.1.2 → e.2.live R.env.cacheTtl (P.view.state.clock + R.env.elapse P.view.state.steps)
  | _ => True

/-! ### One run -/

/-- The calls of a run keep their terms. -/
structure Confined (agent : Agent) (R : SessionRun ι) (P : SessionPool ι) : Prop where
  registered : Registered R.draw P.view
  safe : ∀ i, (ownership R.draw R.calls).Safe R.handler i (After fun _ _ => True) (P.threads i) P.view
  initial : ∀ i, Unasked i P.view → P.threads i = agent.sessionProgram (R.calls i)

variable {agent : Agent} {skills : SkillRegistry} {R : SessionRun ι} {P : SessionPool ι} {v : AgentView ι} {i j : ι}
  {q : Request} {k : Reply q → M AgentError SessionResult} {sid : SessionId} {userId : String}

theorem unasked_after {h : Handler Reply World} : Unasked i (v.after h j q) ↔ Unasked i v ∧ j ≠ i := by
  simp only [Unasked, View.after_trace, List.mem_append, List.mem_singleton]
  constructor
  · exact fun hv => ⟨fun x hx => hv x (.inl hx), hv _ (.inr rfl)⟩
  · rintro ⟨hv, hj⟩ x (hx | rfl)
    · exact hv x hx
    · exact hj

theorem confined_start : Confined agent R (R.start agent skills) := by
  have hregistered : Registered R.draw (R.start agent skills).view := {
    unique := List.nodup_nil
    linked := fun sid _ => rfl
    enrolled := fun r hr => nomatch hr
    origin := fun sid ⟨x, hx, _⟩ => nomatch hx
    drawn := fun i id h => nomatch h
    once := fun i j id h => nomatch h
    keyed := List.nodup_nil }
  exact {
    registered := hregistered
    safe := fun i => sessionProgram_safe R.distinct agent hregistered fun x hx => nomatch hx
    initial := fun i _ => rfl }

theorem Confined.step [DecidableEq ι] (hP : Confined agent R P) (i : ι) : Confined agent R (P.step R.handler i) := by
  obtain ⟨hregistered, hsafe⟩ := Pool.step_safe hP.registered hP.safe i fun _ _ _ => trivial
  refine ⟨hregistered, hsafe, fun j hj => ?_⟩
  rcases P.ended_or_ask i with hended | ⟨q, k, hask⟩
  · rw [Pool.step_ended hended] at hj ⊢
    exact hP.initial j hj
  · rw [Pool.step_ask hask] at hj ⊢
    obtain ⟨hj, hne⟩ := unasked_after.mp hj
    exact (Function.update_of_ne (Ne.symm hne) ..).trans (hP.initial j hj)

theorem Confined.asks (hP : Confined agent R P) (hask : P.threads i = .ask q k) : OfCaller R.calls P.view i q := by
  have hsafe := hP.safe i
  rw [hask] at hsafe
  exact hsafe.guar_ask hP.registered trivial

/-- A call that has not begun and is given a session looks for its owner. -/
theorem Confined.looks (hP : Confined agent R P) (hi : Unasked i P.view) (hcall : (R.calls i).session? = some sid) :
    Checks (R.calls i).userId sid (P.threads i) := by
  rw [hP.initial i hi]
  exact sessionProgram_checks agent hcall

/-! ### What a turn does to the store -/

variable {calls : ι → SessionCall} {draw : Nat → Uuid} {env : Env}

/-- After the check, statements are about the user's own sessions. -/
theorem OfCaller.ofUser {st : Statement} (hq : OfCaller calls v i (.sql st)) (hI : Registered draw v)
    (hlook : ∀ sid, st = .selectSession sid → (calls i).session? = some sid → ¬ Unasked i v) :
    st.OfUser v.state.store (calls i).userId := by
  generalize hsql : Request.sql st = q at hq
  cases hq with
  | look hcall hfirst =>
    cases hsql
    exact absurd hfirst (hlook _ rfl hcall)
  | list hcall => cases hsql; rfl
  | @create row hcall hrow hdrew hnew =>
    cases hsql
    exact ⟨hrow, Store.row?_eq_none.mpr fun r hr hid => hnew (hid ▸ hI.enrolled r hr)⟩
  | free hnamed hq => subst hsql; exact hq.elim
  | @about sid q hcall hmine hq =>
    subst hsql
    cases st <;> first | exact ⟨_, hq, hmine⟩ | cases hq
  | append => cases hsql

/-- A turn of another user's call leaves the part of the user alone. -/
theorem OfCaller.part_other (hq : OfCaller calls v j q) (hI : Registered draw v) (hne : (calls j).userId ≠ userId) :
    (handle env q (v.state.drawing draw)).2.store.part userId = v.state.store.part userId := by
  refine store_after (p := fun s => s.part userId = v.state.store.part userId) rfl fun st hst => ?_
  subst hst
  by_cases hlook : ∃ sid, st = .selectSession sid
  · obtain ⟨sid, rfl⟩ := hlook
    rfl
  · exact st.exec_part_other hI.linked (hq.ofUser hI fun sid h => absurd ⟨sid, h⟩ hlook) hne

/-- Another user's call leaves the entries of the user alone, except for a sweep. -/
theorem OfCaller.entry_other {ttl clock : Nat} (hq : OfCaller calls v j q) (hne : (calls j).userId ≠ userId)
    (e : Option CacheEntry) : q.onEntry ttl clock (userId, sid) e = e ∨
      (∃ u s ms, q = .cacheStore u s ms) ∧ q.onEntry ttl clock (userId, sid) e = e.filter (·.live ttl clock) := by
  have hkey : ∀ s, ((calls j).userId, s) ≠ (userId, sid) := fun s h => hne (Prod.mk.inj h).1
  cases hq with
  | look | list | create => exact .inl rfl
  | free hnamed hq => cases q <;> first | exact .inl rfl | exact hq.elim
  | @about s q hcall hmine hq =>
    cases q with
    | cacheStore u s' ms =>
      obtain ⟨rfl, rfl⟩ := hq
      exact .inr ⟨⟨_, _, _, rfl⟩, if_neg (hkey _)⟩
    | cacheEvict u s' =>
      obtain ⟨rfl, rfl⟩ := hq
      exact .inl (if_neg (hkey _))
    | sql | cacheLoad => exact .inl rfl
    | _ => exact hq.elim
  | append => exact .inl (if_neg (hkey _))

/-! ### The relation -/

/-- The two runs have the same calls of the user, those that satisfy `low`. -/
structure SameCalls (userId : String) (low : ι → Bool) (R R' : SessionRun ι) : Prop where
  ours : R.of userId = low
  theirs : R'.of userId = low
  same : ∀ i, low i = true → R.calls i = R'.calls i
  ttl : R.env.cacheTtl = R'.env.cacheTtl

/-- The two pools are the same to the user. -/
structure Indistinct (agent : Agent) (userId : String) (low : ι → Bool) (R R' : SessionRun ι) (P P' : SessionPool ι) :
    Prop where
  left : Confined agent R P
  right : Confined agent R' P'
  threads : ∀ i, low i = true → P.threads i = P'.threads i
  asked : askedBy low P.view = askedBy low P'.view
  stored : P.view.state.store.part userId = P'.view.state.store.part userId
  skills : P.view.state.skills = P'.view.state.skills
  cached : ∀ sid, SameEntry R.env.cacheTtl (max P.view.state.clock P'.view.state.clock)
    (P.view.state.cache.lookup (userId, sid)) (P'.view.state.cache.lookup (userId, sid))
  held : ∀ sid, InUse low R.calls P sid →
    P.view.state.cache.lookup (userId, sid) = P'.view.state.cache.lookup (userId, sid)

variable {low : ι → Bool} {R' : SessionRun ι} {P' : SessionPool ι} {v' : AgentView ι}

theorem SameCalls.symm (hc : SameCalls userId low R R') : SameCalls userId low R' R :=
  ⟨hc.theirs, hc.ours, fun i hi => (hc.same i hi).symm, hc.ttl.symm⟩

theorem SameCalls.user (hc : SameCalls userId low R R') : low i = true ↔ (R.calls i).userId = userId := by
  rw [← hc.ours, SessionRun.of, decide_eq_true_iff]

theorem askedBy_after {h : Handler Reply World} : askedBy low (v.after h j q) =
    askedBy low v ++ if low j = true then [(j, q, historyTaken? ⟨q, (h q v.state).1⟩)] else [] := by
  simp only [askedBy, View.after_trace, List.filter_append, List.map_append]
  cases hj : low j <;> simp [hj]

theorem took_iff (h : askedBy low v = askedBy low v') (hi : low i = true) : TookHistory v i ↔ TookHistory v' i := by
  have hread : ∀ v : AgentView ι, TookHistory v i ↔ ∃ y ∈ askedBy low v, y.1 = i ∧ y.2.2.isSome = true := by
    intro v
    constructor
    · rintro ⟨x, hx, rfl, htook⟩
      exact ⟨_, List.mem_map.mpr ⟨x, List.mem_filter.mpr ⟨hx, hi⟩, rfl⟩, rfl, htook⟩
    · rintro ⟨y, hy, hyi, htook⟩
      obtain ⟨x, hx, rfl⟩ := List.mem_map.mp hy
      exact ⟨x, List.mem_of_mem_filter hx, hyi, htook⟩
  rw [hread, hread, h]

theorem unasked_iff (h : askedBy low v = askedBy low v') (hi : low i = true) : Unasked i v ↔ Unasked i v' := by
  have hread : ∀ v : AgentView ι, Unasked i v ↔ ∀ y ∈ askedBy low v, y.1 ≠ i := by
    intro v
    constructor
    · intro hv y hy
      obtain ⟨x, hx, rfl⟩ := List.mem_map.mp hy
      exact hv x (List.mem_of_mem_filter hx)
    · intro hv x hx hxi
      exact hv _ (List.mem_map.mpr ⟨x, List.mem_filter.mpr ⟨hx, hxi ▸ hi⟩, rfl⟩) hxi
  rw [hread, hread, h]

theorem Indistinct.inUse (hc : SameCalls userId low R R') (h : Indistinct agent userId low R R' P P')
    (hu : InUse low R'.calls P' sid) : InUse low R.calls P sid := by
  obtain ⟨i, hi, hcall, htook, hopen⟩ := hu
  refine ⟨i, hi, ?_, (took_iff h.asked hi).mpr htook, ?_⟩
  · rw [hc.same i hi]
    exact hcall
  · rw [h.threads i hi]
    exact hopen

theorem Indistinct.symm (hc : SameCalls userId low R R') (h : Indistinct agent userId low R R' P P') :
    Indistinct agent userId low R' R P' P where
  left := h.right
  right := h.left
  threads i hi := (h.threads i hi).symm
  asked := h.asked.symm
  stored := h.stored.symm
  skills := h.skills.symm
  cached sid := by
    rw [← hc.ttl, Nat.max_comm]
    exact (h.cached sid).symm
  held sid hu := (h.held sid (h.inUse hc hu)).symm

/-- What a turn does to an entry. -/
theorem lookup_after {key : String × SessionId} (hkeyed : v.state.Keyed) :
    (v.after (handleDrawn env draw) j q).state.cache.lookup key =
      q.onEntry env.cacheTtl (v.state.clock + env.elapse v.state.steps) key (v.state.cache.lookup key) :=
  entry_after (w := v.state.drawing draw) hkeyed q

theorem clock_after : (v.after (handleDrawn env draw) j q).state.clock = v.state.clock + env.elapse v.state.steps :=
  handle_clock q (v.state.drawing draw)

theorem skills_after : (v.after (handleDrawn env draw) j q).state.skills = v.state.skills :=
  handle_skills q (v.state.drawing draw)

/-- Another call has its turn: what is in use stays in use. -/
theorem InUse.of_other [DecidableEq ι] (hj : low j = false) (hask : P.threads j = .ask q k)
    (hu : InUse low R.calls (P.step R.handler j) sid) : InUse low R.calls P sid := by
  rw [Pool.step_ask hask] at hu
  obtain ⟨i, hi, hcall, htook, hopen⟩ := hu
  have hne : i ≠ j := fun h => by rw [h, hj] at hi; cases hi
  refine ⟨i, hi, hcall, (happened_other (Ne.symm hne)).mp htook, ?_⟩
  dsimp only at hopen
  rwa [Function.update_of_ne hne] at hopen

/-- A turn of another user's call. -/
theorem Indistinct.other [DecidableEq ι] (hc : SameCalls userId low R R') (h : Indistinct agent userId low R R' P P')
    (hj : low j = false) (hC : Unswept userId R P j) :
    Indistinct agent userId low R R' (P.step R.handler j) P' := by
  rcases P.ended_or_ask j with hended | ⟨q, k, hask⟩
  · rw [Pool.step_ended hended]
    exact h
  have hq := h.left.asks hask
  have hne : (R.calls j).userId ≠ userId := fun hu => by
    rw [hc.user.mpr hu] at hj
    cases hj
  have hview : (P.step R.handler j).view = P.view.after R.handler j q := by rw [Pool.step_ask hask]
  refine { left := h.left.step j, right := h.right, threads := ?_, asked := ?_, stored := ?_, skills := ?_, cached := ?_,
           held := ?_ }
  · intro i hi
    rw [← h.threads i hi, Pool.step_ask hask]
    exact Function.update_of_ne (fun hij => by rw [hij, hj] at hi; cases hi) ..
  · rw [hview, askedBy_after, hj, if_neg Bool.false_ne_true, List.append_nil]
    exact h.asked
  · rw [hview]
    exact (hq.part_other h.left.registered hne).trans h.stored
  · rw [hview, skills_after]
    exact h.skills
  · intro sid
    have hsame : SameEntry R.env.cacheTtl (max (P.view.state.clock + R.env.elapse P.view.state.steps)
        P'.view.state.clock) (P.view.state.cache.lookup (userId, sid)) (P'.view.state.cache.lookup (userId, sid)) :=
      (h.cached sid).mono (by omega)
    rw [hview, lookup_after h.left.registered.keyed, clock_after]
    rcases hq.entry_other hne (P.view.state.cache.lookup (userId, sid)) with hkept | ⟨-, hswept⟩
    · rw [hkept]
      exact hsame
    · rw [hswept]
      exact hsame.swept (by omega)
  · intro sid hu
    have hu := hu.of_other hj hask
    rw [hview, lookup_after h.left.registered.keyed, ← h.held sid hu]
    rcases hq.entry_other hne (P.view.state.cache.lookup (userId, sid)) with hkept | ⟨⟨u, s, ms, rfl⟩, hswept⟩
    · exact hkept
    · rw [hswept]
      unfold Unswept at hC
      rw [hask, hc.ours] at hC
      cases he : P.view.state.cache.lookup (userId, sid) with
      | none => rfl
      | some e => simp [Option.filter, hC hj _ (mem_of_lookup he) rfl hu]

/-! ### A turn that both take -/

/-- Two statements of a user that fail or succeed together have the same result and do the same to the user's part. -/
theorem statement_same {st : Statement} (w w' : World) (herr : R.env.storeError w.steps = R'.env.storeError w'.steps)
    (hstored : w.store.part userId = w'.store.part userId) (hlinked : ∀ sid, w.store.Linked sid)
    (hlinked' : ∀ sid, w'.store.Linked sid) (hst : st.OfUser w.store userId) (hst' : st.OfUser w'.store userId) :
    (handle R.env (.sql st) w).1 = (handle R'.env (.sql st) w').1 ∧
      (handle R.env (.sql st) w).2.store.part userId = (handle R'.env (.sql st) w').2.store.part userId := by
  obtain ⟨hresult, hpart⟩ := st.exec_part hlinked hst
  obtain ⟨hresult', hpart'⟩ := st.exec_part hlinked' hst'
  cases he : R.env.storeError w.steps with
  | some e =>
    rw [handle_sql_error st he, handle_sql_error st (herr.symm.trans he)]
    exact ⟨rfl, hstored⟩
  | none =>
    rw [handle_sql_ok st he, handle_sql_ok st (herr.symm.trans he)]
    constructor
    · exact hresult.symm.trans ((congrArg (fun s => (st.exec s).1) hstored).trans hresult')
    · exact hpart.symm.trans ((congrArg (fun s => (st.exec s).2.part userId) hstored).trans hpart')

/-- The row of a session in the part of a user is the row, if it is the user's. -/
theorem Registered.row_part (hI : Registered draw v) : (v.state.store.part userId).row? sid =
    (v.state.store.row? sid).filter fun r => r.userId = userId := by
  cases hrow : v.state.store.row? sid with
  | none =>
    refine Store.row?_eq_none.mpr fun r hr => ?_
    exact Store.row?_eq_none.mp hrow r (Store.mem_part.mp hr).1
  | some r =>
    have hmine := (hI.belongs (List.mem_of_find?_eq_some hrow)).2
    rw [Store.row?_id hrow] at hmine
    by_cases hu : r.userId = userId
    · rw [hu] at hmine
      rw [Store.row?_part hmine, hrow]
      simp [Option.filter, hu]
    · rw [Store.row?_part_none hmine hu]
      simp [Option.filter, hu]

/-- A look that does not find a row of the user. -/
theorem foreign_of_filter {o : Option SessionRow} (h : o.filter (fun r => r.userId = userId) = none) :
    Foreign userId (.ok (o.map SessionRow.toSession)) := by
  intro session hs
  obtain ⟨r, rfl, rfl⟩ := Option.map_eq_some_iff.mp (Except.ok.inj hs)
  intro hu
  have huser : r.userId = userId := hu
  simp [Option.filter, huser] at h

/-- Two looks for the owner that fail or succeed together, over the same sessions of the user, go on alike. -/
theorem look_same (w w' : World) {k : Except String (Option Session) → M AgentError SessionResult}
    (hk : ∀ r, Foreign userId r → k r = .fail (refusal sid r))
    (herr : R.env.storeError w.steps = R'.env.storeError w'.steps)
    (hrow : (w.store.row? sid).filter (fun r => r.userId = userId) = (w'.store.row? sid).filter fun r => r.userId = userId) :
    k (handle R.env (.sql (.selectSession sid)) w).1 = k (handle R'.env (.sql (.selectSession sid)) w').1 := by
  cases he : R.env.storeError w.steps with
  | some e => rw [handle_sql_error _ he, handle_sql_error _ (herr.symm.trans he)]
  | none =>
    rw [handle_sql_ok _ he, handle_sql_ok _ (herr.symm.trans he)]
    simp only [Statement.exec]
    cases hmine : (w.store.row? sid).filter fun r => r.userId = userId with
    | none => rw [hk _ (foreign_of_filter hmine), hk _ (foreign_of_filter (hrow.symm.trans hmine))]; rfl
    | some r =>
      rw [(Option.filter_eq_some_iff.mp hmine).1, (Option.filter_eq_some_iff.mp (hrow.symm.trans hmine)).1]

section Same

variable (hc : SameCalls userId low R R') (h : Indistinct agent userId low R R' P P') (hi : low i = true)
  (hmoment : R.moment P.view.state = R'.moment P'.view.state)

include hc h hi hmoment

omit hc hi in
/-- At a turn that both take, the entries are the same at the same time. -/
theorem Indistinct.entry (sid : SessionId) : SameEntry R.env.cacheTtl (R.moment P.view.state).clock
    (P.view.state.cache.lookup (userId, sid)) (P'.view.state.cache.lookup (userId, sid)) := by
  have hclock : P.view.state.clock + R.env.elapse P.view.state.steps =
      P'.view.state.clock + R'.env.elapse P'.view.state.steps := congrArg Moment.clock hmoment
  refine (h.cached sid).mono ?_
  show _ ≤ P.view.state.clock + R.env.elapse P.view.state.steps
  omega

/-- The user's statement in both runs. -/
theorem Indistinct.statement {st : Statement} {k : Reply (.sql st) → M AgentError SessionResult} (hask : P.threads i = .ask (.sql st) k)
    (hlook : ∀ sid, (R.calls i).session? = some sid → ¬ Unasked i P.view) :
    (R.handler (.sql st) P.view.state).1 = (R'.handler (.sql st) P'.view.state).1 ∧
      (R.handler (.sql st) P.view.state).2.store.part userId =
        (R'.handler (.sql st) P'.view.state).2.store.part userId := by
  have hmine := (h.left.asks hask).ofUser h.left.registered fun sid _ => hlook sid
  have hmine' := (h.right.asks ((h.threads i hi).symm.trans hask)).ofUser h.right.registered fun sid _ hcall hun =>
    hlook sid (by rw [hc.same i hi]; exact hcall) ((unasked_iff h.asked hi).mpr hun)
  rw [← hc.same i hi] at hmine'
  rw [hc.user.mp hi] at hmine hmine'
  exact statement_same (P.view.state.drawing R.draw) (P'.view.state.drawing R'.draw)
    (congrArg Moment.storeError hmoment) h.stored h.left.registered.linked h.right.registered.linked hmine hmine'

/-- In both runs the call gets the same reply, once it is past the check. -/
theorem Indistinct.reply (hask : P.threads i = .ask q k)
    (hlook : ∀ sid, (R.calls i).session? = some sid → ¬ Unasked i P.view) :
    (R.handler q P.view.state).1 = (R'.handler q P'.view.state).1 := by
  have hq := h.left.asks hask
  have hu := hc.user.mp hi
  cases q with
  | now => exact congrArg Moment.clock hmoment
  | newUuid => exact congrArg Moment.id hmoment
  | sql st => exact (h.statement hc hi hmoment hask hlook).1
  | cacheLoad u s =>
    have hkey : u = userId := by
      cases hq with
      | free hnamed hq => exact hq.elim
      | about hcall hmine hq => exact hq.1.trans hu
    subst hkey
    have hclock : P.view.state.clock + R.env.elapse P.view.state.steps =
        P'.view.state.clock + R'.env.elapse P'.view.state.steps := congrArg Moment.clock hmoment
    have hread := (h.entry hmoment s).read
    show ((P.view.state.drawing R.draw).tick R.env).cached R.env.cacheTtl (u, s) =
      ((P'.view.state.drawing R'.draw).tick R'.env).cached R'.env.cacheTtl (u, s)
    rw [World.cached_eq, World.cached_eq, ← hc.ttl]
    refine congrArg (Option.map _) (hread.trans ?_)
    show Option.filter (CacheEntry.live _ (P.view.state.clock + R.env.elapse P.view.state.steps)) _ = _
    rw [hclock]
    rfl
  | cacheStore | cacheAppendTurn | cacheEvict => rfl
  | submit s kind =>
    have herr : R.env.queueError P.view.state.steps = R'.env.queueError P'.view.state.steps :=
      congrArg Moment.queueError hmoment
    have hid : R.draw P.view.state.steps = R'.draw P'.view.state.steps := congrArg Moment.id hmoment
    show (queueOp (R.env.queueError P.view.state.steps) _ (.ok (R.draw P.view.state.steps), _)).1 =
      (queueOp (R'.env.queueError P'.view.state.steps) _ (.ok (R'.draw P'.view.state.steps), _)).1
    rw [herr, hid]
    cases R'.env.queueError P'.view.state.steps <;> rfl
  | resolve | poll | sweepExpired =>
    cases hq with
    | free hnamed hq => exact hq.elim
    | about hcall hmine hq => exact hq.elim
  | readSkills => exact h.skills
  | readSummaries => exact congrArg Moment.summaries hmoment
  | generate depth req => exact congrFun (congrFun (congrArg Moment.generate hmoment) depth) req
  | joinSet depth calls => exact congrFun (congrArg Moment.joinOrder hmoment) calls
  | executeRaw d => exact congrFun (congrArg Moment.tool hmoment) d
  | enterSubagent d => rfl
  | deadline => exact congrArg Moment.cutsOff hmoment
  | retrieve u text limit => exact congrArg Moment.retrieve hmoment
  | longtermWrite u content source => exact congrArg Moment.longtermWrite hmoment

/-- A turn that both take, with what it needs of the request and its replies. -/
private theorem Indistinct.advance [DecidableEq ι] (hask : P.threads i = .ask q k)
    (hcont : k (R.handler q P.view.state).1 = k (R'.handler q P'.view.state).1)
    (hhistory : historyTaken? ⟨q, (R.handler q P.view.state).1⟩ = historyTaken? ⟨q, (R'.handler q P'.view.state).1⟩)
    (hpart : (R.handler q P.view.state).2.store.part userId = (R'.handler q P'.view.state).2.store.part userId)
    (happend : ∀ sid m m', q = .cacheAppendTurn userId sid m m' →
      P.view.state.cache.lookup (userId, sid) = P'.view.state.cache.lookup (userId, sid))
    (htake : (historyTaken? ⟨q, (R.handler q P.view.state).1⟩).isSome = true → ∀ sid, (R.calls i).invokes = some sid →
      q.onEntry R.env.cacheTtl (R.moment P.view.state).clock (userId, sid) (P.view.state.cache.lookup (userId, sid)) =
        q.onEntry R.env.cacheTtl (R.moment P.view.state).clock (userId, sid)
          (P'.view.state.cache.lookup (userId, sid))) :
    Indistinct agent userId low R R' (P.step R.handler i) (P'.step R'.handler i) := by
  have hask' : P'.threads i = .ask q k := (h.threads i hi).symm.trans hask
  have hclock : P.view.state.clock + R.env.elapse P.view.state.steps =
      P'.view.state.clock + R'.env.elapse P'.view.state.steps := congrArg Moment.clock hmoment
  have hlookup : ∀ sid, (P.view.after R.handler i q).state.cache.lookup (userId, sid) =
      q.onEntry R.env.cacheTtl (R.moment P.view.state).clock (userId, sid) (P.view.state.cache.lookup (userId, sid)) :=
    fun sid => lookup_after h.left.registered.keyed
  have hlookup' : ∀ sid, (P'.view.after R'.handler i q).state.cache.lookup (userId, sid) =
      q.onEntry R.env.cacheTtl (R.moment P.view.state).clock (userId, sid) (P'.view.state.cache.lookup (userId, sid)) := by
    intro sid
    rw [lookup_after h.right.registered.keyed, ← hclock, ← hc.ttl]
    rfl
  have hleft := h.left.step i
  have hright := h.right.step i
  rw [Pool.step_ask hask] at hleft ⊢
  rw [Pool.step_ask hask'] at hright ⊢
  refine { left := hleft, right := hright, threads := ?_, asked := ?_, stored := hpart, skills := ?_, cached := ?_,
           held := ?_ }
  · intro j hj
    by_cases hji : j = i
    · subst hji
      simpa using hcont
    · simp only [Function.update_of_ne hji]
      exact h.threads j hj
  · rw [askedBy_after, askedBy_after, h.asked, hhistory]
  · exact skills_after.trans (h.skills.trans skills_after.symm)
  · intro sid
    have hmax : max (P.view.after R.handler i q).state.clock (P'.view.after R'.handler i q).state.clock =
        (R.moment P.view.state).clock := by
      rw [clock_after, clock_after, ← hclock, Nat.max_self]
      rfl
    rw [hlookup, hlookup', hmax]
    exact (h.entry hmoment sid).onEntry fun m m' => happend sid m m'
  · intro sid hu
    rw [hlookup, hlookup']
    obtain ⟨j, hj, hcall, htook, hopen⟩ := hu
    by_cases hji : j = i
    · subst hji
      rcases happened_after.mp htook with htook | ⟨-, htook⟩
      · rw [h.held sid ⟨j, hj, hcall, htook, by rw [hask]; rfl⟩]
      · exact htake htook sid hcall
    · dsimp only at hopen
      rw [Function.update_of_ne hji] at hopen
      rw [h.held sid ⟨j, hj, hcall, (happened_other (Ne.symm hji)).mp htook, hopen⟩]

/-- A turn that the user's call takes in both runs. -/
theorem Indistinct.both [DecidableEq ι] : Indistinct agent userId low R R' (P.step R.handler i) (P'.step R'.handler i) := by
  rcases P.ended_or_ask i with hended | ⟨q, k, hask⟩
  · have hended' : ∀ q k, P'.threads i ≠ .ask q k := by
      rw [← h.threads i hi]
      exact hended
    rw [Pool.step_ended hended, Pool.step_ended hended']
    exact h
  -- The first request looks the session up, which shows a row of its owner only; later ones are the user's own.
  by_cases hlook : ∃ sid, (R.calls i).session? = some sid ∧ Unasked i P.view
  · obtain ⟨sid, hcall, hunasked⟩ := hlook
    obtain ⟨k₀, hlooks, hk₀⟩ := h.left.looks hunasked hcall
    rw [hc.user.mp hi] at hk₀
    have hrow : (P.view.state.store.row? sid).filter (fun r => r.userId = userId) =
        (P'.view.state.store.row? sid).filter fun r => r.userId = userId := by
      rw [← h.left.registered.row_part, ← h.right.registered.row_part, h.stored]
    refine h.advance hc hi hmoment hlooks ?_ rfl ?_ (fun _ _ _ hq => nomatch hq) fun htook => by cases htook
    · exact look_same (P.view.state.drawing R.draw) (P'.view.state.drawing R'.draw) hk₀
        (congrArg Moment.storeError hmoment) hrow
    · have hleft : (handle R.env (.sql (.selectSession sid)) (P.view.state.drawing R.draw)).2.store = P.view.state.store :=
        Request.Idle.store (q := .sql (.selectSession sid)) trivial _
      have hright : (handle R'.env (.sql (.selectSession sid)) (P'.view.state.drawing R'.draw)).2.store =
          P'.view.state.store := Request.Idle.store (q := .sql (.selectSession sid)) trivial _
      show Store.part (handle _ _ _).2.store userId = Store.part (handle _ _ _).2.store userId
      rw [hleft, hright]
      exact h.stored
  · have hsettled : ∀ sid, (R.calls i).session? = some sid → ¬ Unasked i P.view := fun sid hcall hun => hlook ⟨sid, hcall, hun⟩
    have hreply := h.reply hc hi hmoment hask hsettled
    have hq := h.left.asks hask
    refine h.advance hc hi hmoment hask (congrArg k hreply) (by rw [hreply]) ?_ ?_ ?_
    · by_cases hsql : ∃ st, q = .sql st
      · obtain ⟨st, rfl⟩ := hsql
        exact (h.statement hc hi hmoment hask hsettled).2
      · show Store.part (handle _ _ _).2.store userId = Store.part (handle _ _ _).2.store userId
        rw [handle_store fun st hst => hsql ⟨st, hst⟩, handle_store fun st hst => hsql ⟨st, hst⟩]
        exact h.stored
    · rintro sid m m' rfl
      obtain ⟨hcall, htook⟩ := hq.appends
      exact h.held sid ⟨i, hi, hcall, htook, by rw [hask]; rfl⟩
    · intro htook sid hcall
      have hsession := SessionCall.session?_of_invokes hcall
      cases q with
      | cacheLoad u s =>
        obtain ⟨hu, hs⟩ := hq.entry rfl
        obtain rfl : u = userId := hu.trans (hc.user.mp hi)
        obtain rfl : sid = s := hs sid hsession
        rcases h.entry hmoment sid with heq | ⟨hexpired, -⟩
        · exact heq
        · -- what has expired is not read
          have hmiss : (R.handler (.cacheLoad u sid) P.view.state).1 = none := by
            show ((P.view.state.drawing R.draw).tick R.env).cached R.env.cacheTtl (u, sid) = none
            rw [World.cached_eq]
            exact congrArg (Option.map _) hexpired.filter
          rw [hmiss] at htook
          cases htook
      | cacheStore u s ms =>
        obtain ⟨hu, hs⟩ := hq.entry rfl
        obtain rfl : u = userId := hu.trans (hc.user.mp hi)
        obtain rfl : sid = s := hs sid hsession
        exact (if_pos rfl).trans (if_pos rfl).symm
      | cacheEvict u s =>
        obtain ⟨hu, hs⟩ := hq.entry rfl
        obtain rfl : u = userId := hu.trans (hc.user.mp hi)
        obtain rfl : sid = s := hs sid hsession
        exact (if_pos rfl).trans (if_pos rfl).symm
      | _ => cases htook

end Same

end AgentVerse
