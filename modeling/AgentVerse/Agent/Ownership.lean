import AgentVerse.Agent.OpeningOnce
import AgentVerse.Effects.Unwinding
import AgentVerse.Session.Entries
import AgentVerse.Session.Part

/-!
# Who a session belongs to

The session operations of an agent, called by any number of users at once. Every operation that is given a session
first looks for its owner (`Checks`); what it asks after that is about a session that nobody else has, or concerns
neither the store nor the working memory (`OfCaller`). That nobody else gets the session later is due to its id, which
is drawn once (`Registered`).
-/

namespace AgentVerse

open Effects

/-! ### Calls -/

inductive SessionCall where
  | createSession (userId : String)
  | createSessionWithSkill (userId : String) (skillId : SkillId)
  | getSession (userId : String) (sid : SessionId)
  | listSessions (userId : String)
  | loadMessages (userId : String) (sid : SessionId)
  | invoke (userId : String) (sid : SessionId) (input : String)
  | resume (userId : String) (sid : SessionId) (approvalId : ApprovalId) (decision : ApprovalDecision)
  | advancePhase (userId : String) (sid : SessionId) (output : String)
  | endSession (userId : String) (sid : SessionId)
  | deleteAllUserData (userId : String)
  deriving DecidableEq

namespace SessionCall

def userId : SessionCall → String
  | createSession u | createSessionWithSkill u _ | getSession u _ | listSessions u | loadMessages u _ | invoke u ..
  | resume u .. | advancePhase u .. | endSession u _ | deleteAllUserData u => u

/-- The session that a call is given. -/
def session? : SessionCall → Option SessionId
  | getSession _ sid | loadMessages _ sid | invoke _ sid _ | resume _ sid .. | advancePhase _ sid _
  | endSession _ sid => some sid
  | _ => none

/-- The session that a call takes a turn of. -/
def invokes : SessionCall → Option SessionId
  | invoke _ sid _ => some sid
  | _ => none

end SessionCall

inductive SessionResult where
  | unit
  | created (sid : SessionId)
  | found (session : Option Session)
  | sessions (sessions : List Session)
  | messages (messages : List Message)
  | output (out : AgentOutput)
  | phase (result : Option PhaseAdvanceResult)
  deriving DecidableEq

/-- The program of a call. -/
def Agent.sessionProgram (agent : Agent) : SessionCall → M AgentError SessionResult
  | .createSession u => do return .created (← createSession u)
  | .createSessionWithSkill u s => do return .created (← agent.createSessionWithSkill u s)
  | .getSession u sid => do return .found (← getSession u sid)
  | .listSessions u => do return .sessions (← listSessions u)
  | .loadMessages u sid => do return .messages (← loadMessages u sid)
  | .invoke u sid input => do return .output (← agent.invoke u sid input)
  | .resume u sid id decision => do return .output (← agent.resume u sid id decision)
  | .advancePhase u sid output => do return .phase (← agent.advancePhase u sid output)
  | .endSession u sid => do
    endSession u sid
    return .unit
  | .deleteAllUserData u => do
    deleteAllUserData u
    return .unit

/-- The id that the next request may use is drawn. -/
def World.drawing (draw : Nat → Uuid) (w : World) : World := { w with nextUuid := draw w.steps }

@[simp] theorem World.drawing_store (draw : Nat → Uuid) (w : World) : (w.drawing draw).store = w.store := rfl
@[simp] theorem World.drawing_cache (draw : Nat → Uuid) (w : World) : (w.drawing draw).cache = w.cache := rfl
@[simp] theorem World.drawing_clock (draw : Nat → Uuid) (w : World) : (w.drawing draw).clock = w.clock := rfl
@[simp] theorem World.drawing_skills (draw : Nat → Uuid) (w : World) : (w.drawing draw).skills = w.skills := rfl
@[simp] theorem World.drawing_steps (draw : Nat → Uuid) (w : World) : (w.drawing draw).steps = w.steps := rfl

/-- The world with ids that are drawn for each request. -/
def handleDrawn (env : Env) (draw : Nat → Uuid) : Handler Reply World := fun q w => handle env q (w.drawing draw)

/-! ### The check of the owner -/

/-- How a call ends that is refused a session: the session is not found, or could not be looked for. -/
def refusal (sid : SessionId) : Except String (Option Session) → AgentError
  | .error e => .session (.database e)
  | .ok _ => .session (.notFound sid)

/-- A look that does not find a session of the user. -/
def Foreign (userId : String) (r : Except String (Option Session)) : Prop :=
  ∀ session, r = .ok (some session) → session.userId ≠ userId

/-- The program first looks for the session, and ends when it does not find it with its user. -/
def Checks {α : Type} (userId : String) (sid : SessionId) (p : M AgentError α) : Prop :=
  ∃ k : Except String (Option Session) → M AgentError α, p = .ask (.sql (.selectSession sid)) k ∧
    ∀ r, Foreign userId r → k r = .fail (refusal sid r)

theorem SessionCall.session?_of_invokes {call : SessionCall} {sid : SessionId} (h : call.invokes = some sid) :
    call.session? = some sid := by
  cases call <;> first | exact h | cases h

theorem Checks.bind {α β : Type} {userId : String} {sid : SessionId} {p : M AgentError α} (hp : Checks userId sid p)
    (f : α → M AgentError β) : Checks userId sid (p >>= f) := by
  obtain ⟨k, rfl, hk⟩ := hp
  refine ⟨fun r => k r >>= f, rfl, fun r hr => ?_⟩
  dsimp only
  rw [hk r hr]
  rfl

theorem assertOwner_checks (userId : String) (sid : SessionId) :
    Checks userId sid (sess (SessionManager.assertOwner userId sid)) := by
  refine ⟨_, rfl, fun r hr => ?_⟩
  match r with
  | .error e => rfl
  | .ok none => rfl
  | .ok (some session) =>
    show (if session.userId = userId then (.ret () : M SessionMemoryError Unit) else .fail (.notFound sid)).mapErr
      AgentError.session = _
    rw [if_neg (hr session rfl)]
    rfl

/-- Every call that is given a session checks its owner first. -/
theorem sessionProgram_checks (agent : Agent) {call : SessionCall} {sid : SessionId} (h : call.session? = some sid) :
    Checks call.userId sid (agent.sessionProgram call) := by
  cases call with
  | createSession | createSessionWithSkill | listSessions | deleteAllUserData => cases h
  | invoke u s input =>
    cases h
    refine Checks.bind ?_ _
    unfold Agent.invoke Agent.prepare
    exact ((assertOwner_checks u sid).bind _).bind _
  | resume u s id decision =>
    cases h
    refine Checks.bind ?_ _
    unfold Agent.resume Agent.resumeChecks
    exact ((assertOwner_checks u sid).bind _).bind _
  | getSession u s | loadMessages u s | advancePhase u s output | endSession u s =>
    cases h
    exact ((assertOwner_checks u sid).bind _).bind _

/-! ### What happens to sessions -/

namespace Request

/-- The session that a request inserts. -/
def enrols : Request → Option SessionId
  | .sql (.insertSession row) => some row.id
  | _ => none

/-- A request that concerns neither the store nor the working memory. -/
def Free : Request → Prop
  | .sql _ | .cacheLoad .. | .cacheStore .. | .cacheAppendTurn .. | .cacheEvict .. | .resolve .. | .poll _
  | .sweepExpired => False
  | _ => True

/-- A request about a session of a user, except for the turn that is appended to the working memory. -/
def About (userId : String) (sid : SessionId) : Request → Prop
  | .sql st => st.session? = some sid
  | .cacheLoad u s | .cacheStore u s _ | .cacheEvict u s => u = userId ∧ s = sid
  | _ => False

/-- The entry of the working memory that a request reads, replaces or evicts. -/
def entry? : Request → Option (String × SessionId)
  | .cacheLoad u sid | .cacheStore u sid _ | .cacheEvict u sid => some (u, sid)
  | _ => none

theorem Free.enrols {q : Request} (hq : q.Free) : q.enrols = none := by
  cases q <;> first | rfl | exact hq.elim

theorem About.enrols {userId : String} {sid : SessionId} {q : Request} (hq : q.About userId sid) : q.enrols = none := by
  cases q with
  | sql st => cases st <;> first | rfl | cases hq
  | _ => rfl

end Request

/-- The history that an invocation takes: the cached one, the stored one, or none when there is an opening context. -/
def historyTaken? : Event → Option (List Message)
  | ⟨.cacheLoad .., some messages⟩ => some messages
  | ⟨.cacheStore _ _ messages, _⟩ => some messages
  | ⟨.cacheEvict .., _⟩ => some []
  | _ => none

variable {ι : Type}

/-- The thread has its history. -/
def TookHistory (v : AgentView ι) (i : ι) : Prop := Happened v i fun x => (historyTaken? x).isSome = true

/-- The thread has drawn the id. -/
def Drew (v : AgentView ι) (i : ι) (id : Uuid) : Prop := (i, (⟨.newUuid, id⟩ : Event)) ∈ v.trace

/-- The session was to be inserted. -/
def Enrolled (v : AgentView ι) (sid : SessionId) : Prop := ∃ x ∈ v.trace, x.2.1.enrols = some sid

/-- The session was inserted, and no other user has it. -/
def Belongs (userId : String) (sid : SessionId) (v : AgentView ι) : Prop :=
  Enrolled v sid ∧ v.state.store.Mine userId sid

/-- The session that a call is given is one of its user. -/
def Named (call : SessionCall) (v : AgentView ι) : Prop :=
  ∀ sid, call.session? = some sid → v.state.store.Mine call.userId sid

/-- What the calls ask. -/
inductive OfCaller (calls : ι → SessionCall) (v : AgentView ι) (i : ι) : Request → Prop where
  | look {sid : SessionId} (hcall : (calls i).session? = some sid) (hfirst : ∀ x ∈ v.trace, x.1 ≠ i) :
    OfCaller calls v i (.sql (.selectSession sid))
  | list (hcall : (calls i).session? = none) : OfCaller calls v i (.sql (.selectByUser (calls i).userId))
  | create {row : SessionRow} (hcall : (calls i).session? = none) (hrow : row.userId = (calls i).userId)
    (hdrew : Drew v i row.id) (hnew : ¬ Enrolled v row.id) : OfCaller calls v i (.sql (.insertSession row))
  | free {q : Request} (hnamed : Named (calls i) v) (hq : q.Free) : OfCaller calls v i q
  | about {sid : SessionId} {q : Request} (hcall : ∀ s, (calls i).session? = some s → s = sid)
    (hmine : v.state.store.Mine (calls i).userId sid) (hq : q.About (calls i).userId sid) : OfCaller calls v i q
  | append {sid : SessionId} {m m' : Message} (hnamed : Named (calls i) v) (hcall : (calls i).invokes = some sid)
    (htook : TookHistory v i) : OfCaller calls v i (.cacheAppendTurn (calls i).userId sid m m')

/-- Sessions and their ids. -/
structure Registered (draw : Nat → Uuid) (v : AgentView ι) : Prop where
  unique : (v.state.store.sessions.map (·.id)).Nodup
  linked : ∀ sid, v.state.store.Linked sid
  enrolled : ∀ r ∈ v.state.store.sessions, Enrolled v r.id
  origin : ∀ sid, Enrolled v sid → ∃ i, Drew v i sid
  drawn : ∀ i id, Drew v i id → ∃ n < v.state.steps, id = draw n
  once : ∀ i j id, Drew v i id → Drew v j id → i = j
  keyed : v.state.Keyed

/-- The terms of the calls. Every turn is allowed. -/
def ownership (draw : Nat → Uuid) (calls : ι → SessionCall) : Discipline ι Reply World :=
  ⟨Registered draw, fun _ _ _ => True, OfCaller calls⟩

variable {env : Env} {draw : Nat → Uuid} {calls : ι → SessionCall} {v : AgentView ι} {i j : ι} {q : Request}
  {sid : SessionId} {userId : String}

/-! ### One turn -/

theorem enrolled_after : Enrolled (v.after (handleDrawn env draw) j q) sid ↔ Enrolled v sid ∨ q.enrols = some sid := by
  simp only [Enrolled, View.after_trace, List.mem_append, List.mem_singleton]
  constructor
  · rintro ⟨x, hx | rfl, hid⟩
    · exact .inl ⟨x, hx, hid⟩
    · exact .inr hid
  · rintro (⟨x, hx, hid⟩ | hid)
    · exact ⟨x, .inl hx, hid⟩
    · exact ⟨_, .inr rfl, hid⟩

theorem drew_after {id : Uuid} : Drew (v.after (handleDrawn env draw) j q) i id ↔
    Drew v i id ∨ i = j ∧ q = .newUuid ∧ id = draw v.state.steps := by
  unfold Drew
  rw [View.after_trace, List.mem_append, List.mem_singleton]
  refine or_congr_right ⟨fun h => ?_, ?_⟩
  · obtain ⟨rfl, he⟩ := Prod.mk.inj h
    obtain ⟨rfl, hr⟩ := Sigma.mk.inj he
    exact ⟨rfl, rfl, eq_of_heq hr⟩
  · rintro ⟨rfl, rfl, rfl⟩
    rfl

/-- Whoever inserts a session has drawn its id, and nobody has inserted it before. -/
theorem OfCaller.new (hq : OfCaller calls v j q) (h : q.enrols = some sid) : Drew v j sid ∧ ¬ Enrolled v sid := by
  cases hq with
  | create hcall hrow hdrew hnew =>
    cases h
    exact ⟨hdrew, hnew⟩
  | free hnamed hq => rw [hq.enrols] at h; cases h
  | about hcall hmine hq => rw [hq.enrols] at h; cases h
  | look | list | append => cases h

/-- A turn is appended to the working memory by a turn of the session that has its history. -/
theorem OfCaller.appends {u : String} {m m' : Message} (hq : OfCaller calls v i (.cacheAppendTurn u sid m m')) :
    (calls i).invokes = some sid ∧ TookHistory v i := by
  cases hq with
  | free hnamed hq => exact hq.elim
  | about hcall hmine hq => exact hq.elim
  | append hnamed hcall htook => exact ⟨hcall, htook⟩

/-- The entries that a call touches are those of its user, and of the session that it is given. -/
theorem OfCaller.entry {key : String × SessionId} (hq : OfCaller calls v i q) (hkey : q.entry? = some key) :
    key.1 = (calls i).userId ∧ ∀ s, (calls i).session? = some s → s = key.2 := by
  cases hq with
  | look | list | create | append => cases hkey
  | free hnamed hq => cases q <;> first | exact hq.elim | cases hkey
  | about hcall hmine hq =>
    cases q with
    | cacheLoad | cacheStore | cacheEvict =>
      cases hkey
      obtain ⟨rfl, rfl⟩ := hq
      exact ⟨rfl, hcall⟩
    | _ => first | exact hq.elim | cases hkey

/-- A row is inserted or was there before. -/
theorem session_after {w : World} {r : SessionRow} (hr : r ∈ (handle env q w).2.store.sessions) :
    (∃ r' ∈ w.store.sessions, r'.id = r.id ∧ r'.userId = r.userId) ∨ q.enrols = some r.id := by
  by_cases hsql : ∃ st, q = .sql st
  · obtain ⟨st, rfl⟩ := hsql
    cases he : env.storeError w.steps with
    | some e => rw [handle_sql_error st he] at hr; exact .inl ⟨r, hr, rfl, rfl⟩
    | none =>
      rw [handle_sql_ok st he] at hr
      refine (st.exec_session hr).imp_right ?_
      rintro rfl
      rfl
  · rw [handle_store fun st h => hsql ⟨st, h⟩] at hr
    exact .inl ⟨r, hr, rfl, rfl⟩

/-- A session stays with its user, unless it is inserted. -/
theorem mine_after {w : World} (h : w.store.Mine userId sid) (hq : q.enrols ≠ some sid) :
    (handle env q w).2.store.Mine userId sid := by
  intro r hr hid
  rcases session_after hr with ⟨r', hr', hid', hu⟩ | henrols
  · rw [← hu]
    exact h r' hr' (hid'.trans hid)
  · rw [hid] at henrols
    exact absurd henrols hq

theorem Belongs.turn (h : Belongs userId sid v) (hq : OfCaller calls v j q) :
    Belongs userId sid (v.after (handleDrawn env draw) j q) :=
  ⟨enrolled_after.mpr (.inl h.1), mine_after (w := v.state.drawing draw) h.2 fun henrols => (hq.new henrols).2 h.1⟩

/-- The row of a session decides whose it is. -/
theorem Registered.belongs (hI : Registered draw v) {r : SessionRow} (hr : r ∈ v.state.store.sessions) :
    Belongs r.userId r.id v := by
  refine ⟨hI.enrolled r hr, fun r' hr' hid => ?_⟩
  rw [List.inj_on_of_nodup_map hI.unique hr' hr hid]

theorem Registered.turn (hdraw : draw.Injective) (hI : Registered draw v) (hq : OfCaller calls v j q) :
    Registered draw (v.after (handleDrawn env draw) j q) where
  unique := store_after (p := fun s => (s.sessions.map (·.id)).Nodup) (w := v.state.drawing draw) hI.unique fun st _ =>
    st.exec_unique hI.unique
  linked sid := linked_after (w := v.state.drawing draw) (hI.linked sid)
  enrolled r hr := by
    rcases session_after (w := v.state.drawing draw) hr with ⟨r', hr', hid, -⟩ | henrols
    · rw [← hid]
      exact enrolled_after.mpr (.inl (hI.enrolled r' hr'))
    · exact enrolled_after.mpr (.inr henrols)
  origin sid h := by
    rcases enrolled_after.mp h with h | h
    · obtain ⟨i, hi⟩ := hI.origin sid h
      exact ⟨i, drew_after.mpr (.inl hi)⟩
    · exact ⟨j, drew_after.mpr (.inl (hq.new h).1)⟩
  drawn i id h := by
    simp only [View.after_state, handleDrawn, handle_steps, World.drawing_steps]
    rcases drew_after.mp h with h | ⟨-, -, rfl⟩
    · obtain ⟨n, hn, hid⟩ := hI.drawn i id h
      exact ⟨n, by omega, hid⟩
    · exact ⟨v.state.steps, by omega, rfl⟩
  once i k id hi hk := by
    -- an id that was drawn before is not drawn again
    have hold : ∀ i, Drew v i id → id ≠ draw v.state.steps := by
      intro i hi hid
      obtain ⟨n, hn, rfl⟩ := hI.drawn i id hi
      have := hdraw hid
      omega
    rcases drew_after.mp hi with hi | ⟨rfl, -, hid⟩
    · rcases drew_after.mp hk with hk | ⟨-, -, hid⟩
      · exact hI.once i k id hi hk
      · exact absurd hid (hold i hi)
    · rcases drew_after.mp hk with hk | ⟨rfl, -, -⟩
      · exact absurd hid (hold k hk)
      · rfl
  keyed := keyed_after (w := v.state.drawing draw) hI.keyed q

/-- An id that has just been drawn is new. -/
theorem Registered.new (hdraw : draw.Injective) (hI : Registered draw v) : ¬ Enrolled v (draw v.state.steps) := by
  intro h
  obtain ⟨i, hi⟩ := hI.origin _ h
  obtain ⟨n, hn, hid⟩ := hI.drawn i _ hi
  have := hdraw hid
  omega

end AgentVerse
