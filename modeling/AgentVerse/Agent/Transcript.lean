import AgentVerse.Agent.Coherence

/-!
# What a finished run leaves in the transcript

An invocation that answers appends its turn to the transcript and to the cached conversation; every other outcome of
an invocation leaves both tiers without a new turn (`invoke_records`), and so does a resume whatever its outcome
(`resume_transcript`). A chain of an invocation and the resumes of its interrupts (`Chain`) therefore leaves its turn
exactly when the invocation was not interrupted (`turns_recorded`).
-/

namespace AgentVerse

open Effects

variable {env : Env} {c c' : Config Reply World} {sid : SessionId}

/-- The messages of a turn. -/
def turnOf (input text : String) : List Message := [.ofText .user input, .ofText .assistant text]

/-- The input that an invocation records: a phase opening context goes before it. -/
def Agent.effectiveInput (agent : Agent) (w : World) (sid : SessionId) (input : String) : String :=
  match if agent.skills.isSome then w.opening sid else none with
  | some ctx => ctx ++ "\n\n" ++ input
  | none => input

/-! ### Requests that leave the transcript alone -/

theorem transcript_of_reaches {A : Request → Prop} (hr : Reaches (handle env) A c c')
    (hA : ∀ q, A q → q.Quiet sid) : c'.state.store.transcript sid = c.state.store.transcript sid :=
  hr.frame (fun w => w.store.transcript sid) fun q w hq => Store.transcript_congr ((hA q hq).rows w)

theorem Request.Idle.quiet {q : Request} (hq : q.Idle) : q.Quiet sid := by
  cases q with
  | sql st => cases st <;> first | exact hq.elim | trivial
  | _ => trivial

/-! ### What an invocation leaves -/

/-- The turn is in the transcript and at the end of the cached conversation. -/
structure Records (userId : String) (sid : SessionId) (turn : List Message) (c c' : Config Reply World) : Prop where
  transcript : c'.state.store.transcript sid = c.state.store.transcript sid ++ turn
  cached : ∃ e, c'.state.cache.lookup (userId, sid) = some e ∧ turn <:+ e.messages

/-- A finished run leaves its turn, any other one leaves the transcript as it is. -/
def Leaves (userId : String) (sid : SessionId) (input : String) (c c' : Config Reply World) :
    Except AgentError AgentOutput → Prop
  | .ok (.done text) => Records userId sid (turnOf input text) c c'
  | _ => c'.state.store.transcript sid = c.state.store.transcript sid

/-- What was done before does not count when it left the transcript alone. -/
theorem Leaves.of_quiet {userId input : String} {c₁ : Config Reply World} {r : Except AgentError AgentOutput}
    (hquiet : c₁.state.store.transcript sid = c.state.store.transcript sid) (h : Leaves userId sid input c₁ c' r) :
    Leaves userId sid input c c' r := by
  match r, h with
  | .ok (.done text), h => exact ⟨hquiet ▸ h.transcript, h.cached⟩
  | .ok (.interrupted id kind), h => exact h.trans hquiet
  | .error e, h => exact h.trans hquiet

/-- A turn that is appended to the cache is at the end of its conversation. -/
theorem cacheAppendTurn_cached (env : Env) (userId : String) (sid : SessionId) (m m' : Message) (w : World) :
    ∃ e, (handle env (.cacheAppendTurn userId sid m m') w).2.cache.lookup (userId, sid) = some e ∧
      [m, m'] <:+ e.messages := by
  have hput : ∀ (w : World) ms, (w.cachePut (userId, sid) ms).cache.lookup (userId, sid) = some ⟨ms, w.clock⟩ :=
    fun w ms => by simp [World.cachePut]
  simp only [handle, answer]
  split
  · exact ⟨_, hput _ _, List.suffix_append _ _⟩
  · exact ⟨_, hput _ _, List.suffix_rfl⟩

/-- A step that succeeds continues the transcript with `ms`, and one that fails leaves it as it is. -/
def Continues (sid : SessionId) (ms : List Message) (c c' : Config Reply World) {ε α : Type} : Except ε α → Prop
  | .ok _ => c'.state.store.transcript sid = c.state.store.transcript sid ++ ms
  | .error _ => c'.state.store.transcript sid = c.state.store.transcript sid

theorem appendTurn_continues (sid : SessionId) (m m' : Message) (c : Config Reply World) :
    Continues sid [m, m'] c ((sess (SessionMemory.appendTurn sid m m')).run (handle env) c).2
      ((sess (SessionMemory.appendTurn sid m m')).run (handle env) c).1 := by
  have hreads : ∀ {c c' : Config Reply World}, Reaches (handle env) Request.Reads c c' →
      c'.state.store.transcript sid = c.state.store.transcript sid :=
    fun h => transcript_of_reaches h fun _ hq => hq.idle.quiet
  unfold sess SessionMemory.appendTurn SessionMemory.append SessionMemory.get
  rw [Prog.mapErr_bind]
  refine Prog.Only.run_bind (Φ := fun r c' => Continues sid [m, m'] c c' r) (A := Request.Reads)
    (Prog.Only.mapErr (query_only (show Request.Reads (.sql (.selectSession sid)) from trivial)))
    (fun e c₁ h₁ => hreads h₁) fun session c₁ h₁ _ => ?_
  cases session with
  | none => exact hreads h₁
  | some session =>
    dsimp only
    rw [Prog.mapErr_bind]
    refine Prog.Only.run_bind (Φ := fun r c' => Continues sid [m, m'] c c' r) (A := Request.Reads)
      (Prog.Only.mapErr (nowTimestamp_only trivial)) (fun e c₂ h₂ => hreads (h₁.trans h₂)) fun now c₂ h₂ _ => ?_
    have hbefore := hreads (h₁.trans h₂)
    rw [Prog.run_mapErr, run_query]
    rcases append_transcript env sid [m, m'] now c₂.state with ⟨hr, htranscript⟩ | ⟨e, hr, hstore⟩
    · rw [hr]
      exact htranscript.trans (congrArg (· ++ [m, m']) hbefore)
    · rw [hr]
      exact (congrArg (Store.transcript · sid) hstore).trans hbefore

namespace Agent

/-- The suspension of a session leaves the transcript alone. -/
theorem handleToolInterrupt_leaves (userId input : String) (interrupt : HitlInterrupt) (skillCtx : Option SkillContext)
    (c : Config Reply World) :
    Leaves userId sid input c ((handleToolInterrupt sid interrupt skillCtx).run (handle env) c).2
      ((handleToolInterrupt sid interrupt skillCtx).run (handle env) c).1 := by
  have hwrites : (handleToolInterrupt sid interrupt skillCtx).Only fun q => ∃ x status, q.OfWrites sid x status :=
    handleToolInterrupt_only interrupt skillCtx
  have hquiet : ((handleToolInterrupt sid interrupt skillCtx).run (handle env) c).2.state.store.transcript sid =
      c.state.store.transcript sid :=
    transcript_of_reaches (hwrites.reaches c) fun q ⟨x, status, hq⟩ => hq.apart.quiet sid
  unfold handleToolInterrupt at hquiet ⊢
  split at hquiet
  · exact hquiet
  · rw [Prog.pure_eq, Prog.run_bind_ret] at hquiet ⊢
    dsimp only
    cases ((persistInterrupt sid _).run (handle env) c).1 <;> exact hquiet

variable (agent : Agent)

/-- A finished turn is recorded, or the transcript stays as it is. -/
theorem keepTurn_leaves (userId input text : String) (c : Config Reply World) :
    Leaves userId sid input c ((agent.keepTurn userId sid input text).run (handle env) c).2
      ((agent.keepTurn userId sid input text).run (handle env) c).1 := by
  have happend : Continues sid (turnOf input text) c
      ((sess (SessionMemory.appendTurn sid (.ofText .user input) (.ofText .assistant text))).run (handle env) c).2
      ((sess (SessionMemory.appendTurn sid (.ofText .user input) (.ofText .assistant text))).run (handle env) c).1 :=
    appendTurn_continues sid (.ofText .user input) (.ofText .assistant text) c
  unfold keepTurn
  dsimp only
  rcases hrun : (sess (SessionMemory.appendTurn sid (.ofText .user input) (.ofText .assistant text)) :
    M AgentError Unit).run (handle env) c with ⟨r, c₁⟩
  rw [hrun] at happend
  cases r with
  | error e =>
    rw [Prog.run_bind_error _ hrun]
    exact happend
  | ok u =>
    rw [Prog.run_bind_ok _ hrun]
    have hcached := cacheAppendTurn_cached env userId sid (.ofText .user input) (.ofText .assistant text) c₁.state
    have hstore : (handle env (.cacheAppendTurn userId sid (.ofText .user input) (.ofText .assistant text))
        c₁.state).2.store = c₁.state.store := handle_store (by intro st h; cases h)
    simp only [request, Prog.perform_bind, Prog.run_ask]
    split
    · simp only [Prog.run_ask, Prog.pure_eq, Prog.run_ret]
      refine ⟨?_, hcached⟩
      exact (congrArg (Store.transcript · sid) hstore).trans happend
    · exact ⟨(congrArg (Store.transcript · sid) hstore).trans happend, hcached⟩

/-- The opening context of the session, if there is one, goes before the input. -/
theorem openingContext_input {userId input : String} {x : List Message × String}
    (h : (agent.openingContext userId sid input).run (handle env) c = (.ok x, c')) :
    x.2 = agent.effectiveInput c.state sid input := by
  unfold openingContext at h
  obtain ⟨ctx, c₁, hctx, h⟩ := (Prog.run_bind_eq_ok _).mp h
  have hopening : (if agent.skills.isSome then c.state.opening sid else none) = ctx := by
    unfold phaseOpening at hctx
    split
    · rename_i hskills
      rw [if_pos hskills, sess, Prog.run_mapErr_eq_ok, SessionMemory.getPhaseOpeningContext] at hctx
      obtain ⟨column, c₂, hread, hctx⟩ := (Prog.run_bind_eq_ok _).mp hctx
      rw [run_query, Prod.mk.injEq] at hread
      cases hr : (handle env (.sql (.selectPhaseOpening sid)) c.state).1 with
      | error e => rw [hr] at hread; cases hread.1
      | ok column' =>
        rw [hr] at hread
        obtain rfl : column' = column := Except.ok.inj hread.1
        cases column' with
        | none => cases hctx
        | some ctx' =>
          cases hctx
          exact opening_read hr
    · rename_i hskills
      rw [if_neg hskills] at hctx
      cases hctx
      rfl
  unfold effectiveInput
  rw [hopening]
  cases ctx with
  | some ctx =>
    obtain ⟨u, c₂, -, h⟩ := (Prog.run_bind_eq_ok _).mp h
    obtain ⟨u, c₃, -, h⟩ := (Prog.run_bind_eq_ok _).mp h
    cases h
    rfl
  | none =>
    obtain ⟨history, c₂, -, h⟩ := (Prog.run_bind_eq_ok _).mp h
    cases h
    rfl

theorem prepare_input {userId input : String} {p : Prepared}
    (h : (agent.prepare userId sid input).run (handle env) c = (.ok p, c')) :
    p.input = agent.effectiveInput c.state sid input := by
  unfold prepare at h
  obtain ⟨u, c₁, hown, h⟩ := (Prog.run_bind_eq_ok _).mp h
  obtain ⟨x, c₂, hopen, h⟩ := (Prog.run_bind_eq_ok _).mp h
  obtain ⟨y, c₃, -, h⟩ := (Prog.run_bind_eq_ok _).mp h
  cases h
  have hread : Request.Idle (.sql (.selectSession sid)) := trivial
  have hsame : c₁.state.opening sid = c.state.opening sid := by
    rw [(assertOwner_ok.mp hown).2.2]
    exact opening_keeps hread.keeps c.state
  have hinput := agent.openingContext_input hopen
  unfold effectiveInput at hinput ⊢
  rw [hsame] at hinput
  exact hinput

/-- The stages before a strategy run leave the transcript alone. -/
theorem prepare_quiet (userId input : String) : (agent.prepare userId sid input).Only fun q => q.Quiet sid := by
  refine Prog.Only.bind (sess_only (SessionManager.assertOwner_only trivial)) fun _ => ?_
  refine Prog.Only.bind (Prog.Only.mono (agent.openingContext_only userId input) fun q hq => ?_) fun _ => ?_
  · rcases hq with hq | ⟨x, rfl⟩
    · exact hq.quiet
    · trivial
  · refine Prog.Only.bind (Prog.Only.mono (agent.resolveSkill_binds input) fun q hq => ?_) fun _ => trivial
    rcases hq with hq | ⟨x, rfl⟩
    · exact hq.idle.quiet
    · trivial

theorem invoke_records (userId input : String) (c : Config Reply World) :
    Leaves userId sid (agent.effectiveInput c.state sid input) c
      ((agent.invoke userId sid input).run (handle env) c).2 ((agent.invoke userId sid input).run (handle env) c).1 := by
  unfold invoke
  refine Prog.Only.run_bind (Φ := fun r c' => Leaves userId sid (agent.effectiveInput c.state sid input) c c' r)
    (agent.prepare_quiet userId input) (fun e c₁ h₁ => transcript_of_reaches h₁ fun _ hq => hq)
    fun p c₁ h₁ hp => ?_
  refine .of_quiet (transcript_of_reaches h₁ fun _ hq => hq) ?_
  have hrun : (agent.runPrepared userId sid p).Only fun q => q.Quiet sid :=
    Prog.Only.mono (agent.runPrepared_works userId p) fun q hq =>
      hq.elim (fun h => h.apart.quiet sid) fun h => h.apart.quiet sid
  refine Prog.Only.run_bind (Φ := fun r c' => Leaves userId sid (agent.effectiveInput c.state sid input) c₁ c' r)
    hrun (fun e c₂ h₂ => transcript_of_reaches h₂ fun _ hq => hq) fun outcome c₂ h₂ _ => ?_
  refine .of_quiet (transcript_of_reaches h₂ fun _ hq => hq) ?_
  rw [← agent.prepare_input hp]
  cases outcome with
  | done text => exact agent.keepTurn_leaves userId p.input text c₂
  | interrupted interrupt => exact handleToolInterrupt_leaves userId p.input interrupt p.skillCtx c₂

/-- A resume leaves the transcript alone, whatever its outcome. -/
theorem resume_transcript (userId : String) (approvalId : ApprovalId) (decision : ApprovalDecision)
    (c : Config Reply World) :
    ((agent.resume userId sid approvalId decision).run (handle env) c).2.state.store.transcript sid =
      c.state.store.transcript sid :=
  transcript_of_reaches ((agent.resume_resumes userId approvalId decision).reaches c) fun _ hq => hq.apart.quiet sid

end Agent

/-! ### Chains of calls -/

/-- A call that takes or continues a turn of the session. -/
def ApiCall.TakesTurn (sid : SessionId) : ApiCall → Prop
  | invoke _ s _ | resume _ s _ _ => s = sid
  | _ => False

/-- The messages that a call leaves at the end of the transcript. -/
def appended (sid : SessionId) (e : CallEntry) : List Message :=
  (e.after.store.transcript sid).drop (e.before.store.transcript sid).length

/-- An interrupt of an ordinary turn: of a tool call or at a checkpoint. -/
def InterruptKind.Ordinary : InterruptKind → Prop
  | phaseGate .. => False
  | _ => True

/-- An invocation of a user and the resumes that answer its interrupts, one after the other, with the input it records
and the output of the last one. -/
inductive Chain (agent : Agent) (userId : String) (sid : SessionId) : String → List CallEntry → AgentOutput → Prop where
  | invoke {e : CallEntry} {input : String} {out : AgentOutput} (hcall : e.call = .invoke userId sid input)
    (hout : e.result = .ok (.output out)) :
    Chain agent userId sid (agent.effectiveInput e.before sid input) [e] out
  | resume {e : CallEntry} {es : List CallEntry} {input userId' : String} {approvalId : ApprovalId}
    {kind : InterruptKind} {decision : ApprovalDecision} {out : AgentOutput}
    (h : Chain agent userId sid input es (.interrupted approvalId kind)) (hkind : kind.Ordinary)
    (hcall : e.call = .resume userId' sid approvalId decision) (hout : e.result = .ok (.output out)) :
    Chain agent userId sid input (es ++ [e]) out

/-- The calls leave one new turn in the transcript, and the cached conversation, if there is one, ends with it. -/
def LeavesOneTurn (userId : String) (sid : SessionId) (input text : String) (es : List CallEntry) : Prop :=
  es.flatMap (appended sid) = turnOf input text ∧ ∀ e ∈ es.getLast?, ∀ conversation,
    e.after.cache.lookup (userId, sid) = some conversation → turnOf input text <:+ conversation.messages

variable {agent : Agent}

theorem appended_of_eq {e : CallEntry} {ms : List Message}
    (h : e.after.store.transcript sid = e.before.store.transcript sid ++ ms) : appended sid e = ms := by
  rw [appended, h, List.drop_left]

/-- What an invocation leaves. -/
theorem invoke_entry {e : CallEntry} (he : e = agent.entry env e.before e.call) {userId input : String}
    (hcall : e.call = .invoke userId sid input) : ∃ r : Except AgentError AgentOutput, e.result = r.map .output ∧
      Leaves userId sid (agent.effectiveInput e.before sid input) ⟨e.before, []⟩ ⟨e.after, e.asked⟩ r := by
  have hleaves : Leaves userId sid (agent.effectiveInput e.before sid input) ⟨e.before, []⟩
      ((agent.invoke userId sid input).run (handle env) ⟨e.before, []⟩).2
      ((agent.invoke userId sid input).run (handle env) ⟨e.before, []⟩).1 := agent.invoke_records userId input _
  rw [hcall, Agent.entry_eq (p := agent.invoke userId sid input) rfl] at he
  rw [he]
  exact ⟨_, rfl, hleaves⟩

theorem invoke_served {e : CallEntry} (he : e = agent.entry env e.before e.call) {userId input : String}
    (hcall : e.call = .invoke userId sid input) {out : AgentOutput} (hout : e.result = .ok (.output out)) :
    Leaves userId sid (agent.effectiveInput e.before sid input) ⟨e.before, []⟩ ⟨e.after, e.asked⟩ (.ok out) := by
  obtain ⟨r, hr, hleaves⟩ := invoke_entry he hcall
  rw [hr] at hout
  cases r with
  | error err => cases hout
  | ok out' =>
    cases hout
    exact hleaves

theorem resume_entry {e : CallEntry} (he : e = agent.entry env e.before e.call) {userId : String}
    {approvalId : ApprovalId} {decision : ApprovalDecision} (hcall : e.call = .resume userId sid approvalId decision) :
    e.after.store.transcript sid = e.before.store.transcript sid := by
  rw [hcall, Agent.entry_eq (p := agent.resume userId sid approvalId decision) rfl] at he
  rw [he]
  exact agent.resume_transcript userId approvalId decision ⟨e.before, []⟩

/-- A call appends to the transcript, and only when it is done. -/
theorem turn_entry {e : CallEntry} (he : e = agent.entry env e.before e.call) (hcall : e.call.TakesTurn sid) :
    e.after.store.transcript sid = e.before.store.transcript sid ++ appended sid e ∧
      ((∀ text, e.result ≠ .ok (.output (.done text))) → appended sid e = []) := by
  have hquiet : e.after.store.transcript sid = e.before.store.transcript sid →
      e.after.store.transcript sid = e.before.store.transcript sid ++ appended sid e ∧ appended sid e = [] := by
    intro h
    have hnone : appended sid e = [] := appended_of_eq (by rw [h, List.append_nil])
    exact ⟨by rw [hnone, List.append_nil, h], hnone⟩
  cases hc : e.call with
  | invoke userId s input =>
    rw [hc] at hcall
    obtain rfl : s = sid := hcall
    obtain ⟨r, hr, hleaves⟩ := invoke_entry he hc
    match r, hr, hleaves with
    | .ok (.done text), hr, hleaves =>
      have hturn := hleaves.transcript
      exact ⟨hturn.trans (congrArg _ (appended_of_eq hturn).symm), fun hnot => absurd hr (hnot text)⟩
    | .ok (.interrupted _ _), _, hleaves => exact (hquiet hleaves).imp_right fun h _ => h
    | .error _, _, hleaves => exact (hquiet hleaves).imp_right fun h _ => h
  | resume userId s approvalId decision =>
    rw [hc] at hcall
    obtain rfl : s = sid := hcall
    exact (hquiet (resume_entry he hc)).imp_right fun h _ => h
  | _ => rw [hc] at hcall; exact hcall.elim

theorem resume_appended {e : CallEntry} (he : e = agent.entry env e.before e.call) {userId : String}
    {approvalId : ApprovalId} {decision : ApprovalDecision} (hcall : e.call = .resume userId sid approvalId decision) :
    appended sid e = [] :=
  appended_of_eq (by rw [resume_entry he hcall, List.append_nil])

/-- A chain that was only interrupted so far has left nothing. -/
theorem Chain.silent {userId input : String} {es : List CallEntry} {out : AgentOutput}
    (h : Chain agent userId sid input es out) (hes : ∀ e ∈ es, e = agent.entry env e.before e.call)
    (hout : ∀ text, out ≠ .done text) : es.flatMap (appended sid) = [] := by
  induction h with
  | @invoke e input out hcall hresult =>
    have he := hes e List.mem_cons_self
    have hnone : appended sid e = [] := by
      refine (turn_entry he (by rw [hcall]; rfl)).2 fun text htext => hout text ?_
      rw [hresult] at htext
      cases htext
      rfl
    simp [hnone]
  | @resume e es input userId' approvalId kind decision out h hkind hcall hresult ih =>
    have hbefore := ih (fun e' he' => hes e' (List.mem_append_left _ he')) fun text => by simp
    have hlast : appended sid e = [] := resume_appended (hes e (by simp)) hcall
    simp [hbefore, hlast]

theorem Chain.length_pos {userId input : String} {es : List CallEntry} {out : AgentOutput}
    (h : Chain agent userId sid input es out) : 0 < es.length := by
  cases h <;> simp

/-- A chain leaves its turn exactly when no resume takes part in it. -/
theorem Chain.leaves_iff {userId input text : String} {es : List CallEntry}
    (h : Chain agent userId sid input es (.done text)) (hes : ∀ e ∈ es, e = agent.entry env e.before e.call) :
    LeavesOneTurn userId sid input text es ↔ es.length = 1 := by
  cases h with
  | @invoke e input _ hcall hresult =>
    refine iff_of_true ?_ rfl
    have hleaves : Records .. := invoke_served (hes e List.mem_cons_self) hcall hresult
    refine ⟨?_, fun e' he' conversation hconversation => ?_⟩
    · rw [List.flatMap_singleton]
      exact appended_of_eq hleaves.transcript
    · obtain rfl : e = e' := by simpa using he'
      obtain ⟨conversation', hlookup, hsuffix⟩ := hleaves.cached
      obtain rfl : conversation' = conversation := Option.some.inj (hlookup.symm.trans hconversation)
      exact hsuffix
  | @resume e es _ userId' approvalId kind decision _ h hkind hcall hresult =>
    have hpos := h.length_pos
    refine iff_of_false ?_ (by rw [List.length_append, List.length_singleton]; omega)
    rintro ⟨hturn, -⟩
    have hbefore := h.silent (fun e' he' => hes e' (List.mem_append_left _ he')) fun text => by simp
    have hlast : appended sid e = [] := resume_appended (hes e (by simp)) hcall
    simp [hbefore, hlast, turnOf] at hturn

/-- In every history, calls that fail or are interrupted append nothing, and a chain that is done leaves its turn
exactly when the invocation was not interrupted on the way. -/
theorem turns_recorded (env : Env) (agent : Agent) (w : World) (calls : List ApiCall) (sid : SessionId) :
    (∀ e ∈ (agent.serve env (.start w) calls).past, e.call.TakesTurn sid →
      e.after.store.transcript sid = e.before.store.transcript sid ++ appended sid e ∧
        ((∀ text, e.result ≠ .ok (.output (.done text))) → appended sid e = [])) ∧
    ∀ userId input text es, es.Sublist (agent.serve env (.start w) calls).past →
      Chain agent userId sid input es (.done text) → (LeavesOneTurn userId sid input text es ↔ es.length = 1) := by
  have hentries : ∀ e ∈ (agent.serve env (.start w) calls).past, e = agent.entry env e.before e.call :=
    History.entry_of_past (by simp [CallHistory.start]) calls
  refine ⟨fun e he => turn_entry (hentries e he), fun userId input text es hes h => ?_⟩
  exact h.leaves_iff fun e he => hentries e (hes.subset he)

/-! ### An interrupted turn -/

/-- Calls on a session of the plain agent, one of which is to delete a file. -/
def deletion : List ApiCall := [.createSession "u", .invoke "u" 0 "delete it", .resume "u" 0 1 .approved]

/-- A turn without an interrupt is kept. -/
theorem turns_recorded_answer :
    LeavesOneTurn "u" 0 "hello" "done"
      [Agent.plain.entry .answering (Agent.plain.serve .answering (.start (World.fresh ⟨[]⟩ 0))
        [.createSession "u"]).state (.invoke "u" 0 "hello")] :=
  ((turns_recorded .answering .plain (World.fresh ⟨[]⟩ 0) [.createSession "u", .invoke "u" 0 "hello"] 0).2 "u" "hello"
    "done" _ (List.sublist_cons_self _ _) (.invoke rfl (by decide +kernel))).mpr rfl

/-- The world in which the session is suspended. -/
def beforeDeletion : World :=
  (Agent.plain.serve (.asksFor ["file_delete"]) (.start (World.fresh ⟨[]⟩ 0)) (deletion.take 2)).state

/-- A turn with an approved call is answered and then lost. -/
theorem turns_lost :
    ∃ es, es.Sublist (Agent.plain.serve (.asksFor ["file_delete"]) (.start (World.fresh ⟨[]⟩ 0)) deletion).past ∧
      Chain Agent.plain "u" 0 "delete it" es (.done "done") ∧ ¬ LeavesOneTurn "u" 0 "delete it" "done" es := by
  refine ⟨(Agent.plain.serve (.asksFor ["file_delete"]) (.start (World.fresh ⟨[]⟩ 0)) deletion).past.drop 1,
    List.drop_sublist 1 _, ?_, fun h => absurd h.1 (by decide +kernel)⟩
  have hinvoke : Chain Agent.plain "u" 0 "delete it"
      [Agent.plain.entry (.asksFor ["file_delete"]) (Agent.plain.serve (.asksFor ["file_delete"])
        (.start (World.fresh ⟨[]⟩ 0)) (deletion.take 1)).state (.invoke "u" 0 "delete it")]
      (.interrupted 1 (.toolApproval "file_delete" .null)) := .invoke rfl (by decide +kernel)
  exact Chain.resume (e := Agent.plain.entry (.asksFor ["file_delete"]) beforeDeletion (.resume "u" 0 1 .approved))
    hinvoke trivial rfl (by decide +kernel)

end AgentVerse
