import AgentVerse.Effects.Prog
import AgentVerse.Hitl.Queue
import AgentVerse.Session.Statement

/-!
# The world of an agent

Everything an agent does to the outside is a `Request`: a database statement, an access to the working memory or to
the approval queue, a model call, a tool call, a long-term memory access, a reading of the clock. The `World` is
what these requests act on, and an `Env` decides everything that neither the code nor the world does: how long
things take, which statements fail, what models and tools answer, and in which order concurrent tasks complete.
-/

namespace AgentVerse

open Effects

/-- A tool body about to run: by an agent (`depth` 0) or by a subagent (`depth` 1), for a call of a batch or, with no
call id, for a plan step. -/
structure Dispatch where
  depth : Nat
  callId : Option String
  tool : String
  args : Json
  deriving DecidableEq

/-- The order in which the tasks of a join set complete. -/
structure Schedule (calls : List ToolCall) where
  order : List ToolCall
  perm : order.Perm calls

inductive Request where
  /-- `Utc::now` and `Instant::now`, in nanoseconds. -/
  | now
  /-- `Uuid::new_v4`. -/
  | newUuid
  | sql (st : Statement)
  | cacheLoad (userId : String) (sid : SessionId)
  | cacheStore (userId : String) (sid : SessionId) (messages : List Message)
  | cacheAppendTurn (userId : String) (sid : SessionId) (userMsg assistantMsg : Message)
  | cacheEvict (userId : String) (sid : SessionId)
  /-- `ApprovalRequest::new`, which draws the id, and `ApprovalQueue::submit`. -/
  | submit (sid : SessionId) (kind : InterruptKind)
  | resolve (id : ApprovalId) (decision : ApprovalDecision)
  | poll (id : ApprovalId)
  | sweepExpired
  | readSkills
  /-- `SkillConfig::summaries`, the text that was computed at the last load of the skills. -/
  | readSummaries
  /-- One model call, by the strategy of an agent (`depth` 0) or by a subagent (`depth` 1). -/
  | generate (depth : Nat) (req : GenerateRequest)
  /-- The tasks spawned for a batch of calls; the answer is their completion order. -/
  | joinSet (depth : Nat) (calls : List ToolCall)
  /-- `execute_raw` of a tool that is not a subagent. -/
  | executeRaw (d : Dispatch)
  /-- `execute_raw` of the subagent tool begins. -/
  | enterSubagent (d : Dispatch)
  /-- Whether a running task is cut off before its next step. -/
  | deadline
  | retrieve (userId query : String) (limit : Nat)
  /-- `LongtermMemory::write` of a text; `source` is the message row it was read from, if any. -/
  | longtermWrite (userId content : String) (source : Option Nat)

@[reducible] def Reply : Request → Type
  | .now => Nat
  | .newUuid => Uuid
  | .sql st => Except String st.Result
  | .cacheLoad .. => Option (List Message)
  | .cacheStore .. => Unit
  | .cacheAppendTurn .. => Unit
  | .cacheEvict .. => Unit
  | .submit .. => Except HitlError ApprovalId
  | .resolve .. => Except HitlError Unit
  | .poll _ => Except HitlError ApprovalStatus
  | .sweepExpired => Except HitlError Nat
  | .readSkills => SkillRegistry
  | .readSummaries => String
  | .generate .. => Except ModelError GenerateResponse
  | .joinSet _ calls => Schedule calls
  | .executeRaw _ => TaskEnd
  | .enterSubagent _ => Unit
  | .deadline => Bool
  | .retrieve .. => Except String (List String)
  | .longtermWrite .. => Except String Unit

/-- A program of the agent. -/
abbrev M (ε α : Type) := Prog Request Reply ε α

/-- Make a request and return the reply. -/
def request {ε : Type} (q : Request) : M ε (Reply q) := Prog.perform q

/-- One request and its reply. -/
abbrev Event := Step Reply

section Threads

variable {ι : Type} [DecidableEq ι]

/-- What thread `i` asked, with the replies. -/
def eventsOf (i : ι) (t : List (ι × Event)) : List Event := t.filterMap fun x => if x.1 = i then some x.2 else none

theorem eventsOf_same (i : ι) (t : List (ι × Event)) (e : Event) :
    eventsOf i (t ++ [(i, e)]) = eventsOf i t ++ [e] := by
  simp [eventsOf]

theorem eventsOf_other {i j : ι} (hj : j ≠ i) (t : List (ι × Event)) (e : Event) :
    eventsOf i (t ++ [(j, e)]) = eventsOf i t := by
  simp [eventsOf, hj]

end Threads

structure CacheEntry where
  messages : List Message
  lastUsed : Nat

structure World where
  store : Store
  cache : List ((String × SessionId) × CacheEntry)
  queue : InMemoryQueue
  skills : SkillRegistry
  /-- Nanoseconds since the epoch. -/
  clock : Nat
  nextUuid : Uuid
  /-- Requests served so far. -/
  steps : Nat

/-- The choices of the environment, for the `n`-th request. -/
structure Env where
  cacheTtl : Nat
  elapse : Nat → Nat
  storeError : Nat → Option String
  queueError : Nat → Option String
  summaries : Nat → String
  generate : Nat → Nat → GenerateRequest → Except ModelError GenerateResponse
  joinOrder : Nat → (calls : List ToolCall) → Schedule calls
  tool : Nat → Dispatch → TaskEnd
  cutsOff : Nat → Bool
  retrieve : Nat → Except String (List String)
  longtermWrite : Nat → Except String Unit

theorem mem_of_lookup {α β : Type} [BEq α] [LawfulBEq α] {l : List (α × β)} {a : α} {b : β}
    (h : l.lookup a = some b) : (a, b) ∈ l := by
  obtain ⟨l₁, l₂, rfl, -⟩ := List.lookup_eq_some_iff.mp h
  exact List.mem_append_right l₁ List.mem_cons_self

namespace World

/-- The cache as `CacheMemory` reads it: an entry older than the time to live is a miss. -/
def cached (w : World) (ttl : Nat) (key : String × SessionId) : Option (List Message) :=
  match w.cache.lookup key with
  | some e => if w.clock - e.lastUsed ≤ ttl then some e.messages else none
  | none => none

/-- The cache with one entry replaced. -/
def cachePut (w : World) (key : String × SessionId) (ms : List Message) : World :=
  { w with cache := (key, ⟨ms, w.clock⟩) :: w.cache.filter fun x => x.1 ≠ key }

theorem mem_cachePut {w : World} {key : String × SessionId} {ms : List Message}
    {e : (String × SessionId) × CacheEntry} (he : e ∈ (w.cachePut key ms).cache) :
    e.1 = key ∧ e.2.messages = ms ∨ e.1 ≠ key ∧ e ∈ w.cache := by
  rcases List.mem_cons.mp he with rfl | he
  · exact .inl ⟨rfl, rfl⟩
  · exact .inr ⟨by simpa using (List.mem_filter.mp he).2, List.mem_of_mem_filter he⟩

/-- Time passes while the next request is under way. -/
def tick (env : Env) (w : World) : World :=
  { w with clock := w.clock + env.elapse w.steps, steps := w.steps + 1 }

@[simp] theorem tick_store (env : Env) (w : World) : (w.tick env).store = w.store := rfl
@[simp] theorem tick_queue (env : Env) (w : World) : (w.tick env).queue = w.queue := rfl
@[simp] theorem tick_skills (env : Env) (w : World) : (w.tick env).skills = w.skills := rfl
@[simp] theorem tick_nextUuid (env : Env) (w : World) : (w.tick env).nextUuid = w.nextUuid := rfl
@[simp] theorem tick_cache (env : Env) (w : World) : (w.tick env).cache = w.cache := rfl

end World

/-- A queue operation of the world, unless the queue fails. -/
def queueOp {α : Type} (err : Option String) (w : World) (r : Except HitlError α × InMemoryQueue) :
    Except HitlError α × World :=
  match err with
  | some e => (.error (.database e), w)
  | none => (r.1, { w with queue := r.2 })

/-- What the world answers to the `n`-th request, once its time has passed. -/
def answer (env : Env) (n : Nat) (w : World) : (q : Request) → Reply q × World
  | .now => (w.clock, w)
  | .newUuid => (w.nextUuid, { w with nextUuid := w.nextUuid + 1 })
  | .sql st =>
    match env.storeError n with
    | some e => (.error e, w)
    | none => ((st.exec w.store).1, { w with store := (st.exec w.store).2 })
  | .cacheLoad u sid => (w.cached env.cacheTtl (u, sid), w)
  | .cacheStore u sid ms =>
    let fresh := w.cache.filter fun x => w.clock - x.2.lastUsed ≤ env.cacheTtl
    ((), { w with cache := fresh }.cachePut (u, sid) ms)
  | .cacheAppendTurn u sid m m' =>
    match w.cache.lookup (u, sid) with
    | some e => ((), w.cachePut (u, sid) (e.messages ++ [m, m']))
    | none => ((), w.cachePut (u, sid) [m, m'])
  | .cacheEvict u sid => ((), { w with cache := w.cache.filter fun x => x.1 ≠ (u, sid) })
  | .submit sid kind =>
    let r := w.queue.submit ⟨w.nextUuid, sid, kind, none⟩
    queueOp (env.queueError n) { w with nextUuid := w.nextUuid + 1 } (.ok r.1, r.2)
  | .resolve id d => queueOp (env.queueError n) w (w.queue.resolve id d)
  | .poll id => queueOp (env.queueError n) w (w.queue.poll id, w.queue)
  | .sweepExpired =>
    queueOp (env.queueError n) w (.ok (w.queue.sweepExpired w.clock).1, (w.queue.sweepExpired w.clock).2)
  | .readSkills => (w.skills, w)
  | .readSummaries => (env.summaries n, w)
  | .generate depth req => (env.generate n depth req, w)
  | .joinSet _ calls => (env.joinOrder n calls, w)
  | .executeRaw d => (env.tool n d, w)
  | .enterSubagent _ => ((), w)
  | .deadline => (env.cutsOff n, w)
  | .retrieve .. => (env.retrieve n, w)
  | .longtermWrite .. => (env.longtermWrite n, w)

/-- The world as the environment of the agent's programs. -/
def handle (env : Env) : Handler Reply World := fun q w => answer env w.steps (w.tick env) q

/-- Seconds since the epoch, as `timestamp()` gives them. -/
def timestamp (clock : Nat) : Int := clock / 1000000000

/-- The world before anything happened: no sessions, no approvals, nothing cached. -/
def World.fresh (skills : SkillRegistry) (clock : Nat) : World where
  store := .empty
  cache := []
  queue := .new
  skills := skills
  clock := clock
  nextUuid := 0
  steps := 0

/-- An environment in which nothing fails and no time passes: the model answers as given, and every tool returns
null. -/
def Env.steady (generate : Nat → GenerateRequest → GenerateResponse) : Env where
  cacheTtl := 0
  elapse _ := 0
  storeError _ := none
  queueError _ := none
  summaries _ := ""
  generate _ depth req := .ok (generate depth req)
  joinOrder _ calls := ⟨calls, .refl _⟩
  tool _ _ := .finished (.ok .null)
  cutsOff _ := false
  retrieve _ := .ok []
  longtermWrite _ := .ok ()

end AgentVerse
