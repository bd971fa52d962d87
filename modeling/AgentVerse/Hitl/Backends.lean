import AgentVerse.Effects.Machine
import AgentVerse.Hitl.Queue

/-!
# The two approval queues

The queue over an SQLite table, and both queues as machines that take the four calls of `ApprovalQueue` at readings
of the clock and report to the metrics. What is asked of both is the state machine of approvals (`KeepsApprovals`);
the calls on which they do the same are `SameCall`.
-/

namespace AgentVerse

open Effects

/-! ### The SQLite queue -/

/-- A row of `hitl_approvals`. Times are seconds since the epoch. -/
structure ApprovalRow where
  id : ApprovalId
  sessionId : SessionId
  kindJson : JsonText InterruptKind
  status : String
  decision : Option (JsonText ApprovalDecision)
  createdAt : Int
  resolvedAt : Option Int
  expiresAt : Option Int

/-- The table `hitl_approvals`, with primary key `id`. -/
structure SqliteQueue where
  rows : List ApprovalRow

/-- `DateTime::timestamp`: the whole seconds of a time in nanoseconds. -/
def wholeSeconds (time : Int) : Int := time / 1000000000

namespace SqliteQueue

def new : SqliteQueue := ⟨[]⟩

def rowToStatus (status : String) (decision : Option (JsonText ApprovalDecision)) :
    Except HitlError ApprovalStatus :=
  match status with
  | "pending" => .ok .pending
  | "resolved" =>
    .ok (.resolved ((decision.bind fun d => d.fromStr.toOption).getD
      (.rejected "data integrity error: decision missing or unparseable")))
  | "expired" => .ok .expired
  | other => .error (.database ("corrupt approval row: unknown status '" ++ other ++ "'"))

/-- The error of an insertion that violates the primary key. -/
def uniqueViolation : HitlError :=
  .database "error returned from database: (code: 1555) UNIQUE constraint failed: hitl_approvals.id"

def submit (q : SqliteQueue) (now : Nat) (req : ApprovalRequest) : Except HitlError ApprovalId × SqliteQueue :=
  if q.rows.any fun r => r.id = req.id then (.error uniqueViolation, q)
  else (.ok req.id, ⟨{
    id := req.id
    sessionId := req.sessionId
    kindJson := .ofValue req.kind
    status := "pending"
    decision := none
    createdAt := wholeSeconds now
    resolvedAt := none
    expiresAt := req.expiresAt.map wholeSeconds } :: q.rows⟩)

/-- The rows that `UPDATE .. WHERE id=? AND status='pending'` affects. -/
def pendingAt (id : ApprovalId) (r : ApprovalRow) : Bool := r.id = id && r.status = "pending"

/-- `print` is `serde_json::to_string`, seen through `serde_json::from_str`. -/
def resolve (print : ApprovalDecision → JsonText ApprovalDecision) (q : SqliteQueue) (now : Nat) (id : ApprovalId)
    (decision : ApprovalDecision) : Except HitlError Unit × SqliteQueue :=
  if (q.rows.filter (pendingAt id)).length = 0 then
    if (q.rows.filter fun r => r.id = id).length = 0 then (.error (.notFound id), q)
    else (.error (.alreadyResolved id), q)
  else (.ok (), ⟨q.rows.map fun r =>
    if pendingAt id r then
      { r with status := "resolved", decision := some (print decision), resolvedAt := some (wholeSeconds now) }
    else r⟩)

def poll (q : SqliteQueue) (id : ApprovalId) : Except HitlError ApprovalStatus :=
  match q.rows.find? fun r => r.id = id with
  | some r => rowToStatus r.status r.decision
  | none => .error (.notFound id)

/-- The rows that a sweep updates. -/
def lapsed (now : Nat) (r : ApprovalRow) : Bool :=
  r.status = "pending" && r.expiresAt.any fun e => decide (e < wholeSeconds now)

def sweepExpired (q : SqliteQueue) (now : Nat) : Nat × SqliteQueue :=
  ((q.rows.filter (lapsed now)).length,
    ⟨q.rows.map fun r => if lapsed now r then { r with status := "expired" } else r⟩)

end SqliteQueue

/-! ### Calls and metrics -/

/-- The methods of `ApprovalQueue`. -/
inductive QueueCall where
  | submit (req : ApprovalRequest)
  | resolve (id : ApprovalId) (decision : ApprovalDecision)
  | poll (id : ApprovalId)
  | sweepExpired

inductive QueueReply where
  | submitted (r : Except HitlError ApprovalId)
  | resolved (r : Except HitlError Unit)
  | polled (r : Except HitlError ApprovalStatus)
  | swept (r : Except HitlError Nat)
  deriving DecidableEq

inductive ApprovalEvent where
  | submitted
  | resolved
  | expired
  deriving DecidableEq

/-- What a call reports: `record_approval_event` for each event, and the sum of its `approvals_pending_delta`. -/
structure QueueMetrics where
  events : List ApprovalEvent
  pendingDelta : Int
  deriving DecidableEq

def QueueMetrics.none : QueueMetrics := ⟨[], 0⟩

/-- What both queues report about a sweep. -/
def QueueMetrics.ofSweep (count : Nat) : QueueMetrics :=
  if count > 0 then ⟨List.replicate count .expired, -count⟩ else none

/-- A queue takes a call at a reading of the clock. -/
abbrev QueueMachine (S : Type) : Type := Machine (Nat × QueueCall) (QueueReply × QueueMetrics) S

def InMemoryQueue.machine : QueueMachine InMemoryQueue where
  step q
    | (_, .submit req) => ((.submitted (.ok (q.submit req).1), ⟨[.submitted], 1⟩), (q.submit req).2)
    | (_, .resolve id decision) =>
      match q.resolve id decision with
      | (.ok (), q') => ((.resolved (.ok ()), ⟨[.resolved], -1⟩), q')
      | (.error e, q') => ((.resolved (.error e), .none), q')
    | (_, .poll id) => ((.polled (q.poll id), .none), q)
    | (now, .sweepExpired) =>
      ((.swept (.ok (q.sweepExpired now).1), .ofSweep (q.sweepExpired now).1), (q.sweepExpired now).2)

def SqliteQueue.machine (print : ApprovalDecision → JsonText ApprovalDecision) : QueueMachine SqliteQueue where
  step q
    | (now, .submit req) =>
      match q.submit now req with
      | (.ok id, q') => ((.submitted (.ok id), ⟨[.submitted], 1⟩), q')
      | (.error e, q') => ((.submitted (.error e), .none), q')
    | (now, .resolve id decision) =>
      match q.resolve print now id decision with
      | (.ok (), q') => ((.resolved (.ok ()), ⟨[.resolved], -1⟩), q')
      | (.error e, q') => ((.resolved (.error e), .none), q')
    | (_, .poll id) => ((.polled (q.poll id), .none), q)
    | (now, .sweepExpired) =>
      ((.swept (.ok (q.sweepExpired now).1), .ofSweep (q.sweepExpired now).1), (q.sweepExpired now).2)

/-! ### What a queue promises -/

/-- A queue whose statuses can be read and whose pending entries can be counted. -/
class Approvals (S : Type) where
  poll : S → ApprovalId → Except HitlError ApprovalStatus
  pendingCount : S → Nat

instance : Approvals InMemoryQueue where
  poll := InMemoryQueue.poll
  pendingCount q := q.entries.countP fun x => x.2.status = .pending

instance : Approvals SqliteQueue where
  poll := SqliteQueue.poll
  pendingCount q := q.rows.countP fun r => r.status = "pending"

/-- A `resolve` of `id` that succeeds. -/
def resolves (id : ApprovalId) : Nat × QueueCall → QueueReply × QueueMetrics → Bool
  | (_, .resolve id' _), (.resolved (.ok _), _) => id' = id
  | _, _ => false

/-- The state machine of approvals, along a run of a queue from `start`. -/
structure KeepsApprovals {S : Type} [Approvals S] (M : QueueMachine S) (start : S)
    (calls : List (Nat × QueueCall)) : Prop where
  /-- Every status but `pending` is terminal. -/
  terminal : ∀ before after, calls = before ++ after → ∀ id status, status ≠ .pending →
    Approvals.poll (M.run start before) id = .ok status → Approvals.poll (M.run start calls) id = .ok status
  once : ∀ id, (M.occurrences (resolves id) start calls).length ≤ 1
  balance : ((M.outputs start calls).map (·.2.pendingDelta)).sum = (Approvals.pendingCount (M.run start calls) : Int)

/-- The calls on which the two queues do the same: a submission of a new id, a resolution by a decision that reads
back from its JSON text, a sweep that leaves no pending entry whose expiry passed in the current second. -/
def SameCall (print : ApprovalDecision → JsonText ApprovalDecision) (q : InMemoryQueue) : Nat × QueueCall → Prop
  | (_, .submit req) => q.get req.id = none
  | (_, .resolve id decision) => q.poll id = .ok .pending → (print decision).fromStr = .ok decision
  | (_, .poll _) => True
  | (now, .sweepExpired) => ∀ x ∈ q.entries, x.2.status = .pending → ∀ e ∈ x.2.request.expiresAt, e < now →
      wholeSeconds e < wholeSeconds now

instance (print : ApprovalDecision → JsonText ApprovalDecision) (q : InMemoryQueue) (call : Nat × QueueCall) :
    Decidable (SameCall print q call) :=
  match call with
  | (_, .submit req) => inferInstanceAs (Decidable (q.get req.id = none))
  | (_, .resolve id decision) =>
    inferInstanceAs (Decidable (q.poll id = .ok .pending → (print decision).fromStr = .ok decision))
  | (_, .poll _) => inferInstanceAs (Decidable True)
  | (now, .sweepExpired) => inferInstanceAs (Decidable (∀ x ∈ q.entries, x.2.status = .pending →
      ∀ e ∈ x.2.request.expiresAt, e < now → wholeSeconds e < wholeSeconds now))

end AgentVerse
