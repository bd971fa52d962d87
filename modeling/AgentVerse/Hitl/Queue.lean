import AgentVerse.Hitl.Policy

/-!
# Approval queue

The in-memory approval queue: a map from approval ids to requests and their status. A request is `pending` until it
is resolved or expires; both are final.
-/

namespace AgentVerse

/-- A request for a human decision. Times are nanoseconds since the epoch; an expiry may lie before it. -/
structure ApprovalRequest where
  id : ApprovalId
  sessionId : SessionId
  kind : InterruptKind
  expiresAt : Option Int
  deriving DecidableEq

inductive ApprovalStatus where
  | pending
  | resolved (decision : ApprovalDecision)
  | expired
  deriving DecidableEq

inductive HitlError where
  | notFound (id : ApprovalId)
  | database (message : String)
  | alreadyResolved (id : ApprovalId)
  deriving DecidableEq

def HitlError.display : HitlError → String
  | notFound id => "approval not found: " ++ toString id
  | database m => "database error: " ++ m
  | alreadyResolved id => "already resolved: " ++ toString id

structure QueueEntry where
  request : ApprovalRequest
  status : ApprovalStatus
  deriving DecidableEq

/-- The entries of the queue, by id. -/
structure InMemoryQueue where
  entries : List (ApprovalId × QueueEntry)
  deriving DecidableEq

namespace InMemoryQueue

def new : InMemoryQueue := ⟨[]⟩

def get (q : InMemoryQueue) (id : ApprovalId) : Option QueueEntry :=
  (q.entries.find? fun x => x.1 = id).map Prod.snd

/-- `HashMap::insert`, which replaces an entry of the same id. -/
def insert (q : InMemoryQueue) (id : ApprovalId) (e : QueueEntry) : InMemoryQueue :=
  ⟨(id, e) :: q.entries.filter fun x => x.1 ≠ id⟩

def submit (q : InMemoryQueue) (req : ApprovalRequest) : ApprovalId × InMemoryQueue :=
  (req.id, q.insert req.id ⟨req, .pending⟩)

def resolve (q : InMemoryQueue) (id : ApprovalId) (decision : ApprovalDecision) :
    Except HitlError Unit × InMemoryQueue :=
  match q.get id with
  | none => (.error (.notFound id), q)
  | some e =>
    match e.status with
    | .pending => (.ok (), q.insert id { e with status := .resolved decision })
    | _ => (.error (.alreadyResolved id), q)

def poll (q : InMemoryQueue) (id : ApprovalId) : Except HitlError ApprovalStatus :=
  match q.get id with
  | none => .error (.notFound id)
  | some e => .ok e.status

/-- Whether a sweep at time `now` expires an entry. -/
def QueueEntry.expires (now : Nat) (e : QueueEntry) : Bool :=
  match e.status, e.request.expiresAt with
  | .pending, some exp => exp < now
  | _, _ => false

def sweepExpired (q : InMemoryQueue) (now : Nat) : Nat × InMemoryQueue :=
  ((q.entries.filter fun x => QueueEntry.expires now x.2).length,
    ⟨q.entries.map fun x => (x.1, if QueueEntry.expires now x.2 then { x.2 with status := .expired } else x.2)⟩)

@[simp] theorem get_insert_same (q : InMemoryQueue) (id : ApprovalId) (e : QueueEntry) :
    (q.insert id e).get id = some e := by simp [insert, get]

theorem get_insert_other (q : InMemoryQueue) {id id' : ApprovalId} (e : QueueEntry) (h : id' ≠ id) :
    (q.insert id e).get id' = q.get id' := by
  simp only [get, insert, List.find?_cons, List.find?_filter, Ne.symm h, decide_false]
  congr 2
  funext x
  by_cases hx : x.1 = id' <;> simp [hx, h]

theorem get_sweepExpired (q : InMemoryQueue) (now : Nat) (id : ApprovalId) :
    (q.sweepExpired now).2.get id =
      (q.get id).map fun e => if QueueEntry.expires now e then { e with status := .expired } else e := by
  simp [get, sweepExpired, List.find?_map, Function.comp_def]

/-- The decision that the queue has recorded for an id. -/
def decision? (q : InMemoryQueue) (id : ApprovalId) : Option ApprovalDecision :=
  match q.get id with
  | some ⟨_, .resolved d⟩ => some d
  | _ => none

/-- A successful `resolve` records its decision. -/
theorem resolve_decision {q : InMemoryQueue} {id : ApprovalId} {d : ApprovalDecision}
    (h : (q.resolve id d).1 = .ok ()) : (q.resolve id d).2.decision? id = some d := by
  unfold resolve at h ⊢
  cases he : q.get id with
  | none => simp [he] at h
  | some e =>
    cases hs : e.status with
    | pending => simp [hs, decision?]
    | resolved d' => simp [he, hs] at h
    | expired => simp [he, hs] at h

/-- A recorded decision is final: no `resolve` changes it. -/
theorem resolve_keeps {q : InMemoryQueue} {id id' : ApprovalId} {d d' : ApprovalDecision}
    (h : q.decision? id = some d) : (q.resolve id' d').2.decision? id = some d := by
  unfold resolve
  cases he : q.get id' with
  | none => exact h
  | some e =>
    cases hs : e.status with
    | pending =>
      have hne : id ≠ id' := by
        rintro rfl
        obtain ⟨r, s⟩ := e
        simp_all [decision?]
      simpa [decision?, hs, get_insert_other _ _ hne] using h
    | resolved d'' => simpa [hs] using h
    | expired => simpa [hs] using h

/-- A recorded decision is final: no sweep changes it. -/
theorem sweepExpired_keeps {q : InMemoryQueue} {id : ApprovalId} {d : ApprovalDecision} (now : Nat)
    (h : q.decision? id = some d) : (q.sweepExpired now).2.decision? id = some d := by
  unfold decision? at *
  rw [get_sweepExpired]
  cases he : q.get id with
  | none => simp [he] at h
  | some e =>
    obtain ⟨r, s⟩ := e
    cases s with
    | pending => simp [he] at h
    | resolved d' => simpa [he, QueueEntry.expires] using h
    | expired => simp [he] at h

/-- A submission under another id leaves a recorded decision alone. -/
theorem submit_keeps {q : InMemoryQueue} {id : ApprovalId} {d : ApprovalDecision} {req : ApprovalRequest}
    (hid : id ≠ req.id) (h : q.decision? id = some d) : (q.submit req).2.decision? id = some d := by
  simpa [decision?, submit, get_insert_other _ _ hid] using h

/-- The ids that the queue knows: they come from submissions only. -/
def knows (q : InMemoryQueue) (id : ApprovalId) : Prop := (q.get id).isSome

theorem knows_of_decision {q : InMemoryQueue} {id : ApprovalId} {d : ApprovalDecision}
    (h : q.decision? id = some d) : q.knows id := by
  unfold decision? at h
  unfold knows
  cases hg : q.get id with
  | none => rw [hg] at h; cases h
  | some e => rfl

theorem knows_resolve {q : InMemoryQueue} {id id' : ApprovalId} {d : ApprovalDecision} :
    (q.resolve id' d).2.knows id ↔ q.knows id := by
  unfold resolve knows
  cases he : q.get id' with
  | none => exact Iff.rfl
  | some e =>
    cases hs : e.status with
    | pending =>
      by_cases hid : id = id'
      · subst hid; simp [hs, he]
      · simp [hs, get_insert_other _ _ hid]
    | resolved d' => simp [hs]
    | expired => simp [hs]

theorem knows_sweepExpired {q : InMemoryQueue} {id : ApprovalId} (now : Nat) :
    (q.sweepExpired now).2.knows id ↔ q.knows id := by
  simp [knows, get_sweepExpired]

theorem knows_submit {q : InMemoryQueue} {id : ApprovalId} {req : ApprovalRequest}
    (h : (q.submit req).2.knows id) : id = req.id ∨ q.knows id := by
  by_cases hid : id = req.id
  · exact .inl hid
  · right
    simpa [knows, submit, get_insert_other _ _ hid] using h

end InMemoryQueue

end AgentVerse
