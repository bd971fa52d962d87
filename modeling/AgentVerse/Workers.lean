import AgentVerse.Session.Frame

/-!
# Background workers

One tick of the consolidation worker, which copies messages to long-term memory and moves the watermark behind
them, and one tick of the cleanup worker, which deletes what is past its retention.
-/

namespace AgentVerse

open Effects

inductive WorkerError where
  | session (e : SessionMemoryError)
  | longterm (message : String)
  deriving DecidableEq

/-- `std::time::Duration`, by its whole seconds. -/
structure Duration where
  asSecs : Nat
  isU64 : asSecs < 2 ^ 64

namespace Duration

variable (d : Duration)

/-- `as_secs() as i64`, which wraps from `2^63` on. -/
def asI64 : Int := if d.asSecs < 2 ^ 63 then d.asSecs else d.asSecs - (2 ^ 64 : Nat)

/-- The time `d` before `now`, in the arithmetic of `i64`. -/
def cutoff (now : Int) : Int := (now - d.asI64).bmod (2 ^ 64)

theorem asI64_le : d.asI64 ≤ d.asSecs := by
  unfold asI64
  split <;> omega

end Duration

structure ConsolidationConfig where
  batchSize : Nat
  idleTimeout : Duration

structure CleanupConfig where
  messageRetention : Duration
  sessionRetention : Duration

def ConsolidationConfig.default : ConsolidationConfig := ⟨10, 1800, by decide⟩

def CleanupConfig.default : CleanupConfig := ⟨⟨86400, by decide⟩, 2592000, by decide⟩

namespace ConsolidationWorker

/-- Write the loaded messages one by one, advancing the watermark after each successful write. -/
def consolidate (session : Session) : List MessageRow → M WorkerError Unit
  | [] => .ret ()
  | row :: rows =>
    .ask (.longtermWrite session.userId row.message.asText (some row.id)) fun
      | .error e => .fail (.longterm e)
      | .ok _ => do
        (SessionMemory.advanceWatermark session.id row.sequenceNum).mapErr .session
        consolidate session rows

/-- Whether a session with `n` loaded messages is left for a later tick. -/
def tooEarly (cfg : ConsolidationConfig) (session : Session) (n : Nat) : M WorkerError Bool :=
  if n < cfg.batchSize then do
    let now ← nowTimestamp
    return now - session.updatedAt < cfg.idleTimeout.asI64
  else .ret false

def tickSessions (cfg : ConsolidationConfig) : List Session → M WorkerError Unit
  | [] => .ret ()
  | session :: sessions => do
    let msgs ← (SessionMemory.loadMessagesAboveWatermark session.id).mapErr .session
    if msgs.isEmpty then tickSessions cfg sessions else do
      let early ← tooEarly cfg session msgs.length
      if early then tickSessions cfg sessions else do
        consolidate session msgs
        tickSessions cfg sessions

def tick (cfg : ConsolidationConfig) : M WorkerError Unit := do
  let sessions ← SessionMemory.listSessionsNeedingMaintenance.mapErr .session
  tickSessions cfg sessions

end ConsolidationWorker

namespace CleanupWorker

/-- The per-session part of a tick. -/
def cleanupSession (sid : SessionId) (cutoff : Int) : M WorkerError Nat := do
  let wm ← (SessionMemory.getWatermark sid).mapErr .session
  (SessionMemory.cleanupExpiredMessages sid cutoff wm).mapErr .session

def cleanupSessions (cutoff : Int) : List Session → M WorkerError Unit
  | [] => .ret ()
  | session :: sessions => do
    let _ ← cleanupSession session.id cutoff
    cleanupSessions cutoff sessions

def tick (cfg : CleanupConfig) : M WorkerError Unit := do
  let now ← nowTimestamp
  let _ ← (SessionMemory.deleteEndedSessionsBefore (cfg.sessionRetention.cutoff now)).mapErr .session
  let now ← nowTimestamp
  let sessions ← SessionMemory.listSessionsNeedingMaintenance.mapErr .session
  cleanupSessions (cfg.messageRetention.cutoff now) sessions

section Footprint

variable {A : Request → Prop}

theorem cleanupSession_only {sid : SessionId} {cutoff : Int} (hread : A (.sql (.selectWatermark sid)))
    (hdelete : ∀ wm, A (.sql (.deleteExpired sid cutoff wm))) : (cleanupSession sid cutoff).Only A := by
  refine Prog.Only.bind (Prog.Only.mapErr (query_only hread)) fun wm => Prog.Only.mapErr ?_
  unfold SessionMemory.cleanupExpiredMessages
  split
  · trivial
  · refine Prog.Only.bind (query_only hread) fun storedWm => ?_
    dsimp only
    split
    · trivial
    · exact Prog.Only.bind (query_only (hdelete _)) fun _ => trivial

theorem cleanupSessions_only {cutoff : Int} (hread : ∀ sid, A (.sql (.selectWatermark sid)))
    (hdelete : ∀ sid wm, A (.sql (.deleteExpired sid cutoff wm))) (sessions : List Session) :
    (cleanupSessions cutoff sessions).Only A := by
  induction sessions with
  | nil => trivial
  | cons session sessions ih =>
    exact Prog.Only.bind (cleanupSession_only (hread _) (hdelete _)) fun _ => ih

theorem tick_only {cfg : CleanupConfig} (hnow : A .now) (hsweep : ∀ t, A (.sql (.deleteEndedSessions t)))
    (hlist : ∀ now, A (.sql (.selectNeedingMaintenance now))) (hread : ∀ sid, A (.sql (.selectWatermark sid)))
    (hdelete : ∀ sid t wm, A (.sql (.deleteExpired sid t wm))) : (tick cfg).Only A := by
  refine Prog.Only.bind (nowTimestamp_only hnow) fun now => ?_
  refine Prog.Only.bind (Prog.Only.mapErr (query_only (hsweep _))) fun _ => ?_
  refine Prog.Only.bind (nowTimestamp_only hnow) fun now => ?_
  refine Prog.Only.bind (Prog.Only.mapErr ?_) fun sessions =>
    cleanupSessions_only hread (fun sid wm => hdelete sid _ wm) sessions
  exact Prog.Only.bind (nowTimestamp_only hnow) fun now => query_only (hlist now)

end Footprint

end CleanupWorker

end AgentVerse
