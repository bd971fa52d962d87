import AgentVerse.World

/-!
# Session memory

The methods of `SqliteSessionMemory` as programs over statements, and the methods of `SessionManager` that do more
than pass a call on.
-/

namespace AgentVerse

open Effects

inductive SessionMemoryError where
  | database (message : String)
  | notFound (sid : SessionId)
  deriving DecidableEq

/-- Execute a statement; a database failure becomes `SessionMemoryError::Database`. -/
def query (st : Statement) : M SessionMemoryError st.Result :=
  .ask (.sql st) fun
    | .ok r => .ret r
    | .error e => .fail (.database e)

/-- `Utc::now().timestamp()`. -/
def nowTimestamp {ε : Type} : M ε Int := .ask .now fun t => .ret (timestamp t)

namespace SessionMemory

/-- An update that must affect a row of the session. -/
def mustAffect (sid : SessionId) (n : Nat) : M SessionMemoryError Unit :=
  if n = 0 then .fail (.notFound sid) else .ret ()

def newRow (id : SessionId) (userId : String) (now : Int) (ctx : Option (JsonText SkillContext)) : SessionRow where
  id := id
  userId := userId
  status := .active
  createdAt := now
  updatedAt := now
  consolidationWatermark := 0
  skillContextJson := ctx
  phaseOpeningContext := none
  interruptedState := none

/-- `create` and `create_with_skill_context` differ in the skill context they insert. -/
def createWith (userId : String) (ctx : Option (JsonText SkillContext)) : M SessionMemoryError Session := do
  let now ← nowTimestamp
  let id ← request .newUuid
  query (.insertSession (newRow id userId now ctx))
  return ⟨id, userId, .active, now, now⟩

def create (userId : String) : M SessionMemoryError Session := createWith userId none

def createWithSkillContext (userId : String) (ctx : JsonText SkillContext) : M SessionMemoryError Session :=
  createWith userId (some ctx)

def get (sid : SessionId) : M SessionMemoryError (Option Session) := query (.selectSession sid)

def updateStatus (sid : SessionId) (status : SessionStatus) : M SessionMemoryError Unit := do
  let now ← nowTimestamp
  let n ← query (.updateStatus sid status now)
  mustAffect sid n

def listByUser (userId : String) : M SessionMemoryError (List Session) := query (.selectByUser userId)

/-- `append_message` and `append_turn` differ in the messages they append. -/
def append (sid : SessionId) (ms : List Message) : M SessionMemoryError Unit := do
  match ← get sid with
  | none => .fail (.notFound sid)
  | some _ =>
    let now ← nowTimestamp
    query (.appendMessages sid ms now)

def appendMessage (sid : SessionId) (message : Message) : M SessionMemoryError Unit := append sid [message]

def appendTurn (sid : SessionId) (userMessage assistantMessage : Message) : M SessionMemoryError Unit :=
  append sid [userMessage, assistantMessage]

def loadMessages (sid : SessionId) : M SessionMemoryError (List Message) := query (.selectMessages sid)

def getWatermark (sid : SessionId) : M SessionMemoryError Int := query (.selectWatermark sid)

def advanceWatermark (sid : SessionId) (newWatermark : Int) : M SessionMemoryError Unit := do
  let n ← query (.updateWatermark sid newWatermark)
  mustAffect sid n

def loadMessagesAboveWatermark (sid : SessionId) : M SessionMemoryError (List MessageRow) := do
  let wm ← getWatermark sid
  query (.selectMessagesAbove sid wm)

def listSessionsNeedingMaintenance : M SessionMemoryError (List Session) := do
  let now ← nowTimestamp
  query (.selectNeedingMaintenance now)

/-- Delete expired messages, but none above the stored watermark. -/
def cleanupExpiredMessages (sid : SessionId) (cutoff watermark : Int) : M SessionMemoryError Nat :=
  if watermark = 0 then .ret 0 else do
    let storedWm ← getWatermark sid
    let effectiveWatermark := min watermark storedWm
    if effectiveWatermark = 0 then .ret 0 else do
      let deleted ← query (.deleteExpired sid cutoff effectiveWatermark)
      return deleted.length

def deleteEndedSessionsBefore (cutoff : Int) : M SessionMemoryError Nat := query (.deleteEndedSessions cutoff)

def deleteSession (sid : SessionId) : M SessionMemoryError Unit := query (.deleteSession sid)

/-- A column that is read for an existing session only. -/
def readColumn {α : Type} (sid : SessionId) : Option α → M SessionMemoryError α
  | none => .fail (.notFound sid)
  | some v => .ret v

def setSkillContext (sid : SessionId) (ctx : Option (JsonText SkillContext)) : M SessionMemoryError Unit := do
  let n ← query (.updateSkillContext sid ctx)
  mustAffect sid n

def getSkillContext (sid : SessionId) : M SessionMemoryError (Option (JsonText SkillContext)) := do
  let row ← query (.selectSkillContext sid)
  readColumn sid row

def setPhaseOpeningContext (sid : SessionId) (ctx : Option String) : M SessionMemoryError Unit := do
  let n ← query (.updatePhaseOpening sid ctx)
  mustAffect sid n

def getPhaseOpeningContext (sid : SessionId) : M SessionMemoryError (Option String) := do
  let row ← query (.selectPhaseOpening sid)
  readColumn sid row

def applyPhaseTransition (sid : SessionId) (ctx : JsonText SkillContext) (phaseCtx : String) :
    M SessionMemoryError Unit := do
  let n ← query (.updatePhaseTransition sid ctx phaseCtx)
  mustAffect sid n

def setInterruptedState (sid : SessionId) (state : Option (JsonText InterruptedState)) :
    M SessionMemoryError Unit := do
  let n ← query (.updateInterruptedState sid state)
  mustAffect sid n

def getInterruptedState (sid : SessionId) : M SessionMemoryError (Option (JsonText InterruptedState)) := do
  let row ← query (.selectInterruptedState sid)
  readColumn sid row

end SessionMemory

namespace SessionManager

def createSession (userId : String) : M SessionMemoryError SessionId := do
  let session ← SessionMemory.create userId
  return session.id

def createSessionWithSkillContext (userId : String) (ctx : JsonText SkillContext) :
    M SessionMemoryError SessionId := do
  let session ← SessionMemory.createWithSkillContext userId ctx
  return session.id

def assertOwner (userId : String) (sid : SessionId) : M SessionMemoryError Unit := do
  match ← SessionMemory.get sid with
  | some session => if session.userId = userId then return () else .fail (.notFound sid)
  | none => .fail (.notFound sid)

def endSession (sid : SessionId) : M SessionMemoryError Unit := SessionMemory.updateStatus sid .completed

end SessionManager

end AgentVerse
