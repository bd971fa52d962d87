import AgentVerse.Agent.Sessions
import AgentVerse.Effects.Marks
import AgentVerse.Guardrails.RateLimiter
import AgentVerse.Session.Codec

/-!
# Listing messages over HTTP

`GET /sessions/:session_id/messages`: the newest messages in front of a sequence number, at most as many as the limit.
The limit is capped at 200 from above only, and a negative one is cast to a huge number of messages. Going back page by
page lists every message once (`Paging.flatten`).
-/

namespace AgentVerse

open Effects

/-! ### Errors -/

def SessionMemoryError.display (showUuid : Uuid → String) : SessionMemoryError → String
  | database m => "database error: " ++ m
  | notFound sid => "session not found: " ++ showUuid sid

def SkillError.display : SkillError → String
  | notFound id => "skill not found: " ++ id
  | notConfigured m => "skill registry not configured: " ++ m

def AgentError.display (showUuid : Uuid → String) : AgentError → String
  | session e => "session error: " ++ e.display showUuid
  | llm e => "llm error: " ++ e.display
  | skill e => "skill error: " ++ e.display
  | json e => "json error: " ++ e.message
  | incompatiblePersistedInterrupt =>
    "cannot resume: this session's pending approval was interrupted before an incompatible upgrade to the persisted " ++
      "interrupt format and cannot be replayed (no migration exists for pre-upgrade rows, by design); abandon this " ++
      "session and start a new one"
  | routedStrategyDoesNotSupportHitl strategy =>
    "routed strategy \x60" ++ strategy.display ++
      "\x60 does not support HITL interception; only ReAct can be used with configured HITL"

namespace SessionRoutes

structure Response where
  status : Nat
  body : Json

def errorBody (message : String) : Json := .object (Json.record [("error", some (.string message))])

def storeErrStatus : SessionMemoryError → Nat
  | .notFound _ => 404
  | .database _ => 500

def statusForAgentError : AgentError → Nat
  | .session e => storeErrStatus e
  | .llm _ => 502
  | .incompatiblePersistedInterrupt => 409
  | .skill _ | .json _ | .routedStrategyDoesNotSupportHitl _ => 500

/-! ### The handler -/

structure ListMessagesQuery where
  userId : String
  limit : Option Int64
  before : Option Int64

/-- The messages in front of a sequence number, each with its own. -/
def older (before : Option Int) (all : List Message) : List (Message × Nat) :=
  all.zipIdx.filter fun e => before.all fun b => (e.2 : Int) < b

/-- The page of a list of messages. The cast of a negative limit to `usize` wraps around. -/
def page (limit : Option Int64) (before : Option Int) (all : List Message) : List (Message × Nat) :=
  let limit := min (limit.getD 50) 200
  let filtered := older before all
  filtered.drop (filtered.length - limit.toUInt64.toNat)

def entryValue (e : Message × Nat) : Json :=
  .object (Json.record [
    ("sequence_num", some (.int e.2)),
    ("role", some (.string (roleToStr e.1.role))),
    ("content", some (JsonTexts.contentDocument e.1.content).value)])

def messagesBody (entries : List (Message × Nat)) : Json :=
  .object (Json.record [("messages", some (.ofList (entries.map entryValue)))])

/-- The response once the limiter has let the request pass. -/
def respondMessages (showUuid : Uuid → String) (sid : SessionId) (query : ListMessagesQuery) : M Empty Response := do
  match ← (Agent.loadMessages query.userId sid).attempt with
  | .ok all => return ⟨200, messagesBody (page query.limit (query.before.map Int64.toInt) all)⟩
  | .error e => return ⟨statusForAgentError e, errorBody (e.display showUuid)⟩

def listMessages (showUuid : Uuid → String) (limiter : RateLimiter) (now : Nat) (sid : SessionId)
    (query : ListMessagesQuery) : M Empty Response × RateLimiter :=
  match limiter.check query.userId now with
  | (.error e, limiter) => (.ret ⟨429, errorBody e.display⟩, limiter)
  | (.ok (), limiter) => (respondMessages showUuid sid query, limiter)

/-! ### Pages -/

variable {all : List Message} {limit : Option Int64} {before : Option Int} {n : Int64}

theorem nonneg_toInt : 0 ≤ n ↔ 0 ≤ n.toInt := by
  rw [Int64.le_iff_toInt_le]
  rfl

theorem toInt_min (m : Int64) : (min n m).toInt = min n.toInt m.toInt := by
  by_cases h : n ≤ m
  · have h' := Int64.le_iff_toInt_le.mp h
    rw [show min n m = n from if_pos h]
    omega
  · have h' : ¬ n.toInt ≤ m.toInt := fun h' => h (Int64.le_iff_toInt_le.mpr h')
    rw [show min n m = m from if_neg h]
    omega

/-- The cap works for a limit that is not negative. -/
theorem toNat_min_of_nonneg (h : 0 ≤ n) : (min n 200).toUInt64.toNat = min n.toInt.toNat 200 := by
  have hn := nonneg_toInt.mp h
  have hmin : (min n 200).toInt = min n.toInt 200 := toInt_min 200
  have hle : 0 ≤ min n 200 := by
    rw [nonneg_toInt, hmin]
    omega
  rw [Int64.toNat_toUInt64_of_le hle, Int64.toNatClampNeg, hmin]
  omega

/-- A negative limit is far above the cap after its cast. -/
theorem toNat_min_of_neg (h : ¬ 0 ≤ n) : 2 ^ 63 ≤ (min n 200).toUInt64.toNat := by
  have hn := mt nonneg_toInt.mpr h
  have hmin : (min n 200).toInt = min n.toInt 200 := toInt_min 200
  have hbv : (min n 200).toInt = (min n 200).toBitVec.toInt := rfl
  have hcond := BitVec.toInt_eq_toNat_cond (min n 200).toBitVec
  have hnat : (min n 200).toUInt64.toNat = (min n 200).toBitVec.toNat := rfl
  rw [hnat]
  split at hcond
  · omega
  · omega

/-- The messages in front of `b` are the first ones. -/
theorem older_some (b : Int) : older (some b) all = all.zipIdx.take b.toNat := by
  suffices h : ∀ k, ((all.zipIdx k).filter fun e => (e.2 : Int) < b) = (all.zipIdx k).take (b.toNat - k) from h 0
  induction all with
  | nil => simp
  | cons m all ih =>
    intro k
    rw [List.zipIdx_cons, List.filter_cons, ih]
    by_cases hk : (k : Int) < b
    · rw [if_pos (by simpa using hk), show b.toNat - k = b.toNat - (k + 1) + 1 by omega, List.take_succ_cons]
    · rw [if_neg (by simpa using hk), show b.toNat - k = 0 by omega, show b.toNat - (k + 1) = 0 by omega,
        List.take_zero, List.take_zero]

theorem older_none : older none all = all.zipIdx := List.filter_eq_self.mpr fun _ _ => rfl

theorem older_prefix : older before all <+: all.zipIdx := by
  cases before with
  | none => exact older_none.symm ▸ List.prefix_rfl
  | some b =>
    rw [older_some]
    exact List.take_prefix ..

theorem older_length_le : (older before all).length ≤ 200 ↔ all.length ≤ 200 ∨ ∃ b, before = some b ∧ b ≤ 200 := by
  cases before with
  | none => simp [older_none]
  | some b =>
    rw [older_some, List.length_take, List.length_zipIdx]
    simp only [Option.some.injEq, exists_eq_left']
    omega

/-- A page has the newest of the older messages. -/
theorem page_suffix : page limit before all <:+ older before all := List.drop_suffix ..

theorem page_length : (page limit before all).length =
    min (min (limit.getD 50) 200).toUInt64.toNat (older before all).length := by
  unfold page
  dsimp only
  rw [List.length_drop]
  omega

theorem page_length_of_nonneg (h : 0 ≤ limit.getD 50) : (page limit before all).length =
    min (min (limit.getD 50).toInt.toNat 200) (older before all).length := by
  rw [page_length, toNat_min_of_nonneg h]

/-- A page with a negative limit has too many messages whenever there are too many. -/
theorem page_bounded : (page limit before all).length ≤ 200 ↔
    0 ≤ limit.getD 50 ∨ all.length ≤ 200 ∨ ∃ b, before = some b ∧ b ≤ 200 := by
  have hfew : (older before all).length ≤ 200 ↔ _ := older_length_le
  rw [← hfew]
  by_cases h : 0 ≤ limit.getD 50
  · rw [page_length_of_nonneg h]
    exact ⟨fun _ => .inl h, fun _ => by omega⟩
  · have hcast := toNat_min_of_neg h
    rw [page_length]
    constructor
    · intro hle
      exact .inr (by omega)
    · rintro (hlimit | hle)
      · exact absurd hlimit h
      · omega

/-! ### Paging -/

/-- Pages listed one after the other, each in front of the first message of the one before, until an empty page. -/
inductive Paging (limit : Option Int64) (all : List Message) : Option Int → List (List (Message × Nat)) → Prop where
  | stop {before : Option Int} (hpage : page limit before all = []) : Paging limit all before []
  | next {before : Option Int} {e : Message × Nat} {es : List (Message × Nat)} {pages : List (List (Message × Nat))}
      (hpage : page limit before all = e :: es) (hrest : Paging limit all (some e.2) pages) :
      Paging limit all before ((e :: es) :: pages)

/-- What is left after a page are the messages in front of its first one. -/
theorem older_eq_append {e : Message × Nat} {es : List (Message × Nat)} (hpage : page limit before all = e :: es) :
    older before all = older (some e.2) all ++ (e :: es) := by
  obtain ⟨front, hfront⟩ : ∃ front, front ++ (e :: es) = older before all := by
    rw [← hpage]
    exact page_suffix
  obtain ⟨rest, hrest⟩ : older before all <+: all.zipIdx := older_prefix
  have hall : all.zipIdx = front ++ (e :: (es ++ rest)) := by
    rw [← hrest, ← hfront, List.append_assoc, List.cons_append]
  have hnum : e.2 = front.length := by
    have hget : all.zipIdx[front.length]? = some e := by rw [hall, List.getElem?_append_right (by omega)]; simp
    rw [List.getElem?_zipIdx, Option.map_eq_some_iff] at hget
    obtain ⟨m, _, rfl⟩ := hget
    exact Nat.zero_add _
  rw [older_some, hnum, Int.toNat_natCast, hall, List.take_left, hfront]

theorem older_eq_nil (hlimit : 1 ≤ (limit.getD 50).toInt) (hpage : page limit before all = []) :
    older before all = [] := by
  have hnonneg : 0 ≤ limit.getD 50 := nonneg_toInt.mpr (by omega)
  have hlen : (page limit before all).length = _ := page_length_of_nonneg hnonneg
  rw [hpage, List.length_nil] at hlen
  exact List.eq_nil_of_length_eq_zero (by omega)

/-- The pages together are the messages to be listed. -/
theorem Paging.flatten {pages : List (List (Message × Nat))} (hlimit : 1 ≤ (limit.getD 50).toInt)
    (h : Paging limit all before pages) : pages.reverse.flatten = older before all := by
  induction h with
  | stop hpage => rw [older_eq_nil hlimit hpage]; rfl
  | next hpage _ ih => rw [List.reverse_cons, List.flatten_append, ih, List.flatten_singleton, older_eq_append hpage]

/-- Paging comes to an end. -/
theorem paging_ends (limit : Option Int64) (before : Option Int) (all : List Message) :
    ∃ pages, Paging limit all before pages := by
  induction hn : (older before all).length using Nat.strong_induction_on generalizing before with
  | _ n ih =>
    cases hpage : page limit before all with
    | nil => exact ⟨[], .stop hpage⟩
    | cons e es =>
      have hlen := congrArg List.length (older_eq_append hpage)
      rw [List.length_append, List.length_cons] at hlen
      obtain ⟨pages, hpages⟩ := ih _ (by omega) (some e.2) rfl
      exact ⟨(e :: es) :: pages, .next hpage hpages⟩

/-! ### Listings -/

variable {showUuid : Uuid → String} {sid : SessionId} {q : ListMessagesQuery}

theorem statusForAgentError_ne (e : AgentError) (body : Json) :
    (⟨statusForAgentError e, body⟩ : Response).status ≠ 200 := by
  cases e with
  | session e => cases e <;> simp [statusForAgentError, storeErrStatus]
  | _ => simp [statusForAgentError]

/-- The handler either lists a page of the history that it has read or reports an error. -/
theorem respondMessages_plays {t : List (Step Reply)} {r : Response}
    (hplay : (respondMessages showUuid sid q).Plays t (.ok r)) :
    (∃ owner all, t = [⟨.sql (.selectSession sid), owner⟩, ⟨.sql (.selectMessages sid), .ok all⟩] ∧
      r = ⟨200, messagesBody (page q.limit (q.before.map Int64.toInt) all)⟩) ∨
    r.status ≠ 200 ∧ ∀ all, ⟨.sql (.selectMessages sid), .ok all⟩ ∉ t := by
  obtain ⟨owner, t, rfl, hplay⟩ := hplay
  rcases owner with e | session
  · obtain ⟨rfl, hr⟩ := hplay
    cases Except.ok.inj hr
    exact .inr ⟨statusForAgentError_ne _ _, by simp⟩
  cases session with
  | none =>
    obtain ⟨rfl, hr⟩ := hplay
    cases Except.ok.inj hr
    exact .inr ⟨statusForAgentError_ne _ _, by simp⟩
  | some session =>
    by_cases hu : session.userId = q.userId
    · simp only [Prog.bind, hu, if_true] at hplay
      obtain ⟨read, t, rfl, hplay⟩ := hplay
      rcases read with e | all
      · obtain ⟨rfl, hr⟩ := hplay
        cases Except.ok.inj hr
        exact .inr ⟨statusForAgentError_ne _ _, by simp⟩
      · obtain ⟨rfl, hr⟩ := hplay
        exact .inl ⟨_, all, rfl, Except.ok.inj hr⟩
    · simp only [Prog.bind, hu, if_false] at hplay
      obtain ⟨rfl, hr⟩ := hplay
      cases Except.ok.inj hr
      exact .inr ⟨statusForAgentError_ne _ _, by simp⟩

theorem listMessages_page {limiter : RateLimiter} {now : Nat} {t : List (Step Reply)} {r : Response}
    (hplay : (listMessages showUuid limiter now sid q).1.Plays t (.ok r))
    (hread : ⟨.sql (.selectMessages sid), .ok all⟩ ∈ t) :
    r = ⟨200, messagesBody (page q.limit (q.before.map Int64.toInt) all)⟩ := by
  unfold listMessages at hplay
  split at hplay
  · obtain ⟨rfl, _⟩ := hplay
    cases hread
  · rcases respondMessages_plays hplay with ⟨owner, all', rfl, rfl⟩ | ⟨_, hnone⟩
    · have hall : all = all' := by simpa using hread
      rw [hall]
    · exact absurd hread (hnone all)

/-- A response lists the newest messages in front of `before`, and at most 200 of them just when the limit is not
negative or so few are there. The pages of a positive limit list every message once. -/
theorem listing_exact (showUuid : Uuid → String) (limiter : RateLimiter) (now : Nat) (sid : SessionId)
    (q : ListMessagesQuery) (all : List Message) :
    (∀ t r, (listMessages showUuid limiter now sid q).1.Plays t (.ok r) →
      ⟨.sql (.selectMessages sid), .ok all⟩ ∈ t →
      r = ⟨200, messagesBody (page q.limit (q.before.map Int64.toInt) all)⟩) ∧
    (∀ before : Option Int,
      ((page q.limit before all).length ≤ 200 ∧ page q.limit before all <:+ older before all ↔
        0 ≤ q.limit.getD 50 ∨ all.length ≤ 200 ∨ ∃ b, before = some b ∧ b ≤ 200) ∧
      (0 ≤ q.limit.getD 50 → (page q.limit before all).length =
        min (min (q.limit.getD 50).toInt.toNat 200) (older before all).length)) ∧
    (1 ≤ (q.limit.getD 50).toInt → (∃ pages, Paging q.limit all none pages) ∧
      ∀ pages, Paging q.limit all none pages → pages.reverse.flatten = all.zipIdx) := by
  refine ⟨fun t r => listMessages_page, fun before => ⟨?_, page_length_of_nonneg⟩,
    fun hlimit => ⟨paging_ends q.limit none all, fun pages h => ?_⟩⟩
  · rw [and_iff_left page_suffix]
    exact page_bounded
  · rw [h.flatten hlimit, older_none]

/-- With a limit of -1, a history of 201 messages is listed in full. -/
theorem negative_limit_unbounded : ∃ (all : List Message) (t : List (Step Reply)),
    (listMessages (fun _ => "") (.new 60 60) 0 0 ⟨"user", some (-1), none⟩).1.Plays t
      (.ok ⟨200, messagesBody (page (some (-1)) none all)⟩) ∧
    (page (some (-1)) none all).length = 201 := by
  refine ⟨List.replicate 201 ⟨.user, []⟩, _,
    ⟨.ok (some ⟨0, "user", .active, 0, 0⟩), _, rfl, .ok _, _, rfl, rfl, rfl⟩, ?_⟩
  rw [page_length, older_none, List.length_zipIdx, List.length_replicate]
  decide

end SessionRoutes

end AgentVerse
