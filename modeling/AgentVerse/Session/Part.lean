import Mathlib.Data.List.Sort
import Mathlib.Data.List.Find
import AgentVerse.Session.Cascade

/-!
# The part of the store that belongs to a user

`Store.part` keeps the sessions of a user and their messages; the row ids of messages are left out, because they are
numbered across all users. A statement about a user's own sessions has the same result on the part as on the whole
store and changes the part in the same way (`Statement.exec_part`); a statement about the sessions of another user does
not change it (`Statement.exec_part_other`).
-/

namespace AgentVerse

/-- A message row without its row id. -/
def MessageRow.unnumbered (m : MessageRow) : MessageRow := { m with id := 0 }

namespace Store

variable (s : Store)

/-- The session is one of the user's. -/
def belongs (userId : String) (sid : SessionId) : Bool := s.sessions.any fun r => r.id = sid && r.userId = userId

/-- The sessions of a user with their messages. -/
def part (userId : String) : Store where
  sessions := s.sessions.filter fun r => r.userId = userId
  messages := (s.messages.map MessageRow.unnumbered).filter fun m => s.belongs userId m.sessionId
  lastRowId := 0

/-- Nobody else has the session. -/
def Mine (userId : String) (sid : SessionId) : Prop := ∀ r ∈ s.sessions, r.id = sid → r.userId = userId

variable {s} {userId other : String} {sid : SessionId}

theorem belongs_iff : s.belongs userId sid = true ↔ ∃ r ∈ s.sessions, r.id = sid ∧ r.userId = userId := by
  simp [belongs]

theorem belongs_congr {s' : Store} (h : ∀ sid, (∃ r ∈ s'.sessions, r.id = sid ∧ r.userId = userId) ↔
    ∃ r ∈ s.sessions, r.id = sid ∧ r.userId = userId) : s'.belongs userId = s.belongs userId := by
  funext sid
  rw [Bool.eq_iff_iff, belongs_iff, belongs_iff]
  exact h sid

theorem mem_part {r : SessionRow} : r ∈ (s.part userId).sessions ↔ r ∈ s.sessions ∧ r.userId = userId := by
  simp [part]

theorem belongs_part : (s.part userId).belongs userId = s.belongs userId := by
  refine belongs_congr fun sid => ?_
  simp only [mem_part]
  exact ⟨fun ⟨r, hr, h⟩ => ⟨r, hr.1, h⟩, fun ⟨r, hr, h⟩ => ⟨r, ⟨hr, h.2⟩, h⟩⟩

theorem Mine.not_belongs (h : s.Mine other sid) (hne : other ≠ userId) : s.belongs userId sid = false := by
  rw [Bool.eq_false_iff]
  intro hb
  obtain ⟨r, hr, hid, hu⟩ := belongs_iff.mp hb
  exact hne ((h r hr hid).symm.trans hu)

/-- The part of the part. -/
theorem part_part : (s.part userId).part userId = s.part userId := by
  have hmessages : ((s.part userId).messages.map MessageRow.unnumbered).filter
      (fun m => (s.part userId).belongs userId m.sessionId) = (s.part userId).messages := by
    rw [belongs_part]
    simp only [part, List.filter_map, List.map_map, List.filter_filter]
    congr 1
    refine List.filter_congr fun m _ => ?_
    simp [MessageRow.unnumbered]
  unfold part at hmessages ⊢
  simp only [mk.injEq, List.filter_filter, Bool.and_self, and_true, true_and]
  exact hmessages

/-! ### Reading the part -/

theorem row?_part (h : s.Mine userId sid) : (s.part userId).row? sid = s.row? sid := by
  simp only [row?, part, List.find?_filter]
  refine List.find?_congr fun r hr => ?_
  by_cases hid : r.id = sid
  · simp [hid, h r hr hid]
  · simp [hid]

theorem row?_part_none (h : s.Mine other sid) (hne : other ≠ userId) : (s.part userId).row? sid = none := by
  refine row?_eq_none.mpr fun r hr hid => ?_
  obtain ⟨hr, hu⟩ := mem_part.mp hr
  exact hne ((h r hr hid).symm.trans hu)

theorem rows_part (h : s.Mine userId sid) (hlinked : s.Linked sid) :
    (s.part userId).rows sid = (s.rows sid).map MessageRow.unnumbered := by
  simp only [rows, part, List.filter_map, List.filter_filter]
  congr 1
  cases hrow : s.row? sid with
  | none =>
    have hnone := List.filter_eq_nil_iff.mp (hlinked hrow)
    refine List.filter_congr fun m hm => ?_
    have hm := hnone m hm
    simp only [decide_eq_true_eq] at hm
    simp [hm, MessageRow.unnumbered]
  | some r =>
    have hmem : r ∈ s.sessions := List.mem_of_find?_eq_some hrow
    have hbelongs : s.belongs userId sid = true := belongs_iff.mpr ⟨r, hmem, row?_id hrow, h r hmem (row?_id hrow)⟩
    refine List.filter_congr fun m _ => ?_
    by_cases hm : m.sessionId = sid
    · simp [hm, hbelongs, MessageRow.unnumbered]
    · simp [hm, MessageRow.unnumbered]

/-- The part has no messages without their session. -/
theorem linked_part : (s.part userId).Linked sid := by
  intro hnone
  refine List.filter_eq_nil_iff.mpr fun m hm hsid => ?_
  obtain ⟨r, hr, hid, hu⟩ := belongs_iff.mp (List.mem_filter.mp hm).2
  exact row?_eq_none.mp hnone r (mem_part.mpr ⟨hr, hu⟩) (hid.trans (of_decide_eq_true hsid))

theorem bySequence_unnumbered (l : List MessageRow) :
    bySequence (l.map MessageRow.unnumbered) = (bySequence l).map MessageRow.unnumbered :=
  (List.map_insertionSort _ _ MessageRow.unnumbered l fun _ _ _ _ => Iff.rfl).symm

theorem transcript_part (h : s.Mine userId sid) (hlinked : s.Linked sid) :
    (s.part userId).transcript sid = s.transcript sid := by
  rw [transcript, rows_part h hlinked, bySequence_unnumbered, List.map_map, transcript]
  rfl

theorem maxSequence_part (h : s.Mine userId sid) (hlinked : s.Linked sid) :
    (s.part userId).maxSequence sid = s.maxSequence sid := by
  rw [maxSequence, rows_part h hlinked, List.map_map, maxSequence]
  rfl

theorem sessionsOf_part : (s.part userId).sessionsOf userId = s.sessionsOf userId := by
  simp only [sessionsOf, part, List.filter_filter, Bool.and_self]

/-! ### Changing the part -/

/-- An update of one row, which leaves its id and its owner. -/
theorem part_update {f : SessionRow → SessionRow} (hid : ∀ r, (f r).id = r.id) (hu : ∀ r, (f r).userId = r.userId) :
    (s.updateSession sid f).2.part userId = ((s.part userId).updateSession sid f).2 := by
  have hbelongs : (s.updateSession sid f).2.belongs userId = s.belongs userId := by
    refine belongs_congr fun s' => ?_
    simp only [updateSession, List.mem_map]
    constructor
    · rintro ⟨_, ⟨r, hr, rfl⟩, h⟩
      refine ⟨r, hr, ?_⟩
      split at h
      · simpa [hid, hu] using h
      · exact h
    · rintro ⟨r, hr, h⟩
      refine ⟨_, ⟨r, hr, rfl⟩, ?_⟩
      split
      · simpa [hid, hu] using h
      · exact h
  have hsessions : (s.updateSession sid f).2.sessions.filter (fun r => r.userId = userId) =
      (s.sessions.filter fun r => r.userId = userId).map fun r => if r.id = sid then f r else r := by
    simp only [updateSession, List.filter_map]
    congr 1
    refine List.filter_congr fun r _ => ?_
    simp only [Function.comp_apply]
    split <;> simp [hu]
  unfold part
  rw [hbelongs, hsessions]
  rfl

/-- A deletion of one session. -/
theorem part_delete : (s.deleteSessions fun r => r.id = sid).2.part userId =
    ((s.part userId).deleteSessions fun r => r.id = sid).2 := by
  have hany : ∀ (l : List SessionRow) (m : MessageRow), ((l.filter fun r => decide (r.id = sid)).any
      fun r => r.id = m.sessionId) = true ↔ m.sessionId = sid ∧ ∃ r ∈ l, r.id = sid := by
    intro l m
    simp only [List.any_eq_true, List.mem_filter, decide_eq_true_eq]
    constructor
    · rintro ⟨r, ⟨hr, hid⟩, hm⟩
      exact ⟨hm.symm.trans hid, r, hr, hid⟩
    · rintro ⟨hm, r, hr, hid⟩
      exact ⟨r, ⟨hr, hid⟩, hid.trans hm.symm⟩
  have hbelongs : ∀ s', (s.deleteSessions fun r => r.id = sid).2.belongs userId s' = true ↔
      s.belongs userId s' = true ∧ s' ≠ sid := by
    intro s'
    simp only [belongs_iff, deleteSessions, List.mem_filter]
    constructor
    · rintro ⟨r, ⟨hr, hkept⟩, rfl, hu⟩
      exact ⟨⟨r, hr, rfl, hu⟩, by simpa using hkept⟩
    · rintro ⟨⟨r, hr, rfl, hu⟩, hne⟩
      exact ⟨r, ⟨hr, by simpa using hne⟩, rfl, hu⟩
  have hsessions : (s.deleteSessions fun r => r.id = sid).2.sessions.filter (fun r => r.userId = userId) =
      ((s.part userId).deleteSessions fun r => r.id = sid).2.sessions := by
    simp only [deleteSessions, part, List.filter_filter, Bool.and_comm]
  have hmessages : ((s.deleteSessions fun r => r.id = sid).2.messages.map MessageRow.unnumbered).filter
      (fun m => (s.deleteSessions fun r => r.id = sid).2.belongs userId m.sessionId) =
        ((s.part userId).deleteSessions fun r => r.id = sid).2.messages := by
    show ((s.messages.filter fun m => !(s.sessions.filter _).any _).map MessageRow.unnumbered).filter _ =
      ((s.messages.map MessageRow.unnumbered).filter _).filter fun m => !((s.part userId).sessions.filter _).any _
    rw [List.filter_filter, List.filter_map, List.filter_map, List.filter_filter]
    congr 1
    refine List.filter_congr fun m _ => ?_
    show ((s.deleteSessions fun r => r.id = sid).2.belongs userId m.sessionId &&
        !(s.sessions.filter fun r => r.id = sid).any fun r => r.id = m.sessionId) =
      ((!((s.part userId).sessions.filter fun r => r.id = sid).any fun r => r.id = m.sessionId) &&
        s.belongs userId m.sessionId)
    rw [Bool.eq_iff_iff]
    simp only [Bool.and_eq_true, Bool.not_eq_true', Bool.eq_false_iff, ne_eq,
      hany, hbelongs, belongs_iff, mem_part]
    constructor
    · rintro ⟨⟨⟨r, hr, hid, hu⟩, hne⟩, -⟩
      exact ⟨fun h => hne h.1, r, hr, hid, hu⟩
    · rintro ⟨hkept, r, hr, hid, hu⟩
      have hne : m.sessionId ≠ sid := fun h => hkept ⟨h, r, ⟨hr, hu⟩, hid.trans h⟩
      exact ⟨⟨⟨r, hr, hid, hu⟩, hne⟩, fun h => hne h.1⟩
  unfold part at hsessions hmessages ⊢
  rw [hsessions, hmessages]
  rfl

/-- What an append inserts, without row ids. -/
def insertedRows (sid : SessionId) (seq now : Int) : List Message → List MessageRow
  | [] => []
  | m :: ms => ⟨0, sid, m, seq, now⟩ :: insertedRows sid (seq + 1) now ms

theorem insertedRows_session {seq now : Int} {ms : List Message} {m : MessageRow}
    (hm : m ∈ insertedRows sid seq now ms) : m.sessionId = sid := by
  induction ms generalizing seq with
  | nil => cases hm
  | cons text ms ih =>
    rcases List.mem_cons.mp hm with rfl | hm
    · rfl
    · exact ih hm

theorem insertFrom_unnumbered (s : Store) (sid : SessionId) (seq now : Int) (ms : List Message) :
    (s.insertFrom sid seq now ms).messages.map MessageRow.unnumbered =
      s.messages.map MessageRow.unnumbered ++ insertedRows sid seq now ms := by
  induction ms generalizing s seq with
  | nil => simp [insertFrom, insertedRows]
  | cons m ms ih =>
    rw [insertFrom, ih, insertedRows]
    simp [insertMessage, MessageRow.unnumbered]

theorem part_insertFrom (s : Store) (sid : SessionId) (seq now : Int) (ms : List Message) :
    (s.insertFrom sid seq now ms).part userId =
      { s.part userId with
        messages := (s.part userId).messages ++ (insertedRows sid seq now ms).filter fun m => s.belongs userId m.sessionId } := by
  have hbelongs : (s.insertFrom sid seq now ms).belongs userId = s.belongs userId :=
    belongs_congr fun _ => by rw [sessions_insertFrom]
  unfold part
  rw [hbelongs, sessions_insertFrom, insertFrom_unnumbered, List.filter_append]

/-- An append to one of the user's sessions. -/
theorem part_append (h : s.Mine userId sid) (hlinked : s.Linked sid) (ms : List Message) (now : Int) :
    ((s.part userId).appendMessages sid ms now).1 = (s.appendMessages sid ms now).1 ∧
      ((s.part userId).appendMessages sid ms now).2.part userId = (s.appendMessages sid ms now).2.part userId := by
  unfold appendMessages
  rw [row?_part h, maxSequence_part h hlinked]
  cases s.row? sid with
  | none => exact ⟨rfl, part_part⟩
  | some r => exact ⟨rfl, by rw [part_insertFrom, part_insertFrom, part_part, belongs_part]⟩

theorem part_append_other (h : s.Mine other sid) (hne : other ≠ userId) (ms : List Message) (now : Int) :
    (s.appendMessages sid ms now).2.part userId = s.part userId := by
  unfold appendMessages
  cases s.row? sid with
  | none => rfl
  | some r =>
    have hnone : (insertedRows sid (s.maxSequence sid + 1) now ms).filter (fun m => s.belongs userId m.sessionId) = [] := by
      refine List.filter_eq_nil_iff.mpr fun m hm => ?_
      rw [insertedRows_session hm, h.not_belongs hne]
      exact Bool.false_ne_true
    rw [part_insertFrom, hnone, List.append_nil]

/-- An insertion of a session. -/
theorem part_insert {row : SessionRow} (hnew : s.row? row.id = none) (hlinked : s.Linked row.id) :
    (s.insertSession row).2.part userId =
      { s.part userId with
        sessions := (s.part userId).sessions ++ if row.userId = userId then [row] else [] } := by
  have hstore : (s.insertSession row).2 = { s with sessions := s.sessions ++ [row] } := by
    unfold insertSession
    rw [hnew]
  have hsessions : (s.sessions ++ [row]).filter (fun r => r.userId = userId) =
      (s.part userId).sessions ++ if row.userId = userId then [row] else [] := by
    rw [List.filter_append]
    by_cases hu : row.userId = userId <;> simp [part, hu]
  have hmessages : (s.messages.map MessageRow.unnumbered).filter
      (fun m => belongs { s with sessions := s.sessions ++ [row] } userId m.sessionId) = (s.part userId).messages := by
    have hrows := List.filter_eq_nil_iff.mp (hlinked hnew)
    simp only [part, List.filter_map]
    congr 1
    refine List.filter_congr fun m hm => ?_
    have hne : row.id ≠ m.sessionId := fun h => hrows m hm (decide_eq_true h.symm)
    simp [belongs, MessageRow.unnumbered, hne]
  rw [hstore]
  unfold part at hsessions hmessages ⊢
  rw [hsessions, hmessages]

theorem count_part (h : s.Mine userId sid) (f : SessionRow → SessionRow) :
    ((s.part userId).updateSession sid f).1 = (s.updateSession sid f).1 := by
  simp only [updateSession, part, List.filter_filter]
  congr 1
  refine List.filter_congr fun r hr => ?_
  by_cases hid : r.id = sid
  · simp [hid, h r hr hid]
  · simp [hid]

/-- Nothing changes where there is no row. -/
theorem updateSession_missing {f : SessionRow → SessionRow} (h : s.row? sid = none) : (s.updateSession sid f).2 = s := by
  have hrows := row?_eq_none.mp h
  have hmap : s.sessions.map (fun r => if r.id = sid then f r else r) = s.sessions := by
    refine (List.map_congr_left fun r hr => ?_).trans s.sessions.map_id
    exact if_neg (hrows r hr)
  simp only [updateSession, hmap]

theorem deleteSessions_missing (h : s.row? sid = none) :
    (s.deleteSessions fun r => r.id = sid).2 = s := by
  have hrows := row?_eq_none.mp h
  have hsessions : s.sessions.filter (fun r => !decide (r.id = sid)) = s.sessions :=
    List.filter_eq_self.mpr fun r hr => by simpa using hrows r hr
  have hnone : s.sessions.filter (fun r => decide (r.id = sid)) = [] :=
    List.filter_eq_nil_iff.mpr fun r hr => by simpa using hrows r hr
  simp only [deleteSessions, hsessions, hnone, List.any_nil, Bool.not_false, List.filter_true]

end Store

namespace Statement

variable {s : Store} {userId other : String} {sid : SessionId} {st : Statement}

/-- The session that a call's statement is about. -/
def session? : Statement → Option SessionId
  | selectSession sid | updateStatus sid .. | appendMessages sid .. | selectMessages sid | deleteSession sid
  | updateSkillContext sid _ | selectSkillContext sid | updatePhaseOpening sid _ | selectPhaseOpening sid
  | updatePhaseTransition sid .. | updateInterruptedState sid _ | selectInterruptedState sid => some sid
  | _ => none

/-- A statement about the sessions of a user, or about a new one. -/
def OfUser (s : Store) (userId : String) (st : Statement) : Prop :=
  match st with
  | insertSession row => row.userId = userId ∧ s.row? row.id = none
  | selectByUser u => u = userId
  | st => ∃ sid, st.session? = some sid ∧ s.Mine userId sid

theorem update?_user {f : SessionRow → SessionRow} (h : st.update? = some (sid, f)) (row : SessionRow) :
    (f row).userId = row.userId := by
  cases st <;> simp only [update?, Option.some.injEq, Prod.mk.injEq, reduceCtorEq] at h <;>
    (obtain ⟨-, rfl⟩ := h; rfl)

/-- What a statement does to the user's part. -/
theorem exec_part (hlinked : ∀ sid, s.Linked sid) (hst : st.OfUser s userId) :
    (st.exec (s.part userId)).1 = (st.exec s).1 ∧
      (st.exec (s.part userId)).2.part userId = (st.exec s).2.part userId := by
  -- The updates of a row go alike; the other statements one by one.
  cases hu : st.update? with
  | some x =>
    obtain ⟨s', f⟩ := x
    constructor
    · cases st <;> simp only [update?, Option.some.injEq, Prod.mk.injEq, reduceCtorEq] at hu
      all_goals obtain ⟨rfl, rfl⟩ := hu
      all_goals
        obtain ⟨_, hs, hmine⟩ := hst
        cases hs <;> exact congrArg Except.ok (Store.count_part hmine _)
    · rw [exec_update hu, exec_update hu, Store.part_update (update?_id hu) (update?_user hu),
        Store.part_update (update?_id hu) (update?_user hu), Store.part_part]
  | none =>
    cases st with
    | updateStatus | updateWatermark | updateSkillContext | updatePhaseOpening | updatePhaseTransition
    | updateInterruptedState => simp [update?] at hu
    | insertSession row =>
      obtain ⟨huser, hnew⟩ := hst
      have hnew' : (s.part userId).row? row.id = none :=
        Store.row?_eq_none.mpr fun r hr => Store.row?_eq_none.mp hnew r (Store.mem_part.mp hr).1
      constructor
      · simp only [exec, Store.insertSession, hnew, hnew']
      · simp only [exec]
        rw [Store.part_insert hnew' Store.linked_part, Store.part_insert hnew (hlinked _), Store.part_part]
    | selectByUser u =>
      obtain rfl : u = userId := hst
      exact ⟨congrArg Except.ok Store.sessionsOf_part, Store.part_part⟩
    | selectMessages sid =>
      obtain ⟨_, hs, hmine⟩ := hst
      cases hs
      exact ⟨congrArg Except.ok (Store.transcript_part hmine (hlinked _)), Store.part_part⟩
    | appendMessages sid ms now =>
      obtain ⟨_, hs, hmine⟩ := hst
      cases hs
      exact Store.part_append hmine (hlinked _) ms now
    | deleteSession sid =>
      refine ⟨rfl, ?_⟩
      simp only [exec]
      rw [Store.part_delete, Store.part_delete, Store.part_part]
    | selectSession sid =>
      obtain ⟨_, hs, hmine⟩ := hst
      cases hs
      exact ⟨by simp only [exec, Store.row?_part hmine], Store.part_part⟩
    | selectSkillContext sid | selectPhaseOpening sid | selectInterruptedState sid =>
      obtain ⟨_, hs, hmine⟩ := hst
      cases hs
      exact ⟨by simp only [exec, Store.row?_part hmine], Store.part_part⟩
    | selectWatermark | selectMessagesAbove | selectNeedingMaintenance | deleteExpired | deleteEndedSessions =>
      obtain ⟨_, hs, _⟩ := hst
      cases hs

/-- Other users' statements leave the part alone. -/
theorem exec_part_other (hlinked : ∀ sid, s.Linked sid) (hst : st.OfUser s other) (hne : other ≠ userId) :
    (st.exec s).2.part userId = s.part userId := by
  cases hu : st.update? with
  | some x =>
    obtain ⟨s', f⟩ := x
    rw [exec_update hu, Store.part_update (update?_id hu) (update?_user hu)]
    have hmine : s.Mine other s' := by
      cases st <;> simp only [update?, Option.some.injEq, Prod.mk.injEq, reduceCtorEq] at hu
      all_goals obtain ⟨rfl, -⟩ := hu
      all_goals
        obtain ⟨_, hs, hmine⟩ := hst
        cases hs <;> exact hmine
    exact Store.updateSession_missing (Store.row?_part_none hmine hne)
  | none =>
    cases st with
    | updateStatus | updateWatermark | updateSkillContext | updatePhaseOpening | updatePhaseTransition
    | updateInterruptedState => simp [update?] at hu
    | insertSession row =>
      obtain ⟨huser, hnew⟩ := hst
      have hrow : row.userId ≠ userId := huser ▸ hne
      simp only [exec]
      rw [Store.part_insert hnew (hlinked _), if_neg hrow, List.append_nil]
    | appendMessages sid ms now =>
      obtain ⟨_, hs, hmine⟩ := hst
      cases hs
      exact Store.part_append_other hmine hne ms now
    | deleteSession sid =>
      obtain ⟨_, hs, hmine⟩ := hst
      cases hs
      simp only [exec]
      rw [Store.part_delete]
      exact Store.deleteSessions_missing (Store.row?_part_none hmine hne)
    | selectWatermark | selectMessagesAbove | selectNeedingMaintenance | deleteExpired | deleteEndedSessions =>
      obtain ⟨_, hs, _⟩ := hst
      cases hs
    | _ => rfl

/-! ### The rows of sessions -/

/-- A statement makes a row only by inserting it; all others come from a row of the same session and the same user. -/
theorem exec_session {r : SessionRow} (st : Statement) (hr : r ∈ (st.exec s).2.sessions) :
    (∃ r' ∈ s.sessions, r'.id = r.id ∧ r'.userId = r.userId) ∨ st = .insertSession r := by
  cases hu : st.update? with
  | some x =>
    obtain ⟨sid, f⟩ := x
    rw [exec_update hu] at hr
    obtain ⟨r', hr', rfl⟩ := List.mem_map.mp hr
    refine .inl ⟨r', hr', ?_⟩
    split
    · exact ⟨(update?_id hu r').symm, (update?_user hu r').symm⟩
    · exact ⟨rfl, rfl⟩
  | none =>
    cases st with
    | insertSession row =>
      simp only [exec, Store.insertSession] at hr
      split at hr
      · exact .inl ⟨r, hr, rfl, rfl⟩
      · rcases List.mem_append.mp hr with hr | hr
        · exact .inl ⟨r, hr, rfl, rfl⟩
        · rw [List.mem_singleton.mp hr]
          exact .inr rfl
    | deleteSession | deleteEndedSessions => exact .inl ⟨r, List.mem_of_mem_filter hr, rfl, rfl⟩
    | appendMessages sid ms now =>
      simp only [exec, Store.sessions_appendMessages] at hr
      exact .inl ⟨r, hr, rfl, rfl⟩
    | selectWatermark sid =>
      refine .inl ⟨r, ?_, rfl, rfl⟩
      simp only [exec] at hr
      split at hr <;> exact hr
    | updateStatus | updateWatermark | updateSkillContext | updatePhaseOpening | updatePhaseTransition
    | updateInterruptedState => simp [update?] at hu
    | _ => exact .inl ⟨r, hr, rfl, rfl⟩

/-- No statement makes a second row of a session. -/
theorem exec_unique (h : (s.sessions.map (·.id)).Nodup) (st : Statement) :
    ((st.exec s).2.sessions.map (·.id)).Nodup := by
  cases hu : st.update? with
  | some x =>
    obtain ⟨sid, f⟩ := x
    have hids : (s.updateSession sid f).2.sessions.map (·.id) = s.sessions.map (·.id) := by
      simp only [Store.updateSession, List.map_map]
      refine List.map_congr_left fun r _ => ?_
      simp only [Function.comp_apply]
      split
      · exact update?_id hu r
      · rfl
    rw [exec_update hu, hids]
    exact h
  | none =>
    cases st with
    | insertSession row =>
      simp only [exec, Store.insertSession]
      split
      · exact h
      · rename_i hnone
        have hnew := Store.row?_eq_none.mp hnone
        simp only [List.map_append, List.map_cons, List.map_nil]
        refine List.nodup_append.mpr ⟨h, List.nodup_singleton _, ?_⟩
        rintro _ hid _ hrow rfl
        obtain ⟨r, hr, hid⟩ := List.mem_map.mp hid
        exact hnew r hr (hid.trans (List.mem_singleton.mp hrow))
    | deleteSession | deleteEndedSessions => exact h.sublist (List.filter_sublist.map _)
    | appendMessages sid ms now =>
      simp only [exec, Store.sessions_appendMessages]
      exact h
    | selectWatermark sid =>
      simp only [exec]
      split <;> exact h
    | updateStatus | updateWatermark | updateSkillContext | updatePhaseOpening | updatePhaseTransition
    | updateInterruptedState => simp [update?] at hu
    | _ => exact h

end Statement

end AgentVerse
