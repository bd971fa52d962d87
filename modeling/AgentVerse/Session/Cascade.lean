import AgentVerse.Session.Ledger

/-!
# What deletions leave

A deletion of sessions takes their messages with it. No statement leaves messages without the row of their session
(`Statement.exec_linked`), and none but an insertion makes a row (`Statement.exec_row_none`).
-/

namespace AgentVerse

open Effects

variable {env : Env} {sid : SessionId} {q : Request}

/-- The messages of a session without a row: there are none. -/
def Store.Linked (s : Store) (sid : SessionId) : Prop := s.row? sid = none → s.rows sid = []

namespace Store

variable {s : Store}

theorem row?_eq_none : s.row? sid = none ↔ ∀ r ∈ s.sessions, r.id ≠ sid := by
  simp [row?, List.find?_eq_none]

theorem row?_none_delete (h : s.row? sid = none) (p : SessionRow → Bool) : (s.deleteSessions p).2.row? sid = none :=
  row?_eq_none.mpr fun r hr => row?_eq_none.mp h r (List.mem_of_mem_filter hr)

theorem row?_none_update {s' : SessionId} {f : SessionRow → SessionRow} (hf : ∀ r, (f r).id = r.id) :
    (s.updateSession s' f).2.row? sid = none ↔ s.row? sid = none := by
  by_cases hs : sid = s'
  · subst hs
    rw [row?_updateSession_same hf, Option.map_eq_none_iff]
  · rw [row?_updateSession_other hf hs]

/-- The cascade of a deletion. -/
theorem Linked.delete (h : s.Linked sid) (p : SessionRow → Bool) : (s.deleteSessions p).2.Linked sid := by
  intro hnone
  have hrows := row?_eq_none.mp hnone
  refine List.filter_eq_nil_iff.mpr fun m hm => ?_
  obtain ⟨hm, hkept⟩ := List.mem_filter.mp hm
  by_cases hrow : s.row? sid = none
  · exact List.filter_eq_nil_iff.mp (h hrow) m hm
  · obtain ⟨r, hr⟩ := Option.ne_none_iff_exists'.mp hrow
    have hmem : r ∈ s.sessions := List.mem_of_find?_eq_some hr
    have hp : p r = true := by
      by_contra hp
      exact hrows r (List.mem_filter.mpr ⟨hmem, by simpa using hp⟩) (row?_id hr)
    intro hsid
    have hany : (s.sessions.filter p).any (fun r => decide (r.id = m.sessionId)) = true := by
      refine List.any_eq_true.mpr ⟨r, List.mem_filter.mpr ⟨hmem, hp⟩, ?_⟩
      simpa [row?_id hr] using (of_decide_eq_true hsid).symm
    rw [hany] at hkept
    cases hkept

theorem Linked.append (h : s.Linked sid) (s' : SessionId) (ms : List Message) (now : Int) :
    (s.appendMessages s' ms now).2.Linked sid := by
  intro hnone
  rw [row?_appendMessages] at hnone
  by_cases hs : s' = sid
  · subst hs
    simp only [appendMessages, hnone]
    exact h hnone
  · rw [rows_appendMessages_other hs]
    exact h hnone

theorem Linked.insert (h : s.Linked sid) (row : SessionRow) : (s.insertSession row).2.Linked sid := by
  intro hnone
  have hbefore : s.row? sid = none := by
    refine row?_eq_none.mpr fun r hr => row?_eq_none.mp hnone r ?_
    unfold insertSession
    split
    · exact hr
    · exact List.mem_append_left _ hr
  have hmessages : (s.insertSession row).2.messages = s.messages := by
    unfold insertSession
    split <;> rfl
  rw [rows_congr hmessages]
  exact h hbefore

end Store

namespace Statement

variable {s : Store}

/-- No statement leaves messages behind. -/
theorem exec_linked (h : s.Linked sid) (st : Statement) : (st.exec s).2.Linked sid := by
  cases hu : st.update? with
  | some u =>
    rw [exec_update hu]
    intro hnone
    exact h ((Store.row?_none_update (update?_id hu)).mp hnone)
  | none =>
    cases st with
    | insertSession row => exact h.insert row
    | deleteSession s' => exact h.delete _
    | deleteEndedSessions cutoff => exact h.delete _
    | appendMessages s' ms now => exact h.append s' ms now
    | deleteExpired s' cutoff wm =>
      intro hnone
      have hrows := List.filter_eq_nil_iff.mp (h hnone)
      exact List.filter_eq_nil_iff.mpr fun m hm => hrows m (List.mem_of_mem_filter hm)
    | selectWatermark s' => simp only [exec]; split <;> exact h
    | updateStatus | updateWatermark | updateSkillContext | updatePhaseOpening | updatePhaseTransition
    | updateInterruptedState => simp [update?] at hu
    | _ => exact h

/-- Only an insertion makes a session. -/
theorem exec_row_none (h : s.row? sid = none) {st : Statement} (hst : ∀ row, st ≠ .insertSession row) :
    (st.exec s).2.row? sid = none := by
  cases hu : st.update? with
  | some u =>
    rw [exec_update hu]
    exact (Store.row?_none_update (update?_id hu)).mpr h
  | none =>
    cases st with
    | insertSession row => exact absurd rfl (hst row)
    | deleteSession s' => exact Store.row?_none_delete h _
    | deleteEndedSessions cutoff => exact Store.row?_none_delete h _
    | appendMessages s' ms now => exact (Store.row?_appendMessages ..).trans h
    | selectWatermark s' => simp only [exec]; split <;> exact h
    | updateStatus | updateWatermark | updateSkillContext | updatePhaseOpening | updatePhaseTransition
    | updateInterruptedState => simp [update?] at hu
    | _ => exact h

end Statement

/-- What every statement keeps, every request does. -/
theorem store_after {p : Store → Prop} {w : World} (h : p w.store)
    (hst : ∀ st, q = .sql st → p (st.exec w.store).2) : p (handle env q w).2.store := by
  by_cases hsql : ∃ st, q = .sql st
  · obtain ⟨st, rfl⟩ := hsql
    cases he : env.storeError w.steps with
    | some e => rw [handle_sql_error st he]; exact h
    | none => rw [handle_sql_ok st he]; exact hst st rfl
  · rw [handle_store fun st h => hsql ⟨st, h⟩]
    exact h

theorem linked_after {w : World} (h : w.store.Linked sid) : (handle env q w).2.store.Linked sid :=
  store_after (p := fun s => s.Linked sid) h fun _ _ => Statement.exec_linked h _

theorem row_none_after {w : World} (h : w.store.row? sid = none) (hq : ∀ row, q ≠ .sql (.insertSession row)) :
    (handle env q w).2.store.row? sid = none :=
  store_after (p := fun s => s.row? sid = none) h fun _ hst =>
    Statement.exec_row_none h fun row hrow => hq row (hst.trans (congrArg _ hrow))

/-- A deletion that succeeds removes the row. -/
theorem deleteSession_row {w : World} {r : Unit} (hr : (handle env (.sql (.deleteSession sid)) w).1 = .ok r) :
    (handle env (.sql (.deleteSession sid)) w).2.store.row? sid = none := by
  cases he : env.storeError w.steps with
  | some e => rw [handle_sql_error _ he] at hr; cases hr
  | none =>
    rw [handle_sql_ok _ he]
    refine Store.row?_eq_none.mpr fun r hr => ?_
    simpa using (List.mem_filter.mp hr).2

end AgentVerse
