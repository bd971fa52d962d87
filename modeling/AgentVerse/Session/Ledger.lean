import AgentVerse.Session.Frame

/-!
# Messages and the watermark

The message rows of a session are numbered upwards (`Store.Numbered`), and the watermark of the session only grows.
A request is `Quiet` for a session when it touches neither; the other requests that a session in use sees append
rows above all present ones, raise the watermark, or delete expired rows.
-/

namespace AgentVerse

open Effects

/-! ### Rows and watermark of a session -/

namespace Store

variable {s : Store} {sid sid' : SessionId}

/-- The watermark of a session, 0 for one that does not exist. -/
def watermark (s : Store) (sid : SessionId) : Int := ((s.row? sid).map (·.consolidationWatermark)).getD 0

/-- Rows are in the order of their sequence numbers. -/
def Numbered (s : Store) (sid : SessionId) : Prop := (s.rows sid).Pairwise fun m m' => m.sequenceNum < m'.sequenceNum

theorem rows_congr {s' : Store} (h : s'.messages = s.messages) : s'.rows sid = s.rows sid := by
  rw [rows, h, rows]

theorem sequenceNum_le_max {m : MessageRow} (hm : m ∈ s.rows sid) : m.sequenceNum ≤ s.maxSequence sid := by
  unfold maxSequence
  have hmem : m.sequenceNum ∈ (s.rows sid).map (·.sequenceNum) := List.mem_map_of_mem hm
  cases hmax : ((s.rows sid).map (·.sequenceNum)).max? with
  | none => simp [List.max?_eq_none_iff.mp hmax] at hmem
  | some x => exact (List.max?_eq_some_iff.mp hmax).2 _ hmem

/-- The rows that an append inserts. -/
theorem insertFrom_messages (s : Store) (sid : SessionId) (seq now : Int) (ms : List Message) :
    ∃ new, (s.insertFrom sid seq now ms).messages = s.messages ++ new ∧ (∀ m ∈ new, m.sessionId = sid) ∧
      (∀ m ∈ new, seq ≤ m.sequenceNum) ∧ (new.Pairwise fun m m' => m.sequenceNum < m'.sequenceNum) ∧
      new.map (·.message) = ms := by
  induction ms generalizing s seq with
  | nil => exact ⟨[], by simp [insertFrom]⟩
  | cons m ms ih =>
    obtain ⟨new, hms, hsid, hge, hsorted, htext⟩ := ih (s.insertMessage sid m seq now) (seq + 1)
    refine ⟨⟨s.lastRowId + 1, sid, m, seq, now⟩ :: new, ?_, ?_, ?_, ?_, ?_⟩
    · rw [insertFrom, hms]
      simp [insertMessage]
    · simpa using hsid
    · intro m' hm'
      rcases List.mem_cons.mp hm' with rfl | hm'
      · exact le_refl seq
      · have := hge m' hm'
        omega
    · refine List.pairwise_cons.mpr ⟨fun m' hm' => ?_, hsorted⟩
      have := hge m' hm'
      dsimp only
      omega
    · rw [List.map_cons, htext]

/-- An append to an existing session adds its messages in rows above all the rows of the session. -/
theorem rows_append {row : SessionRow} (hrow : s.row? sid = some row) (ms : List Message) (now : Int) :
    ∃ new, (s.appendMessages sid ms now).2.rows sid = s.rows sid ++ new ∧
      (∀ m ∈ new, s.maxSequence sid < m.sequenceNum) ∧
      (new.Pairwise fun m m' => m.sequenceNum < m'.sequenceNum) ∧ new.map (·.message) = ms := by
  obtain ⟨new, hms, hsid, hge, hsorted, htext⟩ := insertFrom_messages s sid (s.maxSequence sid + 1) now ms
  refine ⟨new, ?_, fun m hm => by have := hge m hm; omega, hsorted, htext⟩
  have hkeep : new.filter (fun m => m.sessionId = sid) = new :=
    List.filter_eq_self.mpr fun m hm => by simp [hsid m hm]
  simp only [appendMessages, hrow, rows, hms, List.filter_append, hkeep]

/-- An append adds rows above all the rows of its session. -/
theorem rows_appendMessages (s : Store) (sid : SessionId) (ms : List Message) (now : Int) :
    ∃ new, (s.appendMessages sid ms now).2.rows sid = s.rows sid ++ new ∧
      (∀ m ∈ new, s.maxSequence sid < m.sequenceNum) ∧ new.Pairwise fun m m' => m.sequenceNum < m'.sequenceNum := by
  cases hrow : s.row? sid with
  | none => exact ⟨[], by simp [appendMessages, hrow]⟩
  | some row =>
    obtain ⟨new, hrows, habove, hsorted, -⟩ := rows_append hrow ms now
    exact ⟨new, hrows, habove, hsorted⟩

theorem rows_appendMessages_other (hne : sid ≠ sid') (ms : List Message) (now : Int) :
    (s.appendMessages sid ms now).2.rows sid' = s.rows sid' := by
  unfold appendMessages
  cases s.row? sid with
  | none => rfl
  | some row =>
    obtain ⟨new, hms, hsid, -, -, -⟩ := insertFrom_messages s sid (s.maxSequence sid + 1) now ms
    simp only [rows, hms, List.filter_append]
    have hdrop : new.filter (fun m => m.sessionId = sid') = [] :=
      List.filter_eq_nil_iff.mpr fun m hm => by simp [hsid m hm, hne]
    rw [hdrop, List.append_nil]

theorem rows_deleteExpired (s : Store) (sid : SessionId) (cutoff wm : Int) :
    (s.deleteExpired sid cutoff wm).2.rows sid = (s.rows sid).filter fun m => !expired sid cutoff wm m := by
  simp only [deleteExpired, rows, List.filter_filter]
  congr 1
  funext m
  exact Bool.and_comm _ _

theorem rows_deleteExpired_other (hne : sid ≠ sid') (cutoff wm : Int) :
    (s.deleteExpired sid cutoff wm).2.rows sid' = s.rows sid' := by
  simp only [deleteExpired, rows, List.filter_filter]
  refine List.filter_congr fun m _ => ?_
  by_cases hm : m.sessionId = sid'
  · simp [hm, expired, Ne.symm hne]
  · simp [hm]

theorem mem_expired {cutoff wm : Int} {m : MessageRow} (hm : m ∈ (s.deleteExpired sid cutoff wm).1) :
    m ∈ s.rows sid ∧ m.sequenceNum ≤ wm := by
  obtain ⟨hmem, hexp⟩ := List.mem_filter.mp hm
  simp only [expired, Bool.and_eq_true, decide_eq_true_eq] at hexp
  exact ⟨List.mem_filter.mpr ⟨hmem, by simpa using hexp.1.1⟩, hexp.2⟩

/-- The rows above a watermark, in order. -/
theorem messagesAbove_eq (h : s.Numbered sid) (wm : Int) :
    s.messagesAbove sid wm = (s.rows sid).filter fun m => wm < m.sequenceNum := by
  refine List.Pairwise.insertionSort_eq ?_
  exact (h.filter _).imp fun h => le_of_lt h

/-! ### The transcript -/

/-- The messages of a session, as `load_messages` returns them. -/
def transcript (s : Store) (sid : SessionId) : List Message := (bySequence (s.rows sid)).map (·.message)

theorem transcript_congr {s' : Store} (h : s'.rows sid = s.rows sid) : s'.transcript sid = s.transcript sid := by
  rw [transcript, h, transcript]

private theorem orderedInsert_below (m : MessageRow) (l new : List MessageRow)
    (h : ∀ x ∈ new, m.sequenceNum ≤ x.sequenceNum) :
    (l ++ new).orderedInsert (fun a b : MessageRow => a.sequenceNum ≤ b.sequenceNum) m =
      l.orderedInsert (fun a b : MessageRow => a.sequenceNum ≤ b.sequenceNum) m ++ new := by
  induction l with
  | nil =>
    cases new with
    | nil => rfl
    | cons x new => exact if_pos (h x List.mem_cons_self)
  | cons a l ih =>
    simp only [List.cons_append, List.orderedInsert]
    split
    · rfl
    · rw [ih, List.cons_append]

/-- Rows above all others stay behind them. -/
theorem bySequence_append (l new : List MessageRow) (habove : ∀ a ∈ l, ∀ b ∈ new, a.sequenceNum ≤ b.sequenceNum)
    (hsorted : new.Pairwise fun m m' => m.sequenceNum < m'.sequenceNum) :
    bySequence (l ++ new) = bySequence l ++ new := by
  induction l with
  | nil => exact List.Pairwise.insertionSort_eq (hsorted.imp fun h => le_of_lt h)
  | cons a l ih =>
    have ih := ih fun b hb => habove b (List.mem_cons_of_mem _ hb)
    unfold bySequence at ih ⊢
    rw [List.cons_append, List.insertionSort_cons, ih, List.insertionSort_cons]
    exact orderedInsert_below a _ new (habove a List.mem_cons_self)

/-- An append continues the transcript. -/
theorem transcript_append {row : SessionRow} (hrow : s.row? sid = some row) (ms : List Message) (now : Int) :
    (s.appendMessages sid ms now).2.transcript sid = s.transcript sid ++ ms := by
  obtain ⟨new, hrows, habove, hsorted, htext⟩ := rows_append hrow ms now
  unfold transcript
  rw [hrows, bySequence_append _ _ ?_ hsorted, List.map_append, htext]
  intro a ha b hb
  exact (sequenceNum_le_max ha).trans (le_of_lt (habove b hb))

end Store

/-! ### Requests -/

/-- A request that touches neither the rows nor the watermark of a session. -/
def Request.Quiet (sid : SessionId) : Request → Prop
  | .sql (.appendMessages s ..) | .sql (.updateWatermark s _) | .sql (.deleteExpired s ..) => s ≠ sid
  | .sql (.insertSession _) | .sql (.deleteSession _) | .sql (.deleteEndedSessions _) => False
  | _ => True

variable {env : Env} {sid : SessionId}

theorem keeps_watermark {q : Request} (hq : q.Keeps (·.consolidationWatermark) sid) (w : World) :
    (handle env q w).2.store.watermark sid = w.store.watermark sid := by
  rw [Store.watermark, hq.row w, Store.watermark]

theorem Request.Quiet.watermark {q : Request} (hq : q.Quiet sid) (w : World) :
    (handle env q w).2.store.watermark sid = w.store.watermark sid := by
  refine keeps_watermark ?_ w
  cases q with
  | sql st =>
    cases st with
    | insertSession | deleteSession | deleteEndedSessions => exact hq.elim
    | updateWatermark s wm =>
      intro s' f hu hs
      simp only [Statement.update?, Option.some.injEq, Prod.mk.injEq] at hu
      exact absurd (hu.1.trans hs) hq
    | updateStatus | updateSkillContext | updatePhaseOpening | updatePhaseTransition | updateInterruptedState =>
      intro s' f hu _ row
      simp only [Statement.update?, Option.some.injEq, Prod.mk.injEq] at hu
      rw [← hu.2]
    | _ => intro s' f hu; simp [Statement.update?] at hu
  | _ => trivial

theorem Request.Quiet.rows {q : Request} (hq : q.Quiet sid) (w : World) :
    (handle env q w).2.store.rows sid = w.store.rows sid := by
  by_cases hst : ∃ st, q = .sql st
  · obtain ⟨st, rfl⟩ := hst
    cases he : env.storeError w.steps with
    | some e => rw [handle_sql_error st he]; rfl
    | none =>
      rw [handle_sql_ok st he]
      cases st with
      | appendMessages s ms now => exact Store.rows_appendMessages_other hq ms now
      | deleteExpired s cutoff wm => exact Store.rows_deleteExpired_other hq cutoff wm
      | insertSession | deleteSession | deleteEndedSessions => exact hq.elim
      | selectWatermark s => simp only [Statement.exec]; split <;> rfl
      | _ => rfl
  · rw [handle_store fun st h => hst ⟨st, h⟩]

/-! ### How a session in use moves -/

/-- From one store to a later one, the watermark grows, new rows are above the old ones and the watermark, and only
rows below the watermark go. -/
structure Store.Advances (sid : SessionId) (s s' : Store) : Prop where
  watermark : s.watermark sid ≤ s'.watermark sid
  new : ∀ m ∈ s'.rows sid, m ∈ s.rows sid ∨
    s.watermark sid ≤ s.maxSequence sid ∧ s.maxSequence sid < m.sequenceNum
  gone : ∀ m ∈ s.rows sid, m ∈ s'.rows sid ∨ m.sequenceNum ≤ s.watermark sid

theorem Store.Advances.of_eq {s s' : Store} (hrows : s'.rows sid = s.rows sid)
    (hwm : s.watermark sid ≤ s'.watermark sid) : s.Advances sid s' :=
  ⟨hwm, fun _ hm => .inl (hrows ▸ hm), fun _ hm => .inl (hrows ▸ hm)⟩

theorem append_watermark (env : Env) (sid : SessionId) (ms : List Message) (now : Int) (w : World) :
    (handle env (.sql (.appendMessages sid ms now)) w).2.store.watermark sid = w.store.watermark sid :=
  keeps_watermark (q := .sql (.appendMessages sid ms now)) (fun s f hu => by simp [Statement.update?] at hu) w

theorem append_rows (env : Env) (sid : SessionId) (ms : List Message) (now : Int) (w : World) :
    ∃ new, (handle env (.sql (.appendMessages sid ms now)) w).2.store.rows sid = w.store.rows sid ++ new ∧
      (∀ m ∈ new, w.store.maxSequence sid < m.sequenceNum) ∧
      new.Pairwise fun m m' => m.sequenceNum < m'.sequenceNum := by
  cases he : env.storeError w.steps with
  | some e => exact ⟨[], by rw [handle_sql_error _ he]; simp [Store.rows]⟩
  | none => rw [handle_sql_ok _ he]; exact Store.rows_appendMessages ..

/-- An append continues the transcript, or fails without an effect. -/
theorem append_transcript (env : Env) (sid : SessionId) (ms : List Message) (now : Int) (w : World) :
    ((handle env (.sql (.appendMessages sid ms now)) w).1 = .ok () ∧
        (handle env (.sql (.appendMessages sid ms now)) w).2.store.transcript sid = w.store.transcript sid ++ ms) ∨
      ∃ e, (handle env (.sql (.appendMessages sid ms now)) w).1 = .error e ∧
        (handle env (.sql (.appendMessages sid ms now)) w).2.store = w.store := by
  cases he : env.storeError w.steps with
  | some e =>
    rw [handle_sql_error _ he]
    exact .inr ⟨e, rfl, rfl⟩
  | none =>
    rw [handle_sql_ok _ he]
    cases hrow : w.store.row? sid with
    | none => exact .inr ⟨"FOREIGN KEY constraint failed", by simp [Statement.exec, Store.appendMessages, hrow]⟩
    | some row =>
      refine .inl ⟨by simp [Statement.exec, Store.appendMessages, hrow], ?_⟩
      exact Store.transcript_append hrow ms now

theorem delete_watermark (env : Env) (sid : SessionId) (cutoff wm : Int) (w : World) :
    (handle env (.sql (.deleteExpired sid cutoff wm)) w).2.store.watermark sid = w.store.watermark sid :=
  keeps_watermark (q := .sql (.deleteExpired sid cutoff wm)) (fun s f hu => by simp [Statement.update?] at hu) w

theorem delete_rows (env : Env) (sid : SessionId) (cutoff wm : Int) (w : World) :
    (handle env (.sql (.deleteExpired sid cutoff wm)) w).2.store.rows sid = w.store.rows sid ∨
      (handle env (.sql (.deleteExpired sid cutoff wm)) w).2.store.rows sid =
        (w.store.rows sid).filter fun m => !Store.expired sid cutoff wm m := by
  cases he : env.storeError w.steps with
  | some e => exact .inl (by rw [handle_sql_error _ he]; rfl)
  | none => exact .inr (by rw [handle_sql_ok _ he]; exact Store.rows_deleteExpired ..)

theorem advance_rows (env : Env) (sid : SessionId) (wm : Int) (w : World) :
    (handle env (.sql (.updateWatermark sid wm)) w).2.store.rows sid = w.store.rows sid := by
  cases he : env.storeError w.steps with
  | some e => rw [handle_sql_error _ he]; rfl
  | none => rw [handle_sql_ok _ he]; rfl

theorem advance_watermark (env : Env) (sid : SessionId) (wm : Int) (w : World) :
    w.store.watermark sid ≤ (handle env (.sql (.updateWatermark sid wm)) w).2.store.watermark sid ∧
      (handle env (.sql (.updateWatermark sid wm)) w).2.store.watermark sid ≤ max (w.store.watermark sid) wm := by
  cases he : env.storeError w.steps with
  | some e => rw [handle_sql_error _ he]; exact ⟨le_refl _, le_max_left _ _⟩
  | none =>
    rw [handle_sql_ok _ he]
    simp only [Statement.exec, Store.watermark]
    rw [Store.row?_updateSession_same (f := fun row =>
      { row with consolidationWatermark := max row.consolidationWatermark wm }) fun _ => rfl]
    cases w.store.row? sid with
    | none => simp
    | some row => simp

end AgentVerse
