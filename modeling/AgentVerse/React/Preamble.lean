import AgentVerse.Effects.Marks
import AgentVerse.React.Strategy

/-!
# Where the preamble stands

The buffers that the loop with an approval hook sends to the model. Forgetting the marks of `markedHitlLoop` gives the
loop (`unmark_markedRunHitl`), and each marked buffer continues the prepared one (`plays_markedHitlLoop`). A prepared
buffer has the preamble once and in its place exactly if the history has no preamble yet and does not consist of
System messages only (`standsOnce_prepareBuffer`); the history that a suspended run hands over has one.
-/

namespace AgentVerse

open Effects

/-- A program with a mark for each buffer that it sends to the model. -/
abbrev BufferM (ε α : Type) := Marked Request Reply (List Message) ε α

/-- A play of such a program. -/
abbrev BufferPlay := List (Step (SumReply Reply fun _ : List Message => Unit))

/-! ### The place of a message -/

/-- A message stands once in a buffer, behind the System messages that lead the others and before all the rest. -/
def StandsOnce (p : Message) (buf : List Message) : Prop :=
  ∃ sys rest, buf = sys ++ p :: rest ∧ (∀ m ∈ sys, m.role = .system) ∧ (∀ m ∈ rest.head?, m.role ≠ .system) ∧
    p ∉ rest

/-- A history that does not have the message yet, and that does not consist of System messages only. -/
structure Unprimed (p : Message) (history : List Message) : Prop where
  absent : p ∉ history
  turned : history = [] ∨ ∃ m ∈ history, m.role ≠ .system

/-- The leading System messages of a list are determined. -/
private theorem leading_unique {sys sys' rest rest' : List Message} {p p' : Message}
    (hsys : ∀ m ∈ sys, m.role = .system) (hsys' : ∀ m ∈ sys', m.role = .system) (hp : p.role ≠ .system)
    (hp' : p'.role ≠ .system) (h : sys ++ p :: rest = sys' ++ p' :: rest') : sys = sys' ∧ rest = rest' := by
  induction sys generalizing sys' with
  | nil =>
    cases sys' with
    | nil => exact ⟨rfl, (List.cons_eq_cons.mp h).2⟩
    | cons m sys' =>
      obtain ⟨rfl, -⟩ := List.cons_eq_cons.mp h
      exact absurd (hsys' p List.mem_cons_self) hp
  | cons m sys ih =>
    cases sys' with
    | nil =>
      obtain ⟨rfl, -⟩ := List.cons_eq_cons.mp h
      exact absurd (hsys m List.mem_cons_self) hp'
    | cons m' sys' =>
      obtain ⟨rfl, htail⟩ := List.cons_eq_cons.mp h
      obtain ⟨rfl, hrest⟩ := ih (fun x hx => hsys x (List.mem_cons_of_mem _ hx))
        (fun x hx => hsys' x (List.mem_cons_of_mem _ hx)) htail
      exact ⟨rfl, hrest⟩

/-- A buffer goes on with messages that are not the one in question. -/
theorem StandsOnce.append {p : Message} {buf new : List Message} (h : StandsOnce p buf) (hp : p ∉ new)
    (hhead : ∀ m ∈ new.head?, m.role ≠ .system) : StandsOnce p (buf ++ new) := by
  obtain ⟨sys, rest, rfl, hsys, hrest, hnot⟩ := h
  refine ⟨sys, rest ++ new, by simp, hsys, fun m hm => ?_, ?_⟩
  · cases rest with
    | nil => exact hhead m hm
    | cons m' rest => exact hrest m hm
  · rw [List.mem_append]
    rintro (hmem | hmem)
    · exact hnot hmem
    · exact hp hmem

section Prepare

variable {ext : Externals} {preamble : String} (hext : ext.reactPreamble = some preamble)
  (hblank : isBlank preamble = false)

include hext hblank

/-- Where `prepareBuffer` inserts the preamble. -/
theorem prepareBuffer_cases (history : List Message) :
    (∃ sys m rest, history = sys ++ m :: rest ∧ (∀ x ∈ sys, x.role = .system) ∧ m.role ≠ .system ∧
        prepareBuffer ext history = sys ++ .ofText .user preamble :: m :: rest) ∨
      (∀ m ∈ history, m.role = .system) ∧ prepareBuffer ext history = .ofText .user preamble :: history := by
  unfold prepareBuffer
  simp only [hext, hblank, Bool.false_eq_true, if_false]
  cases hpos : history.findIdx? fun m => m.role ≠ .system with
  | none =>
    refine .inr ⟨fun m hm => ?_, by simp⟩
    simpa using List.findIdx?_eq_none_iff.mp hpos m hm
  | some i =>
    obtain ⟨hi, hm, hbefore⟩ := List.findIdx?_eq_some_iff_getElem.mp hpos
    refine .inl ⟨history.take i, history[i], history.drop (i + 1), ?_, fun x hx => ?_, by simpa using hm, ?_⟩
    · rw [← List.drop_eq_getElem_cons hi, List.take_append_drop]
    · obtain ⟨j, hj, rfl⟩ := List.mem_take_iff_getElem.mp hx
      simpa using hbefore j (by omega)
    · rw [Option.getD_some, List.drop_eq_getElem_cons hi]
      simp

theorem mem_prepareBuffer (history : List Message) : .ofText .user preamble ∈ prepareBuffer ext history := by
  rcases prepareBuffer_cases hext hblank history with ⟨sys, m, rest, -, -, -, heq⟩ | ⟨-, heq⟩
  · rw [heq]
    simp
  · rw [heq]
    exact List.mem_cons_self

/-- The histories that are prepared as they should be. -/
theorem standsOnce_prepareBuffer (history : List Message) :
    StandsOnce (.ofText .user preamble) (prepareBuffer ext history) ↔ Unprimed (.ofText .user preamble) history := by
  have huser : (Message.ofText .user preamble).role ≠ .system := by simp [Message.ofText]
  rcases prepareBuffer_cases hext hblank history with ⟨sys, m, rest, rfl, hsys, hm, heq⟩ | ⟨hsys, heq⟩
  · rw [heq]
    constructor
    · rintro ⟨sys', rest', hbuf, hsys', -, hnot⟩
      obtain ⟨rfl, rfl⟩ := leading_unique hsys hsys' huser huser hbuf
      refine ⟨?_, .inr ⟨m, by simp, hm⟩⟩
      rw [List.mem_append]
      rintro (hmem | hmem)
      · exact huser (hsys _ hmem)
      · exact hnot hmem
    · intro h
      refine ⟨sys, m :: rest, rfl, hsys, fun x hx => ?_, fun hmem => h.absent (List.mem_append_right _ hmem)⟩
      obtain rfl : m = x := by simpa using hx
      exact hm
  · rw [heq]
    constructor
    · rintro ⟨sys', rest', hbuf, hsys', hhead, -⟩
      obtain ⟨rfl, rfl⟩ := @leading_unique [] _ _ _ _ _ (by simp) hsys' huser huser hbuf
      cases history with
      | nil => exact ⟨by simp, .inl rfl⟩
      | cons m history => exact absurd (hsys m List.mem_cons_self) (hhead m rfl)
    · intro h
      refine ⟨[], history, rfl, by simp, fun m hm => ?_, h.absent⟩
      rcases h.turned with rfl | ⟨m', hm', hrole⟩
      · cases hm
      · exact absurd (hsys m' hm') hrole

end Prepare

/-! ### The marked loop -/

/-- `CycleSkeleton.invoke`, with a mark where the buffer is sent. -/
def CycleSkeleton.markedInvoke (sk : CycleSkeleton) (messages : List Message) (names : List String) :
    BufferM Core.AgentError GenerateResponse :=
  match sk.tools.toolDefinitionsFor names with
  | .error _ => (sk.invoke messages names).inl
  | .ok _ => do
    Prog.mark messages
    (sk.invoke messages names).inl

namespace ReActStrategy

variable (sk : CycleSkeleton) (names : List String) (hook : HitlHook)

/-- `hitlLoop`, marked. -/
def markedHitlLoop : (remaining : Nat) → List Message → (requiredToolCalled : Bool) →
    BufferM Core.AgentError StrategyOutcome
  | 0, _, _ => .fail (outOfIterations sk)
  | remaining + 1, buf, requiredToolCalled => do
    let response ← sk.markedInvoke buf names
    match actionFromResponse response with
    | .toolCalls calls =>
      let requiredToolCalled :=
        requiredToolCalled || calls.any fun c => hook.requiredToolNames.contains c.name
      match ← (infallible (sk.tools.executeManyHitl sk.runTool sk.depth hook calls)).inl with
      | .ok results =>
        markedHitlLoop remaining (buf ++ batchMessages sk.ext response calls results) requiredToolCalled
      | .error interrupt =>
        return .interrupted ⟨interrupt.approvalId, interrupt.kindJson, buf, calls, names⟩
    | .done answer =>
      if requiredToolCalled then return .done answer
      else
        markedHitlLoop remaining
          (buf ++ [⟨.assistant, response.content⟩,
            .ofText .user (requiredToolReminder hook.requiredToolNames)]) requiredToolCalled
    | .error message => .fail (.model (.invalidResponse message))

/-- `runHitl`, marked. -/
def markedRunHitl (messages : List Message) : BufferM Core.AgentError StrategyOutcome :=
  markedHitlLoop sk names hook sk.maxIterations (prepareBuffer sk.ext messages) hook.requiredToolNames.isEmpty

theorem unmark_markedInvoke (messages : List Message) :
    (sk.markedInvoke messages names).unmark = sk.invoke messages names := by
  unfold CycleSkeleton.markedInvoke
  split
  · exact Prog.unmark_inl _
  · rw [Prog.unmark_mark_bind, Prog.unmark_inl]

theorem unmark_markedHitlLoop (remaining : Nat) (buf : List Message) (called : Bool) :
    (markedHitlLoop sk names hook remaining buf called).unmark = hitlLoop sk names hook remaining buf called := by
  induction remaining generalizing buf called with
  | zero => rfl
  | succ remaining ih =>
    unfold markedHitlLoop hitlLoop
    rw [Prog.unmark_bind, unmark_markedInvoke]
    congr 1
    funext response
    cases actionFromResponse response with
    | toolCalls calls =>
      refine (Prog.unmark_bind _ _).trans ?_
      rw [Prog.unmark_inl]
      congr 1
      funext r
      cases r with
      | ok results => exact ih ..
      | error interrupt => rfl
    | done answer =>
      dsimp only
      split
      · rfl
      · exact ih ..
    | error message => rfl

/-- The marks are all that the marked run adds. -/
theorem unmark_markedRunHitl (messages : List Message) :
    (markedRunHitl sk names hook messages).unmark = runHitl sk messages names hook :=
  unmark_markedHitlLoop ..

/-! ### The buffers of a play -/

/-- What the loop adds to its buffer: assistant turns, results, and the reminder of a required tool, if there is one. -/
def Added (m : Message) : Prop :=
  m.role = .assistant ∨ m.role = .tool ∨
    hook.requiredToolNames ≠ [] ∧ m = .ofText .user (requiredToolReminder hook.requiredToolNames)

/-- One buffer continues another. -/
def Continues (buf buf' : List Message) : Prop := ∃ new, buf' = buf ++ new ∧ ∀ m ∈ new, Added hook m

variable {sk names hook} {buf buf' : List Message}

theorem Added.role {m : Message} (h : Added hook m) : m.role ≠ .system := by
  rcases h with h | h | ⟨-, rfl⟩
  · rw [h]
    decide
  · rw [h]
    decide
  · simp [Message.ofText]

theorem Continues.refl (buf : List Message) : Continues hook buf buf := ⟨[], by simp, by simp⟩

theorem Continues.of_append {added : List Message} (hadded : ∀ m ∈ added, Added hook m)
    (h : Continues hook (buf ++ added) buf') : Continues hook buf buf' := by
  obtain ⟨new, rfl, hnew⟩ := h
  refine ⟨added ++ new, by simp, fun m hm => ?_⟩
  rcases List.mem_append.mp hm with hm | hm
  · exact hadded m hm
  · exact hnew m hm

theorem batchMessages_added (ext : Externals) (response : GenerateResponse) (calls : List ToolCall)
    (results : List ToolCallResult) : ∀ m ∈ batchMessages ext response calls results, Added hook m := by
  intro m hm
  simp only [batchMessages, List.mem_cons, List.not_mem_nil, or_false] at hm
  rcases hm with rfl | rfl
  · exact .inl rfl
  · exact .inr (.inl rfl)

/-- The buffers of a play, oldest first: the first is the one that the loop begins with, the others continue it, and
a run that is stopped hands the last one over. -/
structure Sends (hook : HitlHook) (buf : List Message) (bufs : List (List Message))
    (x : Except Core.AgentError StrategyOutcome) : Prop where
  first : ∀ b ∈ bufs.head?, b = buf
  continues : ∀ b ∈ bufs, Continues hook buf b
  handed : ∀ i, x = .ok (.interrupted i) → i.history ∈ bufs

theorem Sends.of_nil {e : Core.AgentError} : Sends hook buf [] (.error e) :=
  ⟨by simp, by simp, fun i hi => by cases hi⟩

theorem Sends.single {x : Except Core.AgentError StrategyOutcome}
    (hx : ∀ i, x = .ok (.interrupted i) → i.history = buf) : Sends hook buf [buf] x :=
  ⟨by simp, fun b hb => by rw [List.mem_singleton.mp hb]; exact .refl buf, fun i hi => by simp [hx i hi]⟩

theorem Sends.cons {added : List Message} {bufs : List (List Message)} {x : Except Core.AgentError StrategyOutcome}
    (hadded : ∀ m ∈ added, Added hook m) (h : Sends hook (buf ++ added) bufs x) : Sends hook buf (buf :: bufs) x := by
  refine ⟨by simp, fun b hb => ?_, fun i hi => List.mem_cons_of_mem _ (h.handed i hi)⟩
  rcases List.mem_cons.mp hb with rfl | hb
  · exact .refl b
  · exact (h.continues b hb).of_append hadded

theorem plays_markedInvoke {t : BufferPlay} {x : Except Core.AgentError GenerateResponse}
    (h : (sk.markedInvoke buf names).Plays t x) :
    marksOf t = [buf] ∨ marksOf t = [] ∧ ∃ e, x = .error e := by
  unfold CycleSkeleton.markedInvoke at h
  split at h
  · rename_i e hdefs
    obtain ⟨hmarks, hplay⟩ := Prog.plays_inl h
    refine .inr ⟨hmarks, ?_⟩
    unfold CycleSkeleton.invoke at hplay
    rw [hdefs] at hplay
    exact ⟨_, hplay.2⟩
  · obtain ⟨t', rfl, hrest⟩ := Prog.plays_mark_bind.mp h
    rw [marksOf_inr, (Prog.plays_inl hrest).1]
    exact .inl rfl

theorem plays_markedHitlLoop {remaining : Nat} {called : Bool} {t : BufferPlay}
    {x : Except Core.AgentError StrategyOutcome}
    (h : (markedHitlLoop sk names hook remaining buf called).Plays t x)
    (hcalled : hook.requiredToolNames = [] → called = true) : Sends hook buf (marksOf t) x := by
  induction remaining generalizing buf called t with
  | zero =>
    obtain ⟨rfl, rfl⟩ := h
    exact .of_nil
  | succ remaining ih =>
    unfold markedHitlLoop at h
    rcases Prog.plays_bind.mp h with ⟨e, herr, rfl⟩ | ⟨response, t₁, t₂, rfl, h₁, h₂⟩
    · rcases plays_markedInvoke herr with hmarks | ⟨hmarks, -⟩
      · rw [hmarks]
        exact .single fun i hi => by cases hi
      · rw [hmarks]
        exact .of_nil
    have hfirst : marksOf t₁ = [buf] := by
      rcases plays_markedInvoke h₁ with hmarks | ⟨-, e, he⟩
      · exact hmarks
      · cases he
    rw [marksOf_append, hfirst, List.singleton_append]
    cases hact : actionFromResponse response with
    | toolCalls calls =>
      simp only [hact] at h₂
      rcases Prog.plays_bind.mp h₂ with ⟨e, herr, rfl⟩ | ⟨r, t₃, t₄, rfl, h₃, h₄⟩
      · rw [(Prog.plays_inl herr).1]
        exact .single fun i hi => by cases hi
      · rw [marksOf_append, (Prog.plays_inl h₃).1, List.nil_append]
        cases r with
        | ok results => exact (ih h₄ fun hnone => by simp [hcalled hnone]).cons (batchMessages_added _ _ _ _)
        | error interrupt =>
          obtain ⟨rfl, rfl⟩ := h₄
          exact .single fun i hi => by cases hi; rfl
    | done answer =>
      simp only [hact] at h₂
      split at h₂
      · obtain ⟨rfl, rfl⟩ := h₂
        exact .single fun i hi => by cases hi
      · rename_i hnot
        refine (ih h₂ hcalled).cons fun m hm => ?_
        simp only [List.mem_cons, List.not_mem_nil, or_false] at hm
        rcases hm with rfl | rfl
        · exact .inl rfl
        · exact .inr (.inr ⟨fun hnone => hnot (hcalled hnone), rfl⟩)
    | error message =>
      simp only [hact] at h₂
      obtain ⟨rfl, rfl⟩ := h₂
      exact .single fun i hi => by cases hi

end ReActStrategy

/-! ### One call -/

section Call

open ReActStrategy

variable {sk : CycleSkeleton} {names : List String} {hook : HitlHook} {messages : List Message} {t : BufferPlay}
  {x : Except Core.AgentError StrategyOutcome} {preamble : String}

/-- Every buffer that a call of `run_hitl` sends has the preamble once and in its place exactly if the history that
the call is given is unprimed. -/
theorem markedRunHitl_standsOnce_iff (hext : sk.ext.reactPreamble = some preamble) (hblank : isBlank preamble = false)
    (hreminder : hook.requiredToolNames ≠ [] → preamble ≠ requiredToolReminder hook.requiredToolNames)
    (h : (markedRunHitl sk names hook messages).Plays t x) :
    (∀ buf ∈ marksOf t, StandsOnce (.ofText .user preamble) buf) ↔
      (marksOf t ≠ [] → Unprimed (.ofText .user preamble) messages) := by
  have hsends := plays_markedHitlLoop h fun hnone => by simp [hnone]
  rw [← standsOnce_prepareBuffer hext hblank]
  constructor
  · intro hall hsome
    cases hmarks : marksOf t with
    | nil => exact absurd hmarks hsome
    | cons b bufs =>
      rw [hmarks] at hsends hall
      rw [← hsends.first b rfl]
      exact hall b List.mem_cons_self
  · intro hprepared b hb
    obtain ⟨new, rfl, hnew⟩ := hsends.continues b hb
    refine (hprepared (List.ne_nil_of_mem hb)).append (fun hmem => ?_) fun m hm => ?_
    · rcases hnew _ hmem with hrole | hrole | ⟨hsome, htext⟩
      · cases hrole
      · cases hrole
      · simp only [Message.ofText, Message.mk.injEq, List.cons.injEq, ContentBlock.text.injEq, and_true,
          true_and] at htext
        exact hreminder hsome htext
    · exact (hnew m (List.mem_of_mem_head? hm)).role

/-- The history that a stopped run hands over has the preamble. -/
theorem mem_handed (hext : sk.ext.reactPreamble = some preamble) (hblank : isBlank preamble = false)
    {i : HitlInterrupt} (h : (markedRunHitl sk names hook messages).Plays t (.ok (.interrupted i))) :
    .ofText .user preamble ∈ i.history := by
  have hsends := plays_markedHitlLoop h fun hnone => by simp [hnone]
  obtain ⟨new, hnew, -⟩ := hsends.continues _ (hsends.handed i rfl)
  rw [hnew]
  exact List.mem_append_left _ (mem_prepareBuffer hext hblank messages)

end Call

end AgentVerse
