import Mathlib.Data.List.Induction
import AgentVerse.Effects.Prog

/-!
# Histories of calls

A service offers calls, each of them a program. Its history is the list of the calls made so far, each with the
state it started in, what it asked, how it ended and the state it left. `History.invariant` is the induction rule:
what every call of a kind preserves, a whole history of such calls preserves.
-/

namespace Effects

variable {Q : Type} {R : Q → Type} {ε α S Call : Type}

/-- One completed call. -/
structure Entry (Call : Type) (R : Q → Type) (S ε α : Type) where
  call : Call
  before : S
  asked : List (Step R)
  result : Except ε α
  after : S

/-- The calls completed so far, oldest first, and the current state. -/
structure History (Call : Type) (R : Q → Type) (S ε α : Type) where
  past : List (Entry Call R S ε α)
  state : S

namespace History

variable (h : Handler R S) (program : Call → Prog Q R ε α)

/-- The entry that call `c` adds when it starts in state `s`. -/
def entry (s : S) (c : Call) : Entry Call R S ε α where
  call := c
  before := s
  asked := (program c).asked h s
  result := ((program c).run h ⟨s, []⟩).1
  after := ((program c).run h ⟨s, []⟩).2.state

/-- Make one more call. -/
def next (H : History Call R S ε α) (c : Call) : History Call R S ε α where
  past := H.past ++ [entry h program H.state c]
  state := (entry h program H.state c).after

/-- Make the calls of a list, in order. -/
def calls (H : History Call R S ε α) (cs : List Call) : History Call R S ε α := cs.foldl (next h program) H

@[simp] theorem calls_nil (H : History Call R S ε α) : H.calls h program [] = H := rfl

@[simp] theorem calls_cons (H : History Call R S ε α) (c : Call) (cs : List Call) :
    H.calls h program (c :: cs) = (H.next h program c).calls h program cs := rfl

theorem calls_concat (H : History Call R S ε α) (cs : List Call) (c : Call) :
    H.calls h program (cs ++ [c]) = (H.calls h program cs).next h program c := List.foldl_concat ..

/-- Every call of the list satisfies `C` at its turn, given the history before it and its own entry. -/
def Conforms (C : History Call R S ε α → Entry Call R S ε α → Prop) (H : History Call R S ε α) :
    List Call → Prop
  | [] => True
  | c :: cs => C H (entry h program H.state c) ∧ (H.next h program c).Conforms C cs

/-- Whether the calls of a list conform is decided along the run. -/
instance decConforms (C : History Call R S ε α → Entry Call R S ε α → Prop) [∀ H e, Decidable (C H e)]
    (H : History Call R S ε α) (cs : List Call) : Decidable (H.Conforms h program C cs) :=
  match cs with
  | [] => inferInstanceAs (Decidable True)
  | c :: cs => @instDecidableAnd _ _ inferInstance (decConforms C (H.next h program c) cs)

variable {h program} {C : History Call R S ε α → Entry Call R S ε α → Prop}

theorem Conforms.append {H : History Call R S ε α} {cs ds : List Call}
    (hc : H.Conforms h program C (cs ++ ds)) :
    H.Conforms h program C cs ∧ (H.calls h program cs).Conforms h program C ds := by
  induction cs generalizing H with
  | nil => exact ⟨trivial, hc⟩
  | cons c cs ih => exact ⟨⟨hc.1, (ih hc.2).1⟩, (ih hc.2).2⟩

/-- The induction rule for histories. -/
theorem invariant {I : History Call R S ε α → Prop}
    (hstep : ∀ H c, I H → C H (entry h program H.state c) → I (H.next h program c))
    {H : History Call R S ε α} (hI : I H) {cs : List Call} (hc : H.Conforms h program C cs) :
    I (H.calls h program cs) := by
  induction cs generalizing H with
  | nil => exact hI
  | cons c cs ih => exact ih (hstep H c hI hc.1) hc.2

/-- The induction rule without a condition on the calls. -/
theorem always {I : History Call R S ε α → Prop} (hstep : ∀ H c, I H → I (H.next h program c))
    {H : History Call R S ε α} (hI : I H) (cs : List Call) : I (H.calls h program cs) := by
  induction cs generalizing H with
  | nil => exact hI
  | cons c cs ih => exact ih (hstep H c hI)

/-- A property of single entries passes to the next history with its last call. -/
theorem forall_next {P : Entry Call R S ε α → Prop} {H : History Call R S ε α} {c : Call} (hP : ∀ e ∈ H.past, P e)
    (hlast : P (entry h program H.state c)) : ∀ e ∈ (H.next h program c).past, P e := by
  intro e he
  rcases List.mem_append.mp he with he | he
  · exact hP e he
  · rw [List.mem_singleton.mp he]
    exact hlast

/-- A property of single entries that holds of every call from a state satisfying the invariant holds of every
entry a history adds. -/
theorem entries {I : History Call R S ε α → Prop} {P : Entry Call R S ε α → Prop}
    (hstep : ∀ H c, I H → C H (entry h program H.state c) →
      I (H.next h program c) ∧ P (entry h program H.state c))
    {H : History Call R S ε α} (hI : I H) (hP : ∀ e ∈ H.past, P e) {cs : List Call}
    (hc : H.Conforms h program C cs) : ∀ e ∈ (H.calls h program cs).past, P e := by
  refine (invariant (I := fun H => I H ∧ ∀ e ∈ H.past, P e) ?_ ⟨hI, hP⟩ hc).2
  intro H c hH hC
  obtain ⟨hI', hPe⟩ := hstep H c hH.1 hC
  exact ⟨hI', forall_next hH.2 hPe⟩

/-- A property that every call has in view of those before it passes to the next history with its last call. -/
theorem split_next {P : List (Entry Call R S ε α) → Entry Call R S ε α → Prop} {H : History Call R S ε α} {c : Call}
    (hP : ∀ pre e post, H.past = pre ++ e :: post → P pre e) (hlast : P H.past (entry h program H.state c)) :
    ∀ pre e post, (H.next h program c).past = pre ++ e :: post → P pre e := by
  intro pre e post hsplit
  rcases List.eq_nil_or_concat post with rfl | ⟨post, last, rfl⟩
  · obtain ⟨rfl, he⟩ := List.append_inj' hsplit rfl
    cases he
    exact hlast
  · have hpast : H.past ++ [_] = (pre ++ e :: post) ++ [last] := hsplit.trans (by simp)
    exact hP pre e post (List.append_inj' hpast rfl).1

/-- Every call of a history from nothing is made in the history of those before it. -/
theorem split_calls {H : History Call R S ε α} (hH : H.past = []) {cs : List Call} :
    ∀ pre e post, (H.calls h program cs).past = pre ++ e :: post →
      ∃ cs₁ c, pre = (H.calls h program cs₁).past ∧ e = entry h program (H.calls h program cs₁).state c := by
  induction cs using List.reverseRecOn with
  | nil =>
    intro pre e post hsplit
    rw [calls_nil, hH] at hsplit
    exact absurd hsplit.symm (List.append_ne_nil_of_right_ne_nil pre (List.cons_ne_nil e post))
  | append_singleton cs c ih =>
    rw [calls_concat]
    exact split_next ih ⟨cs, c, rfl, rfl⟩

/-- Every entry is the one that its call makes in the state it found. -/
theorem entry_of_past {H : History Call R S ε α} (hH : ∀ e ∈ H.past, e = entry h program e.before e.call)
    (cs : List Call) : ∀ e ∈ (H.calls h program cs).past, e = entry h program e.before e.call :=
  always (I := fun H => ∀ e ∈ H.past, e = entry h program e.before e.call) (fun _ _ hH => forall_next hH rfl) hH cs

end History

end Effects
