import AgentVerse.Effects.Pool

/-!
# Two pools that agree on some of their threads

`Pool.turns` lists the turns that the threads of a pool take along a schedule, with what is observed of the state before
each of them. Two runs agree on the threads that satisfy `low` when these take the same turns in the same order, with
the same observations; what the other threads do, and how often, may differ. The unwinding rule (`Pool.unwind`) carries
a relation between two pools along two such runs: the other threads have to keep it on either side, and the threads
that agree have to keep it when both sides take the same turn.
-/

namespace Effects

variable {Q : Type} {R : Q → Type} {S S' ε α ι O : Type}

namespace Pool

variable [DecidableEq ι]

/-- The turns taken along a schedule, with what `o` observes before each. A thread that has ended takes none. -/
def turns (h : Handler R S) (o : S → O) (P : Pool ι R S ε α) : List ι → List (ι × O)
  | [] => []
  | i :: schedule =>
    (match P.threads i with
      | .ask _ _ => [(i, o P.view.state)]
      | _ => []) ++ (P.step h i).turns h o schedule

/-- Every turn of the schedule is taken by a thread that satisfies `C` in the pool it is taken in. -/
def Throughout (h : Handler R S) (C : Pool ι R S ε α → ι → Prop) (P : Pool ι R S ε α) : List ι → Prop
  | [] => True
  | i :: schedule => C P i ∧ (P.step h i).Throughout h C schedule

/-- Whether the turns of a schedule satisfy `C` is decided along the run. -/
instance decThroughout (h : Handler R S) (C : Pool ι R S ε α → ι → Prop) [∀ P i, Decidable (C P i)]
    (P : Pool ι R S ε α) (schedule : List ι) : Decidable (P.Throughout h C schedule) :=
  match schedule with
  | [] => inferInstanceAs (Decidable True)
  | i :: schedule => @instDecidableAnd _ _ inferInstance (decThroughout h C (P.step h i) schedule)

variable {h : Handler R S} {h' : Handler R S'}

/-- What every pool of a run satisfies when an invariant implies it. -/
theorem throughout_of {I : Pool ι R S ε α → Prop} {C : Pool ι R S ε α → ι → Prop} {P : Pool ι R S ε α}
    (hstep : ∀ P i, I P → I (P.step h i)) (hC : ∀ P i, I P → C P i) (hP : I P) (schedule : List ι) :
    P.Throughout h C schedule := by
  induction schedule generalizing P with
  | nil => trivial
  | cons i schedule ih => exact ⟨hC P i hP, ih (hstep P i hP)⟩

/-- What is observed through `f` is computed from what is observed. -/
theorem turns_map {O' : Type} (o : S → O) (f : O → O') (P : Pool ι R S ε α) (schedule : List ι) :
    P.turns h (fun s => f (o s)) schedule = (P.turns h o schedule).map fun x => (x.1, f x.2) := by
  induction schedule generalizing P with
  | nil => rfl
  | cons i schedule ih =>
    simp only [turns, List.map_append, ih]
    cases P.threads i <;> rfl

theorem step_ended {P : Pool ι R S ε α} {i : ι} (hi : ∀ q k, P.threads i ≠ .ask q k) : P.step h i = P := by
  unfold step
  split
  · rename_i q k ht
    exact absurd ht (hi q k)
  · rfl

theorem step_ask {P : Pool ι R S ε α} {i : ι} {q : Q} {k : R q → Prog Q R ε α} (hi : P.threads i = .ask q k) :
    P.step h i = ⟨Function.update P.threads i (k (h q P.view.state).1), P.view.after h i q⟩ := by
  unfold step
  rw [hi]

theorem turns_ended {o : S → O} {P : Pool ι R S ε α} {i : ι} {schedule : List ι} (hi : ∀ q k, P.threads i ≠ .ask q k) :
    P.turns h o (i :: schedule) = P.turns h o schedule := by
  rw [turns, step_ended hi]
  split
  · rename_i q k ht
    exact absurd ht (hi q k)
  · rfl

theorem turns_ask {o : S → O} {P : Pool ι R S ε α} {i : ι} {schedule : List ι} {q : Q} {k : R q → Prog Q R ε α}
    (hi : P.threads i = .ask q k) :
    P.turns h o (i :: schedule) = (i, o P.view.state) :: (P.step h i).turns h o schedule := by
  rw [turns, hi]
  rfl

omit [DecidableEq ι] in
/-- A thread has ended or asks. -/
theorem ended_or_ask (P : Pool ι R S ε α) (i : ι) : (∀ q k, P.threads i ≠ .ask q k) ∨ ∃ q k, P.threads i = .ask q k := by
  cases ht : P.threads i with
  | ret a => exact .inl fun q k h => by cases h
  | fail e => exact .inl fun q k h => by cases h
  | ask q k => exact .inr ⟨q, k, rfl⟩

section Unwind

variable {C : Pool ι R S ε α → ι → Prop} {C' : Pool ι R S' ε α → ι → Prop} {o : S → O} {o' : S' → O} {low : ι → Bool}
  {rel : Pool ι R S ε α → Pool ι R S' ε α → Prop} {P : Pool ι R S ε α} {P' : Pool ι R S' ε α}

/-- The turns of the threads that the two runs agree on. -/
abbrev lowTurns (low : ι → Bool) (l : List (ι × O)) : List (ι × O) := l.filter fun x => low x.1

/-- The right run goes on alone, up to its next turn of a thread that both agree on. -/
private theorem unwind_right {turn : List (ι × O)} {s' : List ι}
    (hright : ∀ P P' i, rel P P' → low i = false → C' P' i → rel P (P'.step h' i)) (hP : rel P P')
    (hC' : P'.Throughout h' C' s') (hturns : lowTurns low (P'.turns h' o' s') = turn) :
    (turn = [] ∧ rel P (P'.run h' s')) ∨ ∃ P₁ i t, rel P P₁ ∧ low i = true ∧ (∃ q k, P₁.threads i = .ask q k) ∧
      P'.run h' s' = (P₁.step h' i).run h' t ∧ P₁.Throughout h' C' (i :: t) ∧
        turn = (i, o' P₁.view.state) :: lowTurns low ((P₁.step h' i).turns h' o' t) := by
  induction s' generalizing P' with
  | nil => exact .inl ⟨hturns.symm, hP⟩
  | cons i s' ih =>
    rcases P'.ended_or_ask i with hended | ⟨q, k, hask⟩
    · rw [turns_ended hended] at hturns
      have hstay := step_ended (h := h') hended
      obtain ⟨_, hrest⟩ := hC'
      rw [run_cons, hstay]
      rw [hstay] at hrest
      exact ih hP hrest hturns
    · rw [turns_ask hask] at hturns
      cases hlow : low i with
      | true =>
        refine .inr ⟨P', i, s', hP, hlow, ⟨q, k, hask⟩, rfl, hC', ?_⟩
        rw [← hturns]
        simp [lowTurns, hlow]
      | false =>
        refine ih (hright _ _ _ hP hlow hC'.1) hC'.2 ?_
        rw [← hturns]
        simp [lowTurns, hlow]

/-- The unwinding rule. -/
theorem unwind {s s' : List ι}
    (hleft : ∀ P P' i, rel P P' → low i = false → C P i → rel (P.step h i) P')
    (hright : ∀ P P' i, rel P P' → low i = false → C' P' i → rel P (P'.step h' i))
    (hboth : ∀ P P' i, rel P P' → low i = true → C P i → C' P' i → o P.view.state = o' P'.view.state →
      rel (P.step h i) (P'.step h' i))
    (hP : rel P P') (hC : P.Throughout h C s) (hC' : P'.Throughout h' C' s')
    (hturns : lowTurns low (P.turns h o s) = lowTurns low (P'.turns h' o' s')) :
    rel (P.run h s) (P'.run h' s') := by
  induction s generalizing P P' s' with
  | nil =>
    rcases unwind_right hright hP hC' hturns.symm with ⟨_, hrel⟩ | ⟨P₁, i, t, _, _, _, _, _, hne⟩
    · exact hrel
    · cases hne
  | cons i s ih =>
    rcases P.ended_or_ask i with hended | ⟨q, k, hask⟩
    · rw [turns_ended hended] at hturns
      have hstay := step_ended (h := h) hended
      obtain ⟨_, hrest⟩ := hC
      rw [run_cons, hstay]
      rw [hstay] at hrest
      exact ih hP hrest hC' hturns
    · rw [turns_ask hask] at hturns
      cases hlow : low i with
      | false =>
        refine ih (hleft _ _ _ hP hlow hC.1) hC.2 hC' ?_
        rw [← hturns]
        simp [lowTurns, hlow]
      | true =>
        have hhead : lowTurns low ((i, o P.view.state) :: (P.step h i).turns h o s) =
            (i, o P.view.state) :: lowTurns low ((P.step h i).turns h o s) := by simp [lowTurns, hlow]
        rw [hhead] at hturns
        rcases unwind_right hright hP hC' hturns.symm with ⟨hnil, _⟩ | ⟨P₁, j, t, hP₁, _, _, hrun, hC₁, hcons⟩
        · cases hnil
        · obtain ⟨hij, hrest⟩ := List.cons.inj hcons
          obtain ⟨rfl, hobserved⟩ := Prod.mk.inj hij
          rw [run_cons, hrun]
          exact ih (hboth _ _ _ hP₁ hlow hC.1 hC₁.1 hobserved) hC.2 hC₁.2 hrest

end Unwind

end Pool

/-- A safe thread guarantees its next question. -/
theorem Discipline.Safe.guar_ask {h : Handler R S} {D : Discipline ι R S} {i : ι}
    {E : Except ε α → View ι R S → Prop} {q : Q} {k : R q → Prog Q R ε α} {v : View ι R S}
    (hp : D.Safe h i E (.ask q k) v) (hI : D.inv v) (hC : D.allowed v i q) : D.guar v i q := by
  obtain ⟨K, -, hKv, hK⟩ := hp
  exact (hK v hI hKv hC).1

end Effects
