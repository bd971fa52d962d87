import AgentVerse.Effects.Sum

/-!
# Programs that leave notes

A program may leave notes between its questions. Without them it is a program that asks the same and ends alike
(`Plays.erase`); the notes of a run are then a second reading of its trace. Notes are never answered.
-/

namespace Effects

variable {Q N : Type} {R : Q → Type} {ε ε' α β : Type}

/-- Notes are taken, and nothing comes back. -/
@[reducible] def NoteReply (R : Q → Type) (N : Type) : Q ⊕ N → Type := SumReply R fun _ : N => Unit

/-- A program that leaves notes. -/
abbrev Noted (Q N : Type) (R : Q → Type) (ε α : Type) : Type := Prog (Q ⊕ N) (NoteReply R N) ε α

namespace Prog

/-- Leave a note. -/
def note (n : N) : Noted Q N R ε Unit := ask (.inr n) ret

/-- The program without its notes. -/
def erase : Noted Q N R ε α → Prog Q R ε α
  | ret a => ret a
  | fail e => fail e
  | ask (.inl q) k => ask q fun r => (k r).erase
  | ask (.inr _) k => (k ()).erase

@[simp] theorem erase_ret (a : α) : (ret a : Noted Q N R ε α).erase = ret a := rfl

@[simp] theorem erase_fail (e : ε) : (fail e : Noted Q N R ε α).erase = fail e := rfl

/-- A program without notes stays as it is. -/
@[simp] theorem erase_inl (p : Prog Q R ε α) : (p.inl : Noted Q N R ε α).erase = p := by
  induction p with
  | ret a => rfl
  | fail e => rfl
  | ask q k ih => exact congrArg (ask q) (funext ih)

end Prog

/-! ### Traces -/

/-- What was asked, without the notes. -/
def asks : List (Step (NoteReply R N)) → List (Step R)
  | [] => []
  | ⟨.inl q, r⟩ :: t => ⟨q, r⟩ :: asks t
  | ⟨.inr _, _⟩ :: t => asks t

/-- The notes, in order. -/
def notes : List (Step (NoteReply R N)) → List N
  | [] => []
  | ⟨.inl _, _⟩ :: t => notes t
  | ⟨.inr n, _⟩ :: t => n :: notes t

namespace Prog

variable {p : Noted Q N R ε α} {t : List (Step (NoteReply R N))} {x : Except ε α}

/-- Without its notes, a program asks the same and ends alike. -/
theorem Plays.erase (hp : p.Plays t x) : p.erase.Plays (asks t) x := by
  induction p generalizing t with
  | ret a =>
    obtain ⟨rfl, hx⟩ := hp
    exact ⟨rfl, hx⟩
  | fail e =>
    obtain ⟨rfl, hx⟩ := hp
    exact ⟨rfl, hx⟩
  | ask q k ih =>
    obtain ⟨r, t, rfl, hrest⟩ := plays_ask.mp hp
    cases q with
    | inl q => exact plays_ask.mpr ⟨r, asks t, rfl, ih r hrest⟩
    | inr n =>
      have herased : (k ()).erase.Plays (asks t) x := ih () hrest
      exact herased

end Prog

/-! ### In a pool -/

section Pools

variable {ι S : Type} [DecidableEq ι]

/-- The turns of thread `i` in a trace. -/
def turns (i : ι) (t : List (ι × Step R)) : List (Step R) :=
  t.filterMap fun x => if x.1 = i then some x.2 else none

/-- What is asked in a pool, a thread asks as it would alone. -/
theorem Pool.run_turns {h : Handler R S} {P : Pool ι R S ε α} {schedule : List ι} {i : ι} {t : List (Step R)}
    {x : Except ε α} (hp : ((P.run h schedule).threads i).Plays t x) :
    ∃ t', (P.threads i).Plays (t' ++ t) x ∧ turns i (P.run h schedule).view.trace = turns i P.view.trace ++ t' := by
  induction schedule generalizing P with
  | nil => exact ⟨[], hp, (List.append_nil _).symm⟩
  | cons j schedule ih =>
    obtain ⟨t', hplay, htrace⟩ := ih hp
    rw [Pool.run_cons, htrace]
    unfold Pool.step at hplay ⊢
    cases ht : P.threads j with
    | ret a =>
      rw [ht] at hplay
      exact ⟨t', hplay, rfl⟩
    | fail e =>
      rw [ht] at hplay
      exact ⟨t', hplay, rfl⟩
    | ask q k =>
      rw [ht] at hplay
      dsimp only at hplay ⊢
      by_cases hj : j = i
      · subst hj
        rw [Function.update_self] at hplay
        rw [ht]
        exact ⟨⟨q, (h q P.view.state).1⟩ :: t', Prog.plays_ask.mpr ⟨_, _, rfl, hplay⟩, by simp [turns]⟩
      · rw [Function.update_of_ne (Ne.symm hj)] at hplay
        exact ⟨t', hplay, by simp [turns, hj]⟩

theorem Prog.plays_result {p : Prog Q R ε α} {x : Except ε α} (hx : p.result? = some x) : p.Plays [] x := by
  cases p with
  | ret a =>
    cases hx
    exact ⟨rfl, rfl⟩
  | fail e =>
    cases hx
    exact ⟨rfl, rfl⟩
  | ask q k => cases hx

/-- The turns of a thread that has ended are a play of it. -/
theorem Pool.plays_of_result {h : Handler R S} {P : Pool ι R S ε α} (hP : P.view.trace = []) {schedule : List ι} {i : ι}
    {x : Except ε α} (hx : ((P.run h schedule).threads i).result? = some x) :
    (P.threads i).Plays (turns i (P.run h schedule).view.trace) x := by
  obtain ⟨t', hplay, htrace⟩ := Pool.run_turns (Prog.plays_result hx)
  rw [List.append_nil] at hplay
  rwa [htrace, hP]

end Pools

end Effects
