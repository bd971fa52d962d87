import AgentVerse.Effects.Pool

/-!
# Programs among programs that ask more

Threads of a pool share one type of questions. A program that asks questions of one kind only is embedded by `inl`
into the programs that ask questions of two kinds.
-/

namespace Effects

variable {Q Q' : Type} {R : Q → Type} {R' : Q' → Type} {ε α β S : Type}

/-- The replies to questions of two kinds. -/
@[reducible] def SumReply (R : Q → Type) (R' : Q' → Type) : Q ⊕ Q' → Type
  | .inl q => R q
  | .inr q => R' q

/-- Answers to questions of two kinds about one state. -/
def Handler.sum (h : Handler R S) (h' : Handler R' S) : Handler (SumReply R R') S
  | .inl q => h q
  | .inr q => h' q

namespace Prog

def inl : Prog Q R ε α → Prog (Q ⊕ Q') (SumReply R R') ε α
  | ret a => ret a
  | fail e => fail e
  | ask q k => ask (.inl q) fun r => (k r).inl

theorem inl_bind (p : Prog Q R ε α) (f : α → Prog Q R ε β) :
    ((p >>= f).inl : Prog (Q ⊕ Q') (SumReply R R') ε β) = p.inl >>= fun a => (f a).inl := by
  induction p with
  | ret a => rfl
  | fail e => rfl
  | ask q k ih => exact congrArg (ask _) (funext ih)

theorem Meets.inl {A : Q → Prop} {P : Except ε α → Prop} {p : Prog Q R ε α}
    (hp : p.Meets (fun _ _ => True) A P) :
    (p.inl : Prog (Q ⊕ Q') (SumReply R R') ε α).Meets (fun _ _ => True) (fun x => ∃ q, x = .inl q ∧ A q) P := by
  induction p with
  | ret a => exact hp
  | fail e => exact hp
  | ask q k ih => exact ⟨⟨q, rfl, hp.1⟩, fun r _ => ih r (hp.2 r trivial)⟩

theorem Only.inl {A : Q → Prop} {p : Prog Q R ε α} (hp : p.Only A) :
    (p.inl : Prog (Q ⊕ Q') (SumReply R R') ε α).Only fun x => ∃ q, x = .inl q ∧ A q :=
  Meets.inl hp

end Prog

end Effects
