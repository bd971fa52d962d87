import Mathlib.Data.List.Basic

/-!
# Programs that ask an environment

A program `Prog Q R ε α` either returns an `α`, fails with an `ε`, or asks its environment a question `q : Q` and
goes on with the answer, of type `R q`. Programs are plain data, so the same program is run to completion
(`Prog.run`), interleaved with others (`Pool`), or reasoned about for all answers (`Prog.Meets`).

* `run_bind`, `run_trace`: how runs compose, and that a run only ever adds to the trace.
* `Meets.run`: a program that meets an assume/guarantee specification keeps its guarantee in every run whose
  answers satisfy the assumption.
* `run_plays`: every run is a play, which is a way the program can go whoever answers.
* `Only.reaches`, `Only.run_bind`: a program whose questions are known takes a configuration to one that is
  reached by such questions, and what these preserve (`Reaches.preserves`, `Reaches.frame`) it preserves.
-/

namespace Effects

/-- A program over the questions `Q` with answers `R`. -/
inductive Prog (Q : Type) (R : Q → Type) (ε α : Type) : Type where
  | ret (a : α)
  | fail (e : ε)
  | ask (q : Q) (k : R q → Prog Q R ε α)

variable {Q : Type} {R : Q → Type} {ε ε' α β γ S : Type}

namespace Prog

/-! ### Operations -/

protected def bind : Prog Q R ε α → (α → Prog Q R ε β) → Prog Q R ε β
  | ret a, f => f a
  | fail e, _ => fail e
  | ask q k, f => ask q fun r => (k r).bind f

instance : Monad (Prog Q R ε) where
  pure := ret
  bind := Prog.bind

/-- The result of a program that has ended. -/
def result? : Prog Q R ε α → Option (Except ε α)
  | ret a => some (.ok a)
  | fail e => some (.error e)
  | ask .. => none

/-- Ask one question and return the answer. -/
def perform (q : Q) : Prog Q R ε (R q) := ask q ret

/-- A computed result as a program that asks nothing. -/
def lift : Except ε α → Prog Q R ε α
  | .ok a => ret a
  | .error e => fail e

/-- Change the error of a program, as `map_err` does. -/
def mapErr (f : ε → ε') : Prog Q R ε α → Prog Q R ε' α
  | ret a => ret a
  | fail e => fail (f e)
  | ask q k => ask q fun r => (k r).mapErr f

/-- Run a program for its result, whatever it is. The program that catches it cannot fail here. -/
def attempt : Prog Q R ε α → Prog Q R ε' (Except ε α)
  | ret a => ret (.ok a)
  | fail e => ret (.error e)
  | ask q k => ask q fun r => (k r).attempt

/-- Poll `q` before each question of a program, and stop with `e` at the first answer that `stop` accepts. -/
def cutOff (q : Q) (stop : R q → Bool) (e : ε) : Prog Q R ε α → Prog Q R ε α
  | ret a => ret a
  | fail e' => fail e'
  | ask q' k => ask q fun r => if stop r then fail e else ask q' fun r' => (k r').cutOff q stop e

@[simp] theorem pure_eq (a : α) : (pure a : Prog Q R ε α) = ret a := rfl

@[simp] theorem ret_bind (a : α) (f : α → Prog Q R ε β) : ret a >>= f = f a := rfl

@[simp] theorem fail_bind (e : ε) (f : α → Prog Q R ε β) : (fail e : Prog Q R ε α) >>= f = fail e := rfl

@[simp] theorem ask_bind (q : Q) (k : R q → Prog Q R ε α) (f : α → Prog Q R ε β) :
    ask q k >>= f = ask q fun r => k r >>= f := rfl

@[simp] theorem perform_bind (q : Q) (f : R q → Prog Q R ε β) : perform q >>= f = ask q f := rfl

@[simp] theorem lift_ok (a : α) : (lift (.ok a) : Prog Q R ε α) = ret a := rfl

@[simp] theorem lift_error (e : ε) : (lift (.error e) : Prog Q R ε α) = fail e := rfl

@[simp] theorem mapErr_ret (f : ε → ε') (a : α) : (ret a : Prog Q R ε α).mapErr f = ret a := rfl

@[simp] theorem mapErr_fail (f : ε → ε') (e : ε) : (fail e : Prog Q R ε α).mapErr f = fail (f e) := rfl

@[simp] theorem mapErr_ask (f : ε → ε') (q : Q) (k : R q → Prog Q R ε α) :
    (ask q k).mapErr f = ask q fun r => (k r).mapErr f := rfl

@[simp] theorem bind_assoc (p : Prog Q R ε α) (f : α → Prog Q R ε β) (g : β → Prog Q R ε γ) :
    p >>= f >>= g = p >>= fun a => f a >>= g := by
  induction p with
  | ret a => rfl
  | fail e => rfl
  | ask q k ih => exact congrArg (ask q) (funext ih)

theorem mapErr_bind (h : ε → ε') (p : Prog Q R ε α) (f : α → Prog Q R ε β) :
    (p >>= f).mapErr h = p.mapErr h >>= fun a => (f a).mapErr h := by
  induction p with
  | ret a => rfl
  | fail e => rfl
  | ask q k ih => exact congrArg (ask q) (funext ih)

end Prog

/-! ### Runs -/

/-- A question together with its answer. -/
abbrev Step (R : Q → Type) : Type := (q : Q) × R q

/-- The state of the environment and everything asked of it so far, oldest first. -/
structure Config (R : Q → Type) (S : Type) where
  state : S
  trace : List (Step R)

/-- An environment answers a question and moves to its next state. -/
abbrev Handler (R : Q → Type) (S : Type) : Type := (q : Q) → S → R q × S

namespace Config

/-- The configuration after asking `q`. -/
def after (h : Handler R S) (c : Config R S) (q : Q) : Config R S :=
  ⟨(h q c.state).2, c.trace ++ [⟨q, (h q c.state).1⟩]⟩

@[simp] theorem after_state (h : Handler R S) (c : Config R S) (q : Q) :
    (c.after h q).state = (h q c.state).2 := rfl

@[simp] theorem after_trace (h : Handler R S) (c : Config R S) (q : Q) :
    (c.after h q).trace = c.trace ++ [⟨q, (h q c.state).1⟩] := rfl

end Config

/-- The result of a program followed by a pure function. -/
theorem map_eq_ok {α β ε : Type} {f : α → β} {r : Except ε α} {b : β} :
    r.map f = .ok b ↔ ∃ a, r = .ok a ∧ b = f a := by
  cases r with
  | error e => simp [Except.map]
  | ok a => simp [Except.map, eq_comm]

namespace Prog

/-- Run a program to its end. -/
def run (h : Handler R S) : Prog Q R ε α → Config R S → Except ε α × Config R S
  | ret a, c => (.ok a, c)
  | fail e, c => (.error e, c)
  | ask q k, c => (k (h q c.state).1).run h (c.after h q)

variable (h : Handler R S)

@[simp] theorem run_ret (a : α) (c : Config R S) : (ret a : Prog Q R ε α).run h c = (.ok a, c) := rfl

@[simp] theorem run_fail (e : ε) (c : Config R S) : (fail e : Prog Q R ε α).run h c = (.error e, c) := rfl

@[simp] theorem run_ask (q : Q) (k : R q → Prog Q R ε α) (c : Config R S) :
    (ask q k).run h c = (k (h q c.state).1).run h (c.after h q) := rfl

@[simp] theorem run_perform (q : Q) (c : Config R S) :
    (perform q : Prog Q R ε (R q)).run h c = (.ok (h q c.state).1, c.after h q) := rfl

@[simp] theorem run_lift (x : Except ε α) (c : Config R S) : (lift x : Prog Q R ε α).run h c = (x, c) := by
  cases x <;> rfl

/-- A sequence runs its second part where the first one succeeds. -/
theorem run_bind (p : Prog Q R ε α) (f : α → Prog Q R ε β) (c : Config R S) :
    (p >>= f).run h c =
      match (p.run h c).1 with
      | .ok a => (f a).run h (p.run h c).2
      | .error e => (.error e, (p.run h c).2) := by
  induction p generalizing c with
  | ret a => rfl
  | fail e => rfl
  | ask q k ih => exact ih _ _

theorem run_bind_ok {p : Prog Q R ε α} {c c' : Config R S} {a : α} (hp : p.run h c = (.ok a, c'))
    (f : α → Prog Q R ε β) : (p >>= f).run h c = (f a).run h c' := by
  rw [run_bind, hp]

theorem run_bind_error {p : Prog Q R ε α} {c c' : Config R S} {e : ε} (hp : p.run h c = (.error e, c'))
    (f : α → Prog Q R ε β) : (p >>= f).run h c = (.error e, c') := by
  rw [run_bind, hp]

/-- A sequence succeeds when both parts do. -/
theorem run_bind_eq_ok {p : Prog Q R ε α} {f : α → Prog Q R ε β} {c c' : Config R S} {b : β} :
    (p >>= f).run h c = (.ok b, c') ↔ ∃ a c₁, p.run h c = (.ok a, c₁) ∧ (f a).run h c₁ = (.ok b, c') := by
  rw [run_bind]
  rcases p.run h c with ⟨r, c₁⟩
  cases r <;> simp

/-- A pure function at the end of a program. -/
theorem run_bind_ret (p : Prog Q R ε α) (f : α → β) (c : Config R S) :
    (p >>= fun a => ret (f a)).run h c = ((p.run h c).1.map f, (p.run h c).2) := by
  rw [run_bind]
  cases (p.run h c).1 <;> rfl

@[simp] theorem run_mapErr (f : ε → ε') (p : Prog Q R ε α) (c : Config R S) :
    (p.mapErr f).run h c = ((p.run h c).1.mapError f, (p.run h c).2) := by
  induction p generalizing c with
  | ret a => rfl
  | fail e => rfl
  | ask q k ih => exact ih _ _

theorem run_mapErr_eq_ok {f : ε → ε'} {p : Prog Q R ε α} {c c' : Config R S} {a : α} :
    (p.mapErr f).run h c = (.ok a, c') ↔ p.run h c = (.ok a, c') := by
  rw [run_mapErr]
  rcases p.run h c with ⟨r, c₁⟩
  cases r <;> simp [Except.mapError]

@[simp] theorem run_attempt (p : Prog Q R ε α) (c : Config R S) :
    (p.attempt : Prog Q R ε' (Except ε α)).run h c = (.ok (p.run h c).1, (p.run h c).2) := by
  induction p generalizing c with
  | ret a => rfl
  | fail e => rfl
  | ask q k ih => exact ih _ _

/-- Earlier history does not change what a program does: it is only carried along. -/
theorem run_trace (p : Prog Q R ε α) (s : S) (t : List (Step R)) :
    p.run h ⟨s, t⟩ = ((p.run h ⟨s, []⟩).1, ⟨(p.run h ⟨s, []⟩).2.state, t ++ (p.run h ⟨s, []⟩).2.trace⟩) := by
  induction p generalizing s t with
  | ret a => simp
  | fail e => simp
  | ask q k ih =>
    simp only [run_ask, Config.after, List.nil_append]
    rw [ih _ _ (t ++ _), ih _ _ [_]]
    simp

/-- The sequence rule for two runs that are known. -/
theorem run_bind_append {p : Prog Q R ε α} {f : α → Prog Q R ε β} {s s₁ s₂ : S} {t t' : List (Step R)} {a : α}
    {r : Except ε β} (hp : p.run h ⟨s, []⟩ = (.ok a, ⟨s₁, t⟩)) (hf : (f a).run h ⟨s₁, []⟩ = (r, ⟨s₂, t'⟩)) :
    (p >>= f).run h ⟨s, []⟩ = (r, ⟨s₂, t ++ t'⟩) := by
  rw [run_bind_ok h hp, run_trace, hf]

/-- From state `s`, whatever was asked before, the program ends with `x` in state `s'`. -/
def Ends (p : Prog Q R ε α) (s : S) (x : Except ε α) (s' : S) : Prop :=
  ∀ t, ∃ t', p.run h ⟨s, t⟩ = (x, ⟨s', t'⟩)

variable {h} in
theorem Ends.bind {p : Prog Q R ε α} {f : α → Prog Q R ε β} {s s₁ s₂ : S} {a : α} {x : Except ε β}
    (hp : p.Ends h s (.ok a) s₁) (hf : (f a).Ends h s₁ x s₂) : (p >>= f).Ends h s x s₂ := by
  intro t
  obtain ⟨t₁, h₁⟩ := hp t
  obtain ⟨t₂, h₂⟩ := hf t₁
  exact ⟨t₂, by rw [run_bind_ok h h₁, h₂]⟩

theorem ends_ret (a : α) (s : S) : (ret a : Prog Q R ε α).Ends h s (.ok a) s := fun t => ⟨t, rfl⟩

/-! ### Assume/guarantee specifications -/

/-- As long as the answers satisfy `B`, the questions of the program satisfy `A` and its result `P`. -/
def Meets (B : (q : Q) → R q → Prop) (A : Q → Prop) (P : Except ε α → Prop) : Prog Q R ε α → Prop
  | ret a => P (.ok a)
  | fail e => P (.error e)
  | ask q k => A q ∧ ∀ r, B q r → (k r).Meets B A P

/-- Every question of the program satisfies `A`, whatever the answers. -/
abbrev Only (A : Q → Prop) (p : Prog Q R ε α) : Prop := p.Meets (fun _ _ => True) A (fun _ => True)

variable {B B' : (q : Q) → R q → Prop} {A A' : Q → Prop} {P N : Except ε α → Prop}

@[simp] theorem meets_ret (a : α) : (ret a : Prog Q R ε α).Meets B A P ↔ P (.ok a) := Iff.rfl

@[simp] theorem meets_fail (e : ε) : (fail e : Prog Q R ε α).Meets B A P ↔ P (.error e) := Iff.rfl

@[simp] theorem meets_ask (q : Q) (k : R q → Prog Q R ε α) :
    (ask q k).Meets B A P ↔ A q ∧ ∀ r, B q r → (k r).Meets B A P := Iff.rfl

@[simp] theorem meets_perform (q : Q) (P : Except ε (R q) → Prop) :
    (perform q : Prog Q R ε (R q)).Meets B A P ↔ A q ∧ ∀ r, B q r → P (.ok r) := Iff.rfl

@[simp] theorem meets_lift (x : Except ε α) : (lift x : Prog Q R ε α).Meets B A P ↔ P x := by
  cases x <;> rfl

theorem Meets.mono {p : Prog Q R ε α} (hp : p.Meets B A P) (hB : ∀ q r, B' q r → B q r)
    (hA : ∀ q, A q → A' q) (hP : ∀ x, P x → N x) : p.Meets B' A' N := by
  induction p with
  | ret a => exact hP _ hp
  | fail e => exact hP _ hp
  | ask q k ih => exact ⟨hA q hp.1, fun r hr => ih r (hp.2 r (hB q r hr))⟩

/-- Two specifications with the same assumption. -/
theorem Meets.and {p : Prog Q R ε α} (hp : p.Meets B A P) (hp' : p.Meets B A' N) :
    p.Meets B (fun q => A q ∧ A' q) fun x => P x ∧ N x := by
  induction p with
  | ret a => exact ⟨hp, hp'⟩
  | fail e => exact ⟨hp, hp'⟩
  | ask q k ih => exact ⟨⟨hp.1, hp'.1⟩, fun r hr => ih r (hp.2 r hr) (hp'.2 r hr)⟩

theorem Meets.bind {p : Prog Q R ε α} {f : α → Prog Q R ε β} {N : Except ε β → Prop}
    (hp : p.Meets B A P) (hok : ∀ a, P (.ok a) → (f a).Meets B A N)
    (herr : ∀ e, P (.error e) → N (.error e)) : (p >>= f).Meets B A N := by
  induction p with
  | ret a => exact hok a hp
  | fail e => exact herr e hp
  | ask q k ih => exact ⟨hp.1, fun r hr => ih r (hp.2 r hr)⟩

theorem Meets.mapErr {f : ε → ε'} {p : Prog Q R ε α} {N : Except ε' α → Prop} (hp : p.Meets B A P)
    (hP : ∀ x, P x → N (x.mapError f)) : (p.mapErr f).Meets B A N := by
  induction p with
  | ret a => exact hP _ hp
  | fail e => exact hP _ hp
  | ask q k ih => exact ⟨hp.1, fun r hr => ih r (hp.2 r hr)⟩

theorem Meets.attempt {p : Prog Q R ε α} {N : Except ε' (Except ε α) → Prop} (hp : p.Meets B A P)
    (hP : ∀ x, P x → N (.ok x)) : (p.attempt).Meets B A N := by
  induction p with
  | ret a => exact hP _ hp
  | fail e => exact hP _ hp
  | ask q k ih => exact ⟨hp.1, fun r hr => ih r (hp.2 r hr)⟩

theorem Meets.cutOff {q : Q} {stop : R q → Bool} {e : ε} {p : Prog Q R ε α} (hp : p.Meets B A P)
    (hq : A q) (he : P (.error e)) : (p.cutOff q stop e).Meets B A P := by
  induction p with
  | ret a => exact hp
  | fail e' => exact hp
  | ask q' k ih =>
    refine ⟨hq, fun r _ => ?_⟩
    by_cases hr : stop r = true
    · simpa [hr] using he
    · simp only [hr]
      exact ⟨hp.1, fun r' hr' => ih r' (hp.2 r' hr')⟩

theorem Only.bind {p : Prog Q R ε α} {f : α → Prog Q R ε β} (hp : p.Only A) (hf : ∀ a, (f a).Only A) :
    (p >>= f).Only A :=
  Meets.bind hp (fun a _ => hf a) (fun _ _ => trivial)

theorem Only.mapErr {f : ε → ε'} {p : Prog Q R ε α} (hp : p.Only A) : (p.mapErr f).Only A :=
  Meets.mapErr hp (fun _ _ => trivial)

theorem Only.attempt {p : Prog Q R ε α} (hp : p.Only A) : (p.attempt : Prog Q R ε' _).Only A :=
  Meets.attempt hp (fun _ _ => trivial)

theorem Only.mono {p : Prog Q R ε α} (hp : p.Only A) (hA : ∀ q, A q → A' q) : p.Only A' :=
  Meets.mono hp (fun _ _ h => h) hA (fun _ h => h)

/-- Every program asks something. -/
theorem only_true (p : Prog Q R ε α) : p.Only fun _ => True := by
  induction p with
  | ret a => trivial
  | fail e => trivial
  | ask q k ih => exact ⟨trivial, fun r _ => ih r⟩

@[simp] theorem only_lift (x : Except ε α) : (lift x : Prog Q R ε α).Only A := by
  rw [Only, meets_lift]; trivial

/-- The program fails, or asks a question that satisfies `A` before anything else. -/
def Opens (A : Q → Prop) : Prog Q R ε α → Prop
  | ret _ => False
  | fail _ => True
  | ask q _ => A q

theorem Opens.bind {p : Prog Q R ε α} (hp : p.Opens A) (f : α → Prog Q R ε β) : (p >>= f).Opens A := by
  cases p with
  | ret a => exact hp.elim
  | fail e => trivial
  | ask q k => exact hp

theorem Opens.mapErr {f : ε → ε'} {p : Prog Q R ε α} (hp : p.Opens A) : (p.mapErr f).Opens A := by
  cases p with
  | ret a => exact hp.elim
  | fail e => trivial
  | ask q k => exact hp

/-- What a run adds to the trace. -/
def asked (p : Prog Q R ε α) (s : S) : List (Step R) := (p.run h ⟨s, []⟩).2.trace

theorem asked_ask (q : Q) (k : R q → Prog Q R ε α) (s : S) :
    (ask q k).asked h s = ⟨q, (h q s).1⟩ :: (k (h q s).1).asked h (h q s).2 := by
  simp only [asked, run_ask, Config.after, List.nil_append]
  rw [run_trace]
  rfl

/-- Every answer in a run is one of the environment. -/
theorem answer_of_asked {p : Prog Q R ε α} {s : S} {x : Step R} (hx : x ∈ p.asked h s) :
    ∃ s', x.2 = (h x.1 s').1 := by
  induction p generalizing s with
  | ret a => cases hx
  | fail e => cases hx
  | ask q k ih =>
    rw [asked_ask] at hx
    rcases List.mem_cons.mp hx with rfl | hx
    · exact ⟨s, rfl⟩
    · exact ih _ hx

/-- An assume/guarantee specification holds of every run: if the answers of the run satisfy the assumption, its
questions and its result satisfy the guarantee. -/
theorem Meets.run {p : Prog Q R ε α} (hp : p.Meets B A P) (s : S)
    (hB : ∀ x ∈ p.asked h s, B x.1 x.2) :
    (∀ x ∈ p.asked h s, A x.1) ∧ P (p.run h ⟨s, []⟩).1 := by
  induction p generalizing s with
  | ret a => exact ⟨by simp [asked], hp⟩
  | fail e => exact ⟨by simp [asked], hp⟩
  | ask q k ih =>
    rw [asked_ask] at hB ⊢
    have hhead : B q (h q s).1 := hB ⟨q, (h q s).1⟩ (List.mem_cons_self ..)
    have hrest := ih (h q s).1 (hp.2 _ hhead) (h q s).2 (fun x hx => hB x (List.mem_cons_of_mem _ hx))
    refine ⟨?_, ?_⟩
    · intro x hx
      rcases List.mem_cons.mp hx with rfl | hx
      · exact hp.1
      · exact hrest.1 x hx
    · simp only [run_ask, Config.after]
      rw [run_trace]
      exact hrest.2

/-- The result of a run, when the specification assumes no more than the answers that the run got. -/
theorem Meets.result {p : Prog Q R ε α} {c : Config R S}
    (hp : p.Meets (fun q r => (⟨q, r⟩ : Step R) ∈ (p.run h c).2.trace) A P) : P (p.run h c).1 := by
  obtain ⟨s, t⟩ := c
  rw [run_trace] at hp ⊢
  exact (Meets.run h hp s fun x hx => List.mem_append_right t hx).2

/-- The first question of a run. -/
theorem Opens.asked {p : Prog Q R ε α} (hp : p.Opens A) (s : S) :
    p.asked h s = [] ∨ ∃ x t, p.asked h s = x :: t ∧ A x.1 := by
  cases p with
  | ret a => exact .inl rfl
  | fail e => exact .inl rfl
  | ask q k => exact .inr ⟨_, _, asked_ask h q k s, hp⟩

theorem Only.run {p : Prog Q R ε α} (hp : p.Only A) (s : S) : ∀ x ∈ p.asked h s, A x.1 :=
  (Meets.run h hp s (fun _ _ => trivial)).1

/-- The rule for an invariant of the state that also justifies the assumption on the answers: it holds at the end of
a run, with the result that is guaranteed. -/
theorem Meets.invariant {p : Prog Q R ε α} (hp : p.Meets B A P) {I : S → Prop}
    (hI : ∀ q s, A q → I s → B q (h q s).1 ∧ I (h q s).2) {c : Config R S} (hc : I c.state) :
    I (p.run h c).2.state ∧ P (p.run h c).1 := by
  induction p generalizing c with
  | ret a => exact ⟨hc, hp⟩
  | fail e => exact ⟨hc, hp⟩
  | ask q k ih =>
    obtain ⟨hr, hs⟩ := hI q c.state hp.1 hc
    exact ih _ (hp.2 _ hr) hs

/-! ### Cut-off runs -/

/-- The state in which a run is left that is cut off after `n` questions. -/
def leave : Nat → Prog Q R ε α → S → S
  | n + 1, ask q k, s => leave n (k (h q s).1) (h q s).2
  | _, _, s => s

/-- The same rule for a run that is cut off. -/
theorem Meets.invariant_leave {p : Prog Q R ε α} (hp : p.Meets B A P) {I : S → Prop}
    (hI : ∀ q s, A q → I s → B q (h q s).1 ∧ I (h q s).2) (n : Nat) {s : S} (hs : I s) : I (p.leave h n s) := by
  induction n generalizing p s with
  | zero => exact hs
  | succ n ih =>
    cases p with
    | ret a => exact hs
    | fail e => exact hs
    | ask q k =>
      obtain ⟨hr, hs⟩ := hI q s hp.1 hs
      exact ih (hp.2 _ hr) hs

/-! ### Plays -/

/-- With some answers, the program asks exactly `t` and ends with `x`. -/
def Plays : Prog Q R ε α → List (Step R) → Except ε α → Prop
  | ret a, t, x => t = [] ∧ x = .ok a
  | fail e, t, x => t = [] ∧ x = .error e
  | ask q k, t, x => ∃ r t', t = ⟨q, r⟩ :: t' ∧ (k r).Plays t' x

@[simp] theorem plays_ret {a : α} {t : List (Step R)} {x : Except ε α} :
    (ret a : Prog Q R ε α).Plays t x ↔ t = [] ∧ x = .ok a := Iff.rfl

@[simp] theorem plays_fail {e : ε} {t : List (Step R)} {x : Except ε α} :
    (fail e : Prog Q R ε α).Plays t x ↔ t = [] ∧ x = .error e := Iff.rfl

@[simp] theorem plays_lift {y : Except ε α} {t : List (Step R)} {x : Except ε α} :
    (lift y : Prog Q R ε α).Plays t x ↔ t = [] ∧ x = y := by
  cases y <;> exact Iff.rfl

@[simp] theorem plays_ask {q : Q} {k : R q → Prog Q R ε α} {t : List (Step R)} {x : Except ε α} :
    (ask q k).Plays t x ↔ ∃ r t', t = ⟨q, r⟩ :: t' ∧ (k r).Plays t' x := Iff.rfl

/-- A run is a play. -/
theorem run_plays (p : Prog Q R ε α) (s : S) : p.Plays (p.asked h s) (p.run h ⟨s, []⟩).1 := by
  induction p generalizing s with
  | ret a => exact ⟨rfl, rfl⟩
  | fail e => exact ⟨rfl, rfl⟩
  | ask q k ih =>
    have hrest : ((ask q k).run h ⟨s, []⟩).1 = ((k (h q s).1).run h ⟨(h q s).2, []⟩).1 := by
      rw [run_ask, Config.after, run_trace]
    rw [asked_ask, hrest]
    exact ⟨_, _, rfl, ih _ _⟩

end Prog

/-! ### Reachable configurations -/

/-- `c'` is reached from `c` by questions that satisfy `A`. -/
inductive Reaches (h : Handler R S) (A : Q → Prop) (c : Config R S) : Config R S → Prop where
  | refl : Reaches h A c c
  | step {c' : Config R S} {q : Q} (hq : A q) (hc : Reaches h A c c') : Reaches h A c (c'.after h q)

namespace Reaches

variable {h : Handler R S} {A A' : Q → Prop} {c c' c'' : Config R S}

theorem trans (h₁ : Reaches h A c c') (h₂ : Reaches h A c' c'') : Reaches h A c c'' := by
  induction h₂ with
  | refl => exact h₁
  | step hq _ ih => exact step hq ih

theorem mono (hr : Reaches h A c c') (hA : ∀ q, A q → A' q) : Reaches h A' c c' := by
  induction hr with
  | refl => exact refl
  | step hq _ ih => exact step (hA _ hq) ih

/-- What every admissible question preserves is preserved. -/
theorem preserves (hr : Reaches h A c c') (I : S → Prop) (hI : ∀ q s, A q → I s → I (h q s).2)
    (hc : I c.state) : I c'.state := by
  induction hr with
  | refl => exact hc
  | step hq _ ih => exact hI _ _ hq ih

/-- What no admissible question changes has not changed. -/
theorem frame {β : Type} (hr : Reaches h A c c') (f : S → β) (hf : ∀ q s, A q → f (h q s).2 = f s) :
    f c'.state = f c.state :=
  hr.preserves (fun s => f s = f c.state) (fun q s hq hs => (hf q s hq).trans hs) rfl

/-- The trace has grown by admissible questions. -/
theorem trace (hr : Reaches h A c c') : ∃ t, c'.trace = c.trace ++ t ∧ ∀ x ∈ t, A x.1 := by
  induction hr with
  | refl => exact ⟨[], by simp, by simp⟩
  | @step c₁ q hq _ ih =>
    obtain ⟨t, ht, hA⟩ := ih
    refine ⟨t ++ [⟨q, (h q c₁.state).1⟩], by simp [ht], fun x hx => ?_⟩
    rcases List.mem_append.mp hx with hx | hx
    · exact hA x hx
    · rw [List.mem_singleton.mp hx]
      exact hq

end Reaches

namespace Prog

variable {h : Handler R S} {A : Q → Prop}

/-- A run of a program that gets the answers it assumes keeps its guarantee. -/
theorem Meets.reaches {B : (q : Q) → R q → Prop} {P : Except ε α → Prop} {p : Prog Q R ε α} (hp : p.Meets B A P)
    (c : Config R S) (hB : ∀ x ∈ (p.run h c).2.trace, B x.1 x.2) :
    Reaches h A c (p.run h c).2 ∧ P (p.run h c).1 := by
  induction p generalizing c with
  | ret a => exact ⟨.refl, hp⟩
  | fail e => exact ⟨.refl, hp⟩
  | ask q k ih =>
    have hanswer : B q (h q c.state).1 := by
      refine hB ⟨q, (h q c.state).1⟩ ?_
      rw [run_ask, Config.after, run_trace]
      exact List.mem_append_left _ (by simp)
    obtain ⟨hr, hP⟩ := ih _ (hp.2 _ hanswer) (c.after h q) hB
    exact ⟨(Reaches.step hp.1 .refl).trans hr, hP⟩

/-- A run of a program goes through admissible questions only. -/
theorem Only.reaches {p : Prog Q R ε α} (hp : p.Only A) (c : Config R S) : Reaches h A c (p.run h c).2 := by
  induction p generalizing c with
  | ret a => exact .refl
  | fail e => exact .refl
  | ask q k ih => exact (Reaches.step hp.1 .refl).trans (ih _ (hp.2 _ trivial) _)

/-- The sequence rule for a first program of which only its questions are known. -/
theorem Only.run_bind {p : Prog Q R ε α} (hp : p.Only A) {f : α → Prog Q R ε β} {c : Config R S}
    {Φ : Except ε β → Config R S → Prop} (herr : ∀ e c', Reaches h A c c' → Φ (.error e) c')
    (hok : ∀ a c', Reaches h A c c' → p.run h c = (.ok a, c') → Φ ((f a).run h c').1 ((f a).run h c').2) :
    Φ ((p >>= f).run h c).1 ((p >>= f).run h c).2 := by
  have hr : Reaches h A c (p.run h c).2 := hp.reaches c
  rw [Prog.run_bind]
  rcases hrun : p.run h c with ⟨x, c'⟩
  rw [hrun] at hr
  cases x with
  | ok a => exact hok a c' hr hrun
  | error e => exact herr e c' hr

end Prog

end Effects
