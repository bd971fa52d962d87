import Mathlib.Logic.Function.Basic
import AgentVerse.Effects.Prog

/-!
# Interleaved programs

A pool runs one program per thread against a shared environment. A schedule says whose turn it is; a turn is one
question of that thread together with its answer, so a schedule of single turns is an arbitrary interleaving.

The proof rule is rely/guarantee (`Pool.run_safe`). A `Discipline` fixes an invariant `inv` of the shared view, the
condition `allowed` under which turns are taken, and what every thread guarantees about its own turns, `guar`.
A thread is `Safe` when it keeps `inv` and `guar` in each of its turns from what it knows, and what it knows is
stable under the turns of the others.
-/

namespace Effects

variable {Q : Type} {R : Q → Type} {ε α β S ι : Type}

/-- What all threads share: the state of the environment and the questions asked so far, with their askers. -/
structure View (ι : Type) (R : Q → Type) (S : Type) where
  state : S
  trace : List (ι × Step R)

namespace View

/-- The view after thread `i` asked `q`. -/
def after (h : Handler R S) (v : View ι R S) (i : ι) (q : Q) : View ι R S :=
  ⟨(h q v.state).2, v.trace ++ [(i, ⟨q, (h q v.state).1⟩)]⟩

@[simp] theorem after_state (h : Handler R S) (v : View ι R S) (i : ι) (q : Q) :
    (v.after h i q).state = (h q v.state).2 := rfl

@[simp] theorem after_trace (h : Handler R S) (v : View ι R S) (i : ι) (q : Q) :
    (v.after h i q).trace = v.trace ++ [(i, ⟨q, (h q v.state).1⟩)] := rfl

/-- What was asked since thread `i` last asked a question of kind `p`, newest first. -/
def since [DecidableEq ι] (v : View ι R S) (i : ι) (p : Step R → Bool) : List (ι × Step R) :=
  v.trace.reverse.takeWhile fun x => !(x.1 = i && p x.2)

theorem since_after [DecidableEq ι] (h : Handler R S) (v : View ι R S) (i j : ι) (q : Q) (p : Step R → Bool) :
    (v.after h j q).since i p =
      if j = i ∧ p ⟨q, (h q v.state).1⟩ = true then [] else (j, ⟨q, (h q v.state).1⟩) :: v.since i p := by
  simp only [since, after_trace, List.reverse_append, List.reverse_cons, List.reverse_nil, List.nil_append,
    List.singleton_append, List.takeWhile_cons]
  by_cases hp : j = i ∧ p ⟨q, (h q v.state).1⟩ = true
  · simp [hp]
  · rw [if_neg hp, if_pos]
    simpa [Decidable.imp_iff_not_or] using hp

end View

/-- Thread `i` asked a question with a reply that satisfy `p`. -/
def Happened (v : View ι R S) (i : ι) (p : Step R → Prop) : Prop := ∃ x ∈ v.trace, x.1 = i ∧ p x.2

section Happened

variable {h : Handler R S} {v : View ι R S} {i j : ι} {q : Q} {p p' : Step R → Prop}

theorem happened_after : Happened (v.after h j q) i p ↔ Happened v i p ∨ (j = i ∧ p ⟨q, (h q v.state).1⟩) := by
  simp only [Happened, View.after_trace, List.mem_append, List.mem_singleton]
  constructor
  · rintro ⟨x, hx | rfl, hi, hp⟩
    · exact .inl ⟨x, hx, hi, hp⟩
    · exact .inr ⟨hi, hp⟩
  · rintro (⟨x, hx, hi, hp⟩ | ⟨rfl, hp⟩)
    · exact ⟨x, .inl hx, hi, hp⟩
    · exact ⟨_, .inr rfl, rfl, hp⟩

theorem Happened.after (hp : Happened v i p) : Happened (v.after h j q) i p := happened_after.mpr (.inl hp)

/-- What the others do is not done by `i`. -/
theorem happened_other (hj : j ≠ i) : Happened (v.after h j q) i p ↔ Happened v i p := by
  rw [happened_after]
  exact ⟨fun hp => hp.elim id fun hp => absurd hp.1 hj, .inl⟩

/-- A question with another reply adds nothing. -/
theorem happened_not (hp : ¬ p ⟨q, (h q v.state).1⟩) : Happened (v.after h j q) i p ↔ Happened v i p := by
  rw [happened_after]
  exact ⟨fun h => h.elim id fun h => absurd h.2 hp, .inl⟩

theorem Happened.mono (hx : Happened v i p) (himp : ∀ x, p x → p' x) : Happened v i p' := by
  obtain ⟨x, hx, hi, hp⟩ := hx
  exact ⟨x, hx, hi, himp _ hp⟩

end Happened

/-- A pool of threads over a shared view. -/
structure Pool (ι : Type) (R : Q → Type) (S ε α : Type) where
  threads : ι → Prog Q R ε α
  view : View ι R S

namespace Pool

variable [DecidableEq ι] (h : Handler R S)

/-- The turn of thread `i`. A thread that has ended does nothing. -/
def step (P : Pool ι R S ε α) (i : ι) : Pool ι R S ε α :=
  match P.threads i with
  | .ask q k => ⟨Function.update P.threads i (k (h q P.view.state).1), P.view.after h i q⟩
  | _ => P

/-- The turns of a schedule, in order. -/
def run (P : Pool ι R S ε α) (schedule : List ι) : Pool ι R S ε α := schedule.foldl (step h) P

@[simp] theorem run_nil (P : Pool ι R S ε α) : P.run h [] = P := rfl

@[simp] theorem run_cons (P : Pool ι R S ε α) (i : ι) (schedule : List ι) :
    P.run h (i :: schedule) = (P.step h i).run h schedule := rfl

theorem run_append (P : Pool ι R S ε α) (s₁ s₂ : List ι) : P.run h (s₁ ++ s₂) = (P.run h s₁).run h s₂ :=
  List.foldl_append

/-- Everything asked in a run was asked in one of its turns. -/
theorem turn_of_trace {P : Pool ι R S ε α} {schedule : List ι} {x : ι × Step R}
    (hx : x ∈ (P.run h schedule).view.trace) :
    x ∈ P.view.trace ∨ ∃ s₁ s₂ q k, schedule = s₁ ++ x.1 :: s₂ ∧ (P.run h s₁).threads x.1 = .ask q k ∧
      x.2 = ⟨q, (h q (P.run h s₁).view.state).1⟩ := by
  induction schedule generalizing P with
  | nil => exact .inl hx
  | cons i schedule ih =>
    rcases ih hx with hx | ⟨s₁, s₂, q, k, rfl, ht, he⟩
    · unfold step at hx
      cases ht : P.threads i with
      | ret a => rw [ht] at hx; exact .inl hx
      | fail e => rw [ht] at hx; exact .inl hx
      | ask q k =>
        rw [ht] at hx
        rcases List.mem_append.mp hx with hx | hx
        · exact .inl hx
        · rw [List.mem_singleton.mp hx]
          exact .inr ⟨[], schedule, q, k, rfl, ht, rfl⟩
    · exact .inr ⟨i :: s₁, s₂, q, k, rfl, ht, he⟩

/-- Every turn of the schedule satisfies `C` in the view it is taken in. -/
def Conforms (C : View ι R S → ι → Q → Prop) (P : Pool ι R S ε α) : List ι → Prop
  | [] => True
  | i :: schedule => (∀ q k, P.threads i = .ask q k → C P.view i q) ∧ (P.step h i).Conforms C schedule

/-- Whether the turns of a schedule satisfy `C` is decided along the run. -/
instance decConforms (C : View ι R S → ι → Q → Prop) [∀ v i q, Decidable (C v i q)] (P : Pool ι R S ε α)
    (schedule : List ι) : Decidable (P.Conforms h C schedule) :=
  match schedule with
  | [] => inferInstanceAs (Decidable True)
  | i :: schedule =>
    have : Decidable (∀ q k, P.threads i = .ask q k → C P.view i q) :=
      match P.threads i with
      | .ret _ => .isTrue fun _ _ h => by cases h
      | .fail _ => .isTrue fun _ _ h => by cases h
      | .ask q _ => decidable_of_iff (C P.view i q) ⟨fun hc _ _ h => by cases h; exact hc, fun hc => hc _ _ rfl⟩
    @instDecidableAnd _ _ this (decConforms C (P.step h i) schedule)

theorem conforms_true {C : View ι R S → ι → Q → Prop} (hC : ∀ v i q, C v i q) {P : Pool ι R S ε α}
    (schedule : List ι) : P.Conforms h C schedule := by
  induction schedule generalizing P with
  | nil => trivial
  | cons i schedule ih => exact ⟨fun _ _ _ => hC _ _ _, ih⟩

theorem Conforms.mono {C C' : View ι R S → ι → Q → Prop} {P : Pool ι R S ε α} {schedule : List ι}
    (hc : P.Conforms h C schedule) (himp : ∀ v i q, C v i q → C' v i q) : P.Conforms h C' schedule := by
  induction schedule generalizing P with
  | nil => trivial
  | cons i schedule ih => exact ⟨fun q k ht => himp _ _ _ (hc.1 q k ht), ih hc.2⟩

theorem Conforms.take {C : View ι R S → ι → Q → Prop} {P : Pool ι R S ε α} {s₁ s₂ : List ι}
    (hc : P.Conforms h C (s₁ ++ s₂)) : P.Conforms h C s₁ := by
  induction s₁ generalizing P with
  | nil => trivial
  | cons i s₁ ih => exact ⟨hc.1, ih hc.2⟩

end Pool

/-- The terms on which the threads of a pool share its view. -/
structure Discipline (ι : Type) (R : Q → Type) (S : Type) where
  inv : View ι R S → Prop
  allowed : View ι R S → ι → Q → Prop
  guar : View ι R S → ι → Q → Prop

namespace Discipline

variable (h : Handler R S) (D : Discipline ι R S)

/-- What thread `i` knows stays true during the turns of the others. -/
def Stable (i : ι) (K : View ι R S → Prop) : Prop :=
  ∀ v j q, j ≠ i → D.inv v → D.allowed v j q → D.guar v j q → K v → K (v.after h j q)

/-- Thread `i`, running `p` from view `v`, keeps the discipline and ends with `E`. Before each question, and at
the end, there is something stable that it knows and that is enough to go on. -/
def Safe (i : ι) (E : Except ε α → View ι R S → Prop) : Prog Q R ε α → View ι R S → Prop
  | .ret a, v => ∃ K, D.Stable h i K ∧ K v ∧ ∀ v', D.inv v' → K v' → E (.ok a) v'
  | .fail e, v => ∃ K, D.Stable h i K ∧ K v ∧ ∀ v', D.inv v' → K v' → E (.error e) v'
  | .ask q k, v => ∃ K, D.Stable h i K ∧ K v ∧ ∀ v', D.inv v' → K v' → D.allowed v' i q →
      D.guar v' i q ∧ D.inv (v'.after h i q) ∧ Safe i E (k (h q v'.state).1) (v'.after h i q)

variable {h D} {i : ι} {E : Except ε α → View ι R S → Prop}

theorem stable_true : D.Stable h i fun _ => True := fun _ _ _ _ _ _ _ _ => trivial

theorem Stable.and {K K' : View ι R S → Prop} (hK : D.Stable h i K) (hK' : D.Stable h i K') :
    D.Stable h i fun v => K v ∧ K' v :=
  fun v j q hj hI hC hG hv => ⟨hK v j q hj hI hC hG hv.1, hK' v j q hj hI hC hG hv.2⟩

/-- A thread that ends with a stable postcondition is safe. -/
theorem Safe.ret {a : α} {v : View ι R S} (hs : D.Stable h i (E (.ok a))) (hv : E (.ok a) v) :
    D.Safe h i E (.ret a) v :=
  ⟨E (.ok a), hs, hv, fun _ _ h => h⟩

theorem Safe.fail {e : ε} {v : View ι R S} (hs : D.Stable h i (E (.error e))) (hv : E (.error e) v) :
    D.Safe h i E (.fail e) v :=
  ⟨E (.error e), hs, hv, fun _ _ h => h⟩

/-- A question for which nothing need be known. -/
theorem Safe.ask {q : Q} {k : R q → Prog Q R ε α} {v : View ι R S}
    (hk : ∀ v', D.inv v' → D.allowed v' i q →
      D.guar v' i q ∧ D.inv (v'.after h i q) ∧ D.Safe h i E (k (h q v'.state).1) (v'.after h i q)) :
    D.Safe h i E (.ask q k) v :=
  ⟨fun _ => True, stable_true, trivial, fun v' hI _ hC => hk v' hI hC⟩

/-- The sequence rule: the second program starts from what the first one ends with. -/
theorem Safe.bind {p : Prog Q R ε β} {f : β → Prog Q R ε α} {M : Except ε β → View ι R S → Prop}
    {v : View ι R S} (hv : D.inv v) (hp : D.Safe h i M p v)
    (hok : ∀ a v', D.inv v' → M (.ok a) v' → D.Safe h i E (f a) v')
    (herr : ∀ e v', D.inv v' → M (.error e) v' → D.Safe h i E (.fail e) v') :
    D.Safe h i E (p >>= f) v := by
  induction p generalizing v with
  | ret a =>
    obtain ⟨K, -, hKv, hK⟩ := hp
    exact hok a v hv (hK v hv hKv)
  | fail e =>
    obtain ⟨K, -, hKv, hK⟩ := hp
    exact herr e v hv (hK v hv hKv)
  | ask q k ih =>
    obtain ⟨K, hs, hKv, hK⟩ := hp
    refine ⟨K, hs, hKv, fun v' hI hKv' hC => ?_⟩
    obtain ⟨hg, hI', hsafe⟩ := hK v' hI hKv' hC
    exact ⟨hg, hI', ih _ hI' hsafe⟩

/-- The rule of consequence. -/
theorem Safe.imp {p : Prog Q R ε α} {E' : Except ε α → View ι R S → Prop} {v : View ι R S}
    (himp : ∀ r v, E r v → E' r v) (hp : D.Safe h i E p v) : D.Safe h i E' p v := by
  induction p generalizing v with
  | ret a =>
    obtain ⟨K, hs, hKv, hK⟩ := hp
    exact ⟨K, hs, hKv, fun v' hI hKv' => himp _ _ (hK v' hI hKv')⟩
  | fail e =>
    obtain ⟨K, hs, hKv, hK⟩ := hp
    exact ⟨K, hs, hKv, fun v' hI hKv' => himp _ _ (hK v' hI hKv')⟩
  | ask q k ih =>
    obtain ⟨K, hs, hKv, hK⟩ := hp
    refine ⟨K, hs, hKv, fun v' hI hKv' hC => ?_⟩
    obtain ⟨hg, hI', hsafe⟩ := hK v' hI hKv' hC
    exact ⟨hg, hI', ih _ hsafe⟩

/-- The rule for renamed errors. -/
theorem Safe.mapErr {ε' : Type} {f : ε → ε'} {p : Prog Q R ε α} {E' : Except ε' α → View ι R S → Prop} {v : View ι R S}
    (himp : ∀ r v, E r v → E' (r.mapError f) v) (hp : D.Safe h i E p v) : D.Safe h i E' (p.mapErr f) v := by
  induction p generalizing v with
  | ret a =>
    obtain ⟨K, hs, hKv, hK⟩ := hp
    exact ⟨K, hs, hKv, fun v' hI hKv' => himp _ _ (hK v' hI hKv')⟩
  | fail e =>
    obtain ⟨K, hs, hKv, hK⟩ := hp
    exact ⟨K, hs, hKv, fun v' hI hKv' => himp _ _ (hK v' hI hKv')⟩
  | ask q k ih =>
    obtain ⟨K, hs, hKv, hK⟩ := hp
    refine ⟨K, hs, hKv, fun v' hI hKv' hC => ?_⟩
    obtain ⟨hg, hI', hsafe⟩ := hK v' hI hKv' hC
    exact ⟨hg, hI', ih _ hsafe⟩

/-- A safe thread stays safe during a turn of another one. -/
theorem Safe.other {p : Prog Q R ε α} {v : View ι R S} {j : ι} {q : Q} (hj : j ≠ i) (hI : D.inv v)
    (hC : D.allowed v j q) (hG : D.guar v j q) (hp : D.Safe h i E p v) :
    D.Safe h i E p (v.after h j q) := by
  cases p with
  | ret a => obtain ⟨K, hs, hKv, hK⟩ := hp; exact ⟨K, hs, hs v j q hj hI hC hG hKv, hK⟩
  | fail e => obtain ⟨K, hs, hKv, hK⟩ := hp; exact ⟨K, hs, hs v j q hj hI hC hG hKv, hK⟩
  | ask q' k => obtain ⟨K, hs, hKv, hK⟩ := hp; exact ⟨K, hs, hs v j q hj hI hC hG hKv, hK⟩

/-- A program that meets a specification, when what the thread knows justifies its assumption on the answers and
is kept by each of its questions. -/
theorem Safe.of_spec {p : Prog Q R ε α} {B : (q : Q) → R q → Prop} {A : Q → Prop} {P : Except ε α → Prop}
    {K : View ι R S → Prop} {v : View ι R S} (hp : p.Meets B A P) (hs : D.Stable h i K) (hv : K v)
    (hstep : ∀ v q, D.inv v → K v → D.allowed v i q → A q →
      D.guar v i q ∧ D.inv (v.after h i q) ∧ B q (h q v.state).1 ∧ K (v.after h i q)) :
    D.Safe h i (fun r v => P r ∧ K v) p v := by
  induction p generalizing v with
  | ret a => exact ⟨K, hs, hv, fun _ _ hK => ⟨hp, hK⟩⟩
  | fail e => exact ⟨K, hs, hv, fun _ _ hK => ⟨hp, hK⟩⟩
  | ask q k ih =>
    refine ⟨K, hs, hv, fun v' hI hK hC => ?_⟩
    obtain ⟨hg, hI', hr, hK'⟩ := hstep v' q hI hK hC hp.1
    exact ⟨hg, hI', ih _ (hp.2 _ hr) hK'⟩

/-- A program that meets a specification, each of whose questions keeps what the thread knows. -/
theorem Safe.of_meets {p : Prog Q R ε α} {A : Q → Prop} {P : Except ε α → Prop} {K : View ι R S → Prop}
    {v : View ι R S} (hp : p.Meets (fun _ _ => True) A P) (hs : D.Stable h i K) (hv : K v)
    (hstep : ∀ v q, D.inv v → K v → D.allowed v i q → A q →
      D.guar v i q ∧ D.inv (v.after h i q) ∧ K (v.after h i q)) :
    D.Safe h i (fun r v => P r ∧ K v) p v :=
  Safe.of_spec hp hs hv fun v q hI hK hC hA =>
    let ⟨hg, hI', hK'⟩ := hstep v q hI hK hC hA
    ⟨hg, hI', trivial, hK'⟩

/-- A program that meets a specification, when the invariant justifies its assumption on the answers. -/
theorem Safe.of_assumed {p : Prog Q R ε α} {B : (q : Q) → R q → Prop} {A : Q → Prop} {P : Except ε α → Prop}
    {v : View ι R S} (hp : p.Meets B A P)
    (hstep : ∀ v q, D.inv v → D.allowed v i q → A q →
      D.guar v i q ∧ D.inv (v.after h i q) ∧ B q (h q v.state).1) : D.Safe h i (fun r _ => P r) p v :=
  Safe.imp (fun _ _ hP => hP.1) <| Safe.of_spec hp stable_true trivial fun v q hI _ hC hA =>
    let ⟨hg, hI', hr⟩ := hstep v q hI hC hA
    ⟨hg, hI', hr, trivial⟩

/-- A program that asks questions of one kind, each of which keeps what the thread knows. -/
theorem Safe.of_only {p : Prog Q R ε α} {A : Q → Prop} {K : View ι R S → Prop} {v : View ι R S} (hp : p.Only A)
    (hs : D.Stable h i K) (hv : K v)
    (hstep : ∀ v q, D.inv v → K v → D.allowed v i q → A q →
      D.guar v i q ∧ D.inv (v.after h i q) ∧ K (v.after h i q)) :
    D.Safe h i (fun _ v => K v) p v :=
  (Safe.of_meets hp hs hv hstep).imp fun _ _ hK => hK.2

end Discipline

namespace Pool

variable [DecidableEq ι] {h : Handler R S} {D : Discipline ι R S} {E : ι → Except ε α → View ι R S → Prop}

/-- One turn of a pool of safe threads. -/
theorem step_safe {P : Pool ι R S ε α} (hI : D.inv P.view)
    (hS : ∀ i, D.Safe h i (E i) (P.threads i) P.view) (i : ι)
    (hC : ∀ q k, P.threads i = .ask q k → D.allowed P.view i q) :
    D.inv (P.step h i).view ∧ ∀ j, D.Safe h j (E j) ((P.step h i).threads j) (P.step h i).view := by
  unfold step
  have hi := hS i
  cases ht : P.threads i with
  | ret a => exact ⟨hI, hS⟩
  | fail e => exact ⟨hI, hS⟩
  | ask q k =>
    rw [ht] at hi
    obtain ⟨K, -, hKv, hK⟩ := hi
    obtain ⟨hG, hI', hsafe⟩ := hK P.view hI hKv (hC q k ht)
    refine ⟨hI', fun j => ?_⟩
    by_cases hj : j = i
    · subst hj
      simpa using hsafe
    · simp only [Function.update_of_ne hj]
      exact (hS j).other (Ne.symm hj) hI (hC q k ht) hG

/-- The rely/guarantee rule: a pool of safe threads keeps the invariant along every schedule whose turns are
allowed, and its threads stay safe. -/
theorem run_safe {P : Pool ι R S ε α} (hI : D.inv P.view)
    (hS : ∀ i, D.Safe h i (E i) (P.threads i) P.view) {schedule : List ι}
    (hC : P.Conforms h D.allowed schedule) :
    D.inv (P.run h schedule).view ∧
      ∀ i, D.Safe h i (E i) ((P.run h schedule).threads i) (P.run h schedule).view := by
  induction schedule generalizing P with
  | nil => exact ⟨hI, hS⟩
  | cons i schedule ih =>
    obtain ⟨hI', hS'⟩ := step_safe hI hS i hC.1
    exact ih hI' hS' hC.2

/-- Along every schedule whose turns are allowed, every turn satisfies the guarantee. -/
theorem run_guar {P : Pool ι R S ε α} (hI : D.inv P.view)
    (hS : ∀ i, D.Safe h i (E i) (P.threads i) P.view) {schedule : List ι}
    (hC : P.Conforms h D.allowed schedule) : P.Conforms h D.guar schedule := by
  induction schedule generalizing P with
  | nil => trivial
  | cons i schedule ih =>
    obtain ⟨hI', hS'⟩ := step_safe hI hS i hC.1
    refine ⟨fun q k ht => ?_, ih hI' hS' hC.2⟩
    have hi := hS i
    rw [ht] at hi
    obtain ⟨K, -, hKv, hK⟩ := hi
    exact (hK P.view hI hKv (hC.1 q k ht)).1

/-- A thread that has ended satisfies its postcondition. -/
theorem run_post {P : Pool ι R S ε α} (hI : D.inv P.view)
    (hS : ∀ i, D.Safe h i (E i) (P.threads i) P.view) {schedule : List ι}
    (hC : P.Conforms h D.allowed schedule) (i : ι) :
    (∀ a, (P.run h schedule).threads i = .ret a → E i (.ok a) (P.run h schedule).view) ∧
      ∀ e, (P.run h schedule).threads i = .fail e → E i (.error e) (P.run h schedule).view := by
  obtain ⟨hI', hS'⟩ := run_safe hI hS hC
  have hi := hS' i
  constructor
  · intro a ha
    rw [ha] at hi
    obtain ⟨K, -, hKv, hK⟩ := hi
    exact hK _ hI' hKv
  · intro e he
    rw [he] at hi
    obtain ⟨K, -, hKv, hK⟩ := hi
    exact hK _ hI' hKv

end Pool

end Effects
