import AgentVerse.Effects.Sum

/-!
# Marked programs

A marked program leaves marks on its way, and does otherwise what it does without them: `unmark` forgets the marks,
and every play of a program without its marks is one of the program with them (`plays_unmark`). The marks of a play
say what the questions alone need not show, such as which parts of a program have begun.
-/

namespace Effects

/-- A program that leaves marks from `K`. -/
abbrev Marked (Q : Type) (R : Q → Type) (K ε α : Type) : Type := Prog (Q ⊕ K) (SumReply R fun _ : K => Unit) ε α

variable {Q K : Type} {R : Q → Type} {ε α β : Type}

/-- The marks of a play, oldest first. -/
def marksOf (t : List (Step (SumReply R fun _ : K => Unit))) : List K := t.filterMap fun x => x.1.getRight?

/-- A play without its marks. -/
def unmarked : List (Step (SumReply R fun _ : K => Unit)) → List (Step R)
  | [] => []
  | ⟨.inl q, r⟩ :: t => ⟨q, r⟩ :: unmarked t
  | ⟨.inr _, _⟩ :: t => unmarked t

@[simp] theorem marksOf_nil : marksOf (R := R) (K := K) [] = [] := rfl

@[simp] theorem marksOf_inl (q : Q) (r : R q) (t : List (Step (SumReply R fun _ : K => Unit))) :
    marksOf (⟨.inl q, r⟩ :: t) = marksOf t := rfl

@[simp] theorem marksOf_inr (k : K) (u : Unit) (t : List (Step (SumReply R fun _ : K => Unit))) :
    marksOf (⟨.inr k, u⟩ :: t) = k :: marksOf t := rfl

@[simp] theorem marksOf_append (t t' : List (Step (SumReply R fun _ : K => Unit))) :
    marksOf (t ++ t') = marksOf t ++ marksOf t' := List.filterMap_append

@[simp] theorem unmarked_append (t t' : List (Step (SumReply R fun _ : K => Unit))) :
    unmarked (t ++ t') = unmarked t ++ unmarked t' := by
  induction t with
  | nil => rfl
  | cons x t ih =>
    obtain ⟨q, r⟩ := x
    cases q with
    | inl q => simp [unmarked, ih]
    | inr k => simp [unmarked, ih]

theorem mem_unmarked {t : List (Step (SumReply R fun _ : K => Unit))} {q : Q} {r : R q} (h : ⟨.inl q, r⟩ ∈ t) :
    ⟨q, r⟩ ∈ unmarked t := by
  induction t with
  | nil => cases h
  | cons x t ih =>
    rcases List.mem_cons.mp h with rfl | hrest
    · exact List.mem_cons_self
    · obtain ⟨q', r'⟩ := x
      cases q' with
      | inl q' => exact List.mem_cons_of_mem _ (ih hrest)
      | inr k => exact ih hrest

namespace Prog

/-- An assume/guarantee specification holds of every play. -/
theorem Meets.plays {B : (q : Q) → R q → Prop} {A : Q → Prop} {P : Except ε α → Prop} {p : Prog Q R ε α}
    (hp : p.Meets B A P) {t : List (Step R)} {x : Except ε α} (h : p.Plays t x) (hB : ∀ e ∈ t, B e.1 e.2) :
    (∀ e ∈ t, A e.1) ∧ P x := by
  induction p generalizing t with
  | ret a =>
    obtain ⟨rfl, rfl⟩ := h
    exact ⟨by simp, hp⟩
  | fail e =>
    obtain ⟨rfl, rfl⟩ := h
    exact ⟨by simp, hp⟩
  | ask q k ih =>
    obtain ⟨r, t', rfl, ht⟩ := h
    obtain ⟨hA, hP⟩ := ih r (hp.2 r (hB ⟨q, r⟩ List.mem_cons_self)) ht fun e he => hB e (List.mem_cons_of_mem _ he)
    exact ⟨List.forall_mem_cons.mpr ⟨hp.1, hA⟩, hP⟩

/-- The questions of a play are those of its program. -/
theorem Only.plays {A : Q → Prop} {p : Prog Q R ε α} (hp : p.Only A) {t : List (Step R)} {x : Except ε α}
    (h : p.Plays t x) : ∀ e ∈ t, A e.1 :=
  (Meets.plays hp h fun _ _ => trivial).1

/-- The plays of a program with its errors changed. -/
theorem plays_mapErr {ε' : Type} {f : ε → ε'} {p : Prog Q R ε α} {t : List (Step R)} {x : Except ε' α} :
    (p.mapErr f).Plays t x ↔ ∃ y, p.Plays t y ∧ x = y.mapError f := by
  induction p generalizing t with
  | ret a =>
    constructor
    · rintro ⟨rfl, rfl⟩
      exact ⟨.ok a, ⟨rfl, rfl⟩, rfl⟩
    · rintro ⟨y, ⟨rfl, rfl⟩, rfl⟩
      exact ⟨rfl, rfl⟩
  | fail e =>
    constructor
    · rintro ⟨rfl, rfl⟩
      exact ⟨.error e, ⟨rfl, rfl⟩, rfl⟩
    · rintro ⟨y, ⟨rfl, rfl⟩, rfl⟩
      exact ⟨rfl, rfl⟩
  | ask q k ih =>
    simp only [mapErr_ask, plays_ask, ih]
    constructor
    · rintro ⟨r, t', rfl, y, hy, rfl⟩
      exact ⟨y, ⟨r, t', rfl, hy⟩, rfl⟩
    · rintro ⟨y, ⟨r, t', rfl, hy⟩, rfl⟩
      exact ⟨r, t', rfl, y, hy, rfl⟩

/-- The plays of a program that is run for its result. -/
theorem plays_attempt {ε' : Type} {p : Prog Q R ε α} {t : List (Step R)} {x : Except ε' (Except ε α)} :
    p.attempt.Plays t x ↔ ∃ y, p.Plays t y ∧ x = .ok y := by
  induction p generalizing t with
  | ret a => simp [attempt]
  | fail e => simp [attempt]
  | ask q k ih =>
    simp only [attempt, plays_ask, ih]
    constructor
    · rintro ⟨r, t', rfl, y, hy, rfl⟩
      exact ⟨y, ⟨r, t', rfl, hy⟩, rfl⟩
    · rintro ⟨y, ⟨r, t', rfl, hy⟩, rfl⟩
      exact ⟨r, t', rfl, y, hy, rfl⟩

/-- How the plays of a sequence are composed. -/
theorem plays_bind {p : Prog Q R ε α} {f : α → Prog Q R ε β} {t : List (Step R)} {x : Except ε β} :
    (p >>= f).Plays t x ↔
      (∃ e, p.Plays t (.error e) ∧ x = .error e) ∨
        ∃ a t₁ t₂, t = t₁ ++ t₂ ∧ p.Plays t₁ (.ok a) ∧ (f a).Plays t₂ x := by
  induction p generalizing t with
  | ret a => simp
  | fail e => simp [and_comm]
  | ask q k ih =>
    simp only [ask_bind, plays_ask, ih]
    constructor
    · rintro ⟨r, t', rfl, ⟨e, he, rfl⟩ | ⟨a, t₁, t₂, rfl, h₁, h₂⟩⟩
      · exact .inl ⟨e, ⟨r, t', rfl, he⟩, rfl⟩
      · exact .inr ⟨a, _, t₂, rfl, ⟨r, t₁, rfl, h₁⟩, h₂⟩
    · rintro (⟨e, ⟨r, t', rfl, he⟩, rfl⟩ | ⟨a, _, t₂, rfl, ⟨r, t₁, rfl, h₁⟩, h₂⟩)
      · exact ⟨r, t', rfl, .inl ⟨e, he, rfl⟩⟩
      · exact ⟨r, _, rfl, .inr ⟨a, t₁, t₂, rfl, h₁, h₂⟩⟩

/-- A play of a sequence begins with one of its first program, which it ends with if that fails. -/
theorem Plays.first {p : Prog Q R ε α} {f : α → Prog Q R ε β} {t : List (Step R)} {x : Except ε β}
    (h : (p >>= f).Plays t x) : ∃ y t₁ t₂, t = t₁ ++ t₂ ∧ p.Plays t₁ y ∧
      ((∃ e, y = .error e ∧ x = .error e ∧ t₂ = []) ∨ ∃ a, y = .ok a ∧ (f a).Plays t₂ x) := by
  obtain ⟨e, h₁, rfl⟩ | ⟨a, t₁, t₂, rfl, h₁, h₂⟩ := plays_bind.mp h
  · exact ⟨_, t, [], by simp, h₁, .inl ⟨e, rfl, rfl, rfl⟩⟩
  · exact ⟨_, t₁, t₂, rfl, h₁, .inr ⟨a, rfl, h₂⟩⟩

/-- Leave a mark. -/
def mark (k : K) : Marked Q R K ε Unit := ask (Sum.inr k) ret

def unmark : Marked Q R K ε α → Prog Q R ε α
  | ret a => ret a
  | fail e => fail e
  | ask (.inl q) k => ask q fun r => (k r).unmark
  | ask (.inr _) k => (k ()).unmark

@[simp] theorem unmark_ret (a : α) : (ret a : Marked Q R K ε α).unmark = ret a := rfl

@[simp] theorem unmark_mark_bind (k : K) (f : Unit → Marked Q R K ε α) :
    (mark k >>= f).unmark = (f ()).unmark := rfl

@[simp] theorem unmark_bind (p : Marked Q R K ε α) (f : α → Marked Q R K ε β) :
    (p >>= f).unmark = p.unmark >>= fun a => (f a).unmark := by
  induction p with
  | ret a => rfl
  | fail e => rfl
  | ask q k ih =>
    cases q with
    | inl q => exact congrArg (ask q) (funext ih)
    | inr q => exact ih ()

@[simp] theorem unmark_inl (p : Prog Q R ε α) : (p.inl : Marked Q R K ε α).unmark = p := by
  induction p with
  | ret a => rfl
  | fail e => rfl
  | ask q k ih => exact congrArg (ask q) (funext ih)

@[simp] theorem unmark_mapErr {ε' : Type} (f : ε → ε') (p : Marked Q R K ε α) :
    (p.mapErr f).unmark = p.unmark.mapErr f := by
  induction p with
  | ret a => rfl
  | fail e => rfl
  | ask q k ih =>
    cases q with
    | inl q => exact congrArg (ask q) (funext ih)
    | inr q => exact ih ()

/-- Every play of the unmarked program is a play of the marked one, without its marks. -/
theorem plays_unmark {p : Marked Q R K ε α} {t : List (Step R)} {x : Except ε α} :
    p.unmark.Plays t x ↔ ∃ t', p.Plays t' x ∧ unmarked t' = t := by
  induction p generalizing t with
  | ret a =>
    constructor
    · rintro ⟨rfl, rfl⟩
      exact ⟨[], ⟨rfl, rfl⟩, rfl⟩
    · rintro ⟨t', ⟨rfl, rfl⟩, rfl⟩
      exact ⟨rfl, rfl⟩
  | fail e =>
    constructor
    · rintro ⟨rfl, rfl⟩
      exact ⟨[], ⟨rfl, rfl⟩, rfl⟩
    · rintro ⟨t', ⟨rfl, rfl⟩, rfl⟩
      exact ⟨rfl, rfl⟩
  | ask q k ih =>
    cases q with
    | inl q =>
      simp only [unmark, plays_ask, ih]
      constructor
      · rintro ⟨r, t', rfl, s, hs, rfl⟩
        exact ⟨_, ⟨r, s, rfl, hs⟩, rfl⟩
      · rintro ⟨_, ⟨r, s, rfl, hs⟩, rfl⟩
        exact ⟨r, _, rfl, s, hs, rfl⟩
    | inr q =>
      simp only [unmark, plays_ask, ih]
      constructor
      · rintro ⟨s, hs, rfl⟩
        exact ⟨_, ⟨(), s, rfl, hs⟩, rfl⟩
      · rintro ⟨_, ⟨r, s, rfl, hs⟩, rfl⟩
        exact ⟨s, hs, rfl⟩

/-- A program without marks leaves none. -/
theorem plays_inl {p : Prog Q R ε α} {t : List (Step (SumReply R fun _ : K => Unit))} {x : Except ε α}
    (h : (p.inl : Marked Q R K ε α).Plays t x) : marksOf t = [] ∧ p.Plays (unmarked t) x := by
  induction p generalizing t with
  | ret a =>
    obtain ⟨rfl, rfl⟩ := h
    exact ⟨rfl, rfl, rfl⟩
  | fail e =>
    obtain ⟨rfl, rfl⟩ := h
    exact ⟨rfl, rfl, rfl⟩
  | ask q k ih =>
    obtain ⟨r, t', rfl, ht⟩ := h
    obtain ⟨hm, hp⟩ := ih r ht
    exact ⟨hm, r, _, rfl, hp⟩

/-- What the unmarked program does not ask, the marked one does not ask. -/
theorem Only.marked {A : Q → Prop} {p : Marked Q R K ε α} (hp : p.unmark.Only A)
    {t : List (Step (SumReply R fun _ : K => Unit))} {x : Except ε α} (h : p.Plays t x) {q : Q} {r : R q}
    (hq : ⟨.inl q, r⟩ ∈ t) : A q :=
  hp.plays (plays_unmark.mpr ⟨t, h, rfl⟩) _ (mem_unmarked hq)

/-- A mark comes first in the plays of what follows it. -/
theorem plays_mark_bind {k : K} {f : Unit → Marked Q R K ε α} {t : List (Step (SumReply R fun _ : K => Unit))}
    {x : Except ε α} : (mark k >>= f).Plays t x ↔ ∃ t', t = ⟨.inr k, ()⟩ :: t' ∧ (f ()).Plays t' x := by
  simp only [mark, ask_bind, ret_bind, plays_ask]
  constructor
  · rintro ⟨r, t', rfl, h⟩
    exact ⟨t', rfl, h⟩
  · rintro ⟨t', rfl, h⟩
    exact ⟨(), t', rfl, h⟩

end Prog

end Effects
